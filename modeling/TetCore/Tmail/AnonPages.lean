import TetCore.Lib.Paging
import TetCore.Tmail.AnonOrder
import TetCore.Tmail.AnonSync

/-!
# Reading the registry page by page

A caller of `anon_registrations_after` feeds each cursor back, in any spelling of it, until none is
returned; registrations arrive in between. The cursor is exclusive, the end is a page without one.

* `PageSession.scan_page`: a page is a page of the wallets (`Lib.Scan.turn`).
* `registry_paging`: every run of registrations and pages reads in ascending order, each wallet once;
  it ends, and what it leaves out was registered behind the cursor.
-/

namespace TetCore.Tmail

open TetCore.Lib

/-! ## Sessions -/

/-- The registry, and what a caller has of it: the cursor to feed back, whether there is no more, and
the registrations it was given. -/
structure PageSession where
  store : AnonStore
  cursor : Option Str
  done : Bool
  returned : List TmailAnonRegistrationV1

/-- A way to write a cursor: in another letter case, with blanks around it. -/
structure Spelling where
  write : Str → Str
  same : ∀ c, trimLower (write c) = trimLower c

inductive PageEvent where
  | register (now : Nat) (reg : TmailAnonRegistrationV1)
  | page (spelling : Spelling)

/-- The caller asks for one more page, unless it is done. -/
def PageSession.nextPage (limit : Nat) (spelling : Spelling) (s : PageSession) : PageSession :=
  if s.done then s
  else
    let page := s.store.anonRegistrationsAfter (s.cursor.map spelling.write) limit
    ⟨s.store, page.2.or s.cursor, page.2.isNone, s.returned ++ page.1⟩

/-- A registration is taken, or a page is asked for. -/
def PageSession.step (E : Vars) (limit : Nat) (s : PageSession) : PageEvent → PageSession
  | .register now reg => { s with store := (registerAnon E now reg s.store).2 }
  | .page spelling => s.nextPage limit spelling

/-- A session from a new registry. -/
def pageSession (E : Vars) (limit : Nat) (events : List PageEvent) : PageSession :=
  events.foldl (PageSession.step E limit) ⟨.new, none, false, []⟩

def PageEvent.isPage : PageEvent → Bool
  | .register _ _ => false
  | .page _ => true

namespace PageSession

/-- The wallet is registered. -/
def Stored (s : PageSession) (w : Str) : Prop := ∃ row, s.store.anonRegistry.get w = some row

/-- The caller was given a registration of the wallet. -/
def Given (s : PageSession) (w : Str) : Prop := ∃ reg ∈ s.returned, reg.wallet = w

/-- The wallet sorts after the cursor, and there may be more pages. -/
def Ahead (s : PageSession) (w : Str) : Prop :=
  s.done = false ∧ ∀ c, s.cursor = some c → compare c w = .lt

end PageSession

/-- **Complete paging**: ascending, each wallet once; it ends; a registered wallet is given at the end
if it was already or sorts after the cursor; one that is added in between exactly when it sorts after
the cursor; and an unchanged registry is given as it is. -/
structure PagedOnce (E : Vars) (limit : Nat) (events : List PageEvent) : Prop where
  ascending : (pageSession E limit events).returned.Pairwise fun a b =>
    compare a.wallet b.wallet = .lt
  stored : ∀ w, (pageSession E limit events).Given w → (pageSession E limit events).Stored w
  finishes : (pageSession E limit events).store.anonRegistry.iter.length <
    limit * events.countP PageEvent.isPage → (pageSession E limit events).done = true
  complete : ∀ before after, events = before ++ after → (pageSession E limit events).done = true →
    ∀ w, (pageSession E limit before).Stored w → ((pageSession E limit events).Given w ↔
      (pageSession E limit before).Given w ∨ (pageSession E limit before).Ahead w)
  added : ∀ before now reg after, events = before ++ .register now reg :: after →
    (pageSession E limit events).done = true → ∀ w, ¬(pageSession E limit before).Stored w →
      (pageSession E limit (before ++ [.register now reg])).Stored w →
        ((pageSession E limit events).Given w ↔ (pageSession E limit before).Ahead w)
  steady : ∀ before after, events = before ++ after → (∀ e ∈ before, e.isPage = false) →
    (∀ e ∈ after, e.isPage = true) → (pageSession E limit events).done = true →
      (pageSession E limit events).returned =
        (pageSession E limit before).store.anonRegistry.iter.map fun row => row.2.registration

/-! ## The session as a scan of the wallets -/

namespace PageSession

/-- The caller's side, by wallets. -/
def scan (s : PageSession) : Scan Str := ⟨s.cursor, s.done, s.returned.map fun reg => reg.wallet⟩

/-- The wallets that are registered, ascending. -/
def wallets (s : PageSession) : List Str := s.store.anonRegistry.iter.map Prod.fst

/-- Rows are filed under their wallets, the cursor is one of them, and what was returned is of
wallets that are still registered. -/
structure Filed (s : PageSession) : Prop where
  rows : ∀ w row, s.store.anonRegistry.get w = some row → row.registration.wallet = w
  cursor : ∀ c, s.cursor = some c → trimLower c = c
  returned : ∀ reg ∈ s.returned, s.Stored reg.wallet

variable {E : Vars} {limit : Nat} {s : PageSession} {w : Str}

theorem mem_wallets : w ∈ s.wallets ↔ s.Stored w := by
  rw [wallets, List.mem_map]
  constructor
  · rintro ⟨row, hrow, rfl⟩
    exact ⟨row.2, Tree.mem_iter.mp hrow⟩
  · rintro ⟨row, hrow⟩
    exact ⟨(w, row), Tree.mem_iter.mpr hrow, rfl⟩

theorem wallets_sorted (s : PageSession) : s.wallets.Pairwise fun a b => compare a b = .lt :=
  List.pairwise_map.mpr s.store.anonRegistry.iter_sorted

theorem Filed.trimLower_key (h : s.Filed) {row : StoredAnonRegistration}
    (hrow : s.store.anonRegistry.get w = some row) : trimLower w = w := by
  rw [← h.rows w row hrow]
  exact trimLower_trimLower _

/-- The rows of a page, before the limit. -/
def rowsAhead (s : PageSession) : List (Str × StoredAnonRegistration) :=
  s.store.anonRegistry.iter.filter fun r => s.cursor.all fun c => (compare c r.1).isLT

theorem anonRegistrationsAfter_eq (h : s.Filed) (spelling : Spelling) :
    s.store.anonRegistrationsAfter (s.cursor.map spelling.write) limit =
      ((s.rowsAhead.take limit).map fun r => r.2.registration,
        if limit < s.rowsAhead.length then (s.rowsAhead.take limit).getLast?.map Prod.fst
        else none) := by
  unfold AnonStore.anonRegistrationsAfter rowsAhead
  cases hc : s.cursor with
  | none => simp only [Option.map_none, Option.all_none, List.filter_true]
  | some c =>
    simp only [Option.map_some, Option.all_some, spelling.same, h.cursor c hc]

theorem keysAfter_wallets (s : PageSession) :
    keysAfter s.cursor s.wallets = s.rowsAhead.map Prod.fst := by
  rw [keysAfter, wallets, List.filter_map]
  rfl

theorem nextPage_eq (h : s.Filed) (hdone : ¬s.done = true) (spelling : Spelling) :
    s.nextPage limit spelling =
      if limit < s.rowsAhead.length then
        ⟨s.store, (s.rowsAhead.take limit).getLast?.map Prod.fst |>.or s.cursor,
          ((s.rowsAhead.take limit).getLast?.map Prod.fst).isNone,
          s.returned ++ (s.rowsAhead.take limit).map fun r => r.2.registration⟩
      else ⟨s.store, s.cursor, true,
        s.returned ++ (s.rowsAhead.take limit).map fun r => r.2.registration⟩ := by
  rw [nextPage, if_neg hdone, anonRegistrationsAfter_eq h]
  by_cases hmore : limit < s.rowsAhead.length
  · rw [if_pos hmore, if_pos hmore]
  · rw [if_neg hmore, if_neg hmore]
    rfl

/-- **A page** is a page of the wallets. -/
theorem scan_page (h : s.Filed) (hlimit : 0 < limit) (spelling : Spelling) :
    (s.nextPage limit spelling).scan = s.scan.turn limit s.wallets := by
  have hpage : ((s.rowsAhead.take limit).map fun r => r.2.registration).map (fun reg => reg.wallet) =
      (s.rowsAhead.map Prod.fst).take limit := by
    rw [← List.map_take, List.map_map]
    refine List.map_congr_left fun r hr => ?_
    exact h.rows r.1 r.2 (Tree.mem_iter.mp (List.mem_of_mem_filter (List.mem_of_mem_take hr)))
  have hkeys : keysAfter s.scan.cursor s.wallets = s.rowsAhead.map Prod.fst := keysAfter_wallets s
  by_cases hdone : s.done = true
  · rw [nextPage, if_pos hdone, Scan.turn, if_pos (show s.scan.done = true from hdone)]
  rw [nextPage_eq h hdone, Scan.turn, if_neg (show ¬s.scan.done = true from hdone), hkeys,
    List.length_map]
  by_cases hmore : limit < s.rowsAhead.length
  · rw [if_pos hmore, if_pos hmore]
    obtain ⟨last, hlast⟩ : ∃ last, (s.rowsAhead.take limit).getLast? = some last := by
      refine ⟨_, List.getLast?_eq_some_getLast (List.length_pos_iff.mp ?_)⟩
      rw [List.length_take]
      omega
    unfold scan
    rw [List.map_append, hpage, ← List.map_take, List.getLast?_map, hlast]
    rfl
  · rw [if_neg hmore, if_neg hmore]
    unfold scan
    rw [List.map_append, hpage]

/-! ## One event -/

theorem mem_rowsAhead {r : Str × StoredAnonRegistration} (h : r ∈ s.rowsAhead.take limit) :
    s.store.anonRegistry.get r.1 = some r.2 :=
  Tree.mem_iter.mp (List.mem_of_mem_filter (List.mem_of_mem_take h))

theorem stored_register {now : Nat} {reg : TmailAnonRegistrationV1} (h : s.Stored w) :
    (s.step E limit (.register now reg)).Stored w := by
  obtain ⟨row, hrow⟩ := h
  rcases get_registerAnon E now reg s.store w with heq | ⟨-, heq⟩
  · exact ⟨row, heq.trans hrow⟩
  · exact ⟨_, heq⟩

theorem store_nextPage (spelling : Spelling) : (s.nextPage limit spelling).store = s.store := by
  unfold nextPage
  split
  · rfl
  · rfl

theorem stored_step (event : PageEvent) (h : s.Stored w) : (s.step E limit event).Stored w := by
  cases event with
  | register now reg => exact stored_register h
  | page spelling =>
    obtain ⟨row, hrow⟩ := h
    refine ⟨row, ?_⟩
    rw [step, store_nextPage]
    exact hrow

/-- What a page returns are registrations of the store. -/
theorem returned_nextPage (h : s.Filed) {spelling : Spelling} {reg : TmailAnonRegistrationV1}
    (hreg : reg ∈ (s.nextPage limit spelling).returned) : reg ∈ s.returned ∨
      ∃ r ∈ s.store.anonRegistry.iter, r.2.registration = reg := by
  by_cases hdone : s.done = true
  · rw [nextPage, if_pos hdone] at hreg
    exact Or.inl hreg
  · rw [nextPage_eq h hdone] at hreg
    have hboth : reg ∈ s.returned ++ (s.rowsAhead.take limit).map fun r => r.2.registration := by
      split at hreg <;> exact hreg
    refine (List.mem_append.mp hboth).imp_right fun hpage => ?_
    obtain ⟨r, hr, heq⟩ := List.mem_map.mp hpage
    exact ⟨r, Tree.mem_iter.mpr (mem_rowsAhead hr), heq⟩

theorem Filed.nextPage (h : s.Filed) (spelling : Spelling) : (s.nextPage limit spelling).Filed where
  rows := by
    rw [store_nextPage]
    exact h.rows
  cursor := by
    intro c hc
    by_cases hdone : s.done = true
    · rw [PageSession.nextPage, if_pos hdone] at hc
      exact h.cursor c hc
    · rw [nextPage_eq h hdone] at hc
      by_cases hmore : limit < s.rowsAhead.length
      · rw [if_pos hmore] at hc
        rcases Option.or_eq_some_iff.mp hc with hlast | ⟨-, hold⟩
        · obtain ⟨r, hr, rfl⟩ := Option.map_eq_some_iff.mp hlast
          exact h.trimLower_key (mem_rowsAhead (List.mem_of_getLast? hr))
        · exact h.cursor c hold
      · rw [if_neg hmore] at hc
        exact h.cursor c hc
  returned := by
    intro reg hreg
    unfold Stored
    rw [store_nextPage]
    rcases returned_nextPage h hreg with hold | ⟨r, hr, rfl⟩
    · exact h.returned reg hold
    · have hget := Tree.mem_iter.mp hr
      rw [h.rows r.1 r.2 hget]
      exact ⟨r.2, hget⟩

/-- **An event** keeps the rows filed. -/
theorem Filed.step (h : s.Filed) (event : PageEvent) : (s.step E limit event).Filed := by
  cases event with
  | register now reg =>
    refine ⟨fun w row hrow => ?_, h.cursor, fun r hr => stored_register (h.returned r hr)⟩
    rcases get_registerAnon E now reg s.store w with heq | ⟨rfl, heq⟩
    · exact h.rows w row (heq.symm.trans hrow)
    · rw [← Option.some.inj (heq.symm.trans hrow)]
  | page spelling => exact h.nextPage spelling

/-- **An event** moves the caller on. -/
theorem advance_step (h : s.Filed) (hlimit : 0 < limit) (event : PageEvent) :
    ∃ new, Scan.Advance s.Stored s.scan (s.step E limit event).scan new := by
  cases event with
  | register now reg => exact ⟨[], .refl _ _⟩
  | page spelling =>
    rw [step, scan_page h hlimit]
    obtain ⟨new, hnew⟩ := Scan.turn_advance hlimit s.wallets_sorted s.scan
    exact ⟨new, { hnew with covers := fun k hk => hnew.covers k (mem_wallets.mpr hk) }⟩

/-! ## Runs of events -/

/-- **Any events** move the caller on. -/
theorem advance_run (hlimit : 0 < limit) (after : List PageEvent) {s : PageSession} (h : s.Filed) :
    (after.foldl (PageSession.step E limit) s).Filed ∧
      ∃ new, Scan.Advance s.Stored s.scan (after.foldl (PageSession.step E limit) s).scan new := by
  induction after generalizing s with
  | nil => exact ⟨h, [], .refl _ _⟩
  | cons event after ih =>
    obtain ⟨hfiled, new', hnew'⟩ := ih (h.step event)
    obtain ⟨new, hnew⟩ := advance_step h hlimit event
    exact ⟨hfiled, new ++ new', hnew.trans hnew' fun w hw => stored_step event hw⟩

theorem filed_new : (⟨.new, none, false, []⟩ : PageSession).Filed where
  rows := fun w row h => by
    rw [show AnonStore.new.anonRegistry.get w = none from Tree.get_empty w] at h
    cases h
  cursor := fun c h => by cases h
  returned := fun reg h => absurd h List.not_mem_nil

theorem given_iff : s.Given w ↔ w ∈ s.scan.taken := by
  unfold Given scan
  rw [List.mem_map]

/-- Without pages nothing is returned. -/
theorem registrations_only {events : List PageEvent} (h : ∀ e ∈ events, e.isPage = false)
    (s : PageSession) : (events.foldl (PageSession.step E limit) s).scan = s.scan := by
  induction events generalizing s with
  | nil => rfl
  | cons event events ih =>
    obtain ⟨hevent, hevents⟩ := List.forall_mem_cons.mp h
    rw [List.foldl_cons, ih hevents]
    cases event with
    | register now reg => rfl
    | page spelling => cases hevent

/-- Pages leave the store, and return registrations of it. -/
theorem pages_only (limit : Nat) {events : List PageEvent} (h : ∀ e ∈ events, e.isPage = true) {s : PageSession}
    (hs : s.Filed) : (events.foldl (PageSession.step E limit) s).store = s.store ∧
      ∀ reg ∈ (events.foldl (PageSession.step E limit) s).returned, reg ∈ s.returned ∨
        ∃ r ∈ s.store.anonRegistry.iter, r.2.registration = reg := by
  induction events generalizing s with
  | nil => exact ⟨rfl, fun reg hreg => Or.inl hreg⟩
  | cons event events ih =>
    obtain ⟨hevent, hevents⟩ := List.forall_mem_cons.mp h
    cases event with
    | register now reg => cases hevent
    | page spelling =>
      obtain ⟨hstore, hreturned⟩ := ih hevents (hs.nextPage spelling)
      rw [store_nextPage] at hstore hreturned
      refine ⟨hstore, fun reg hreg => ?_⟩
      rcases hreturned reg hreg with hold | hrow
      · exact returned_nextPage hs hold
      · exact Or.inr hrow

/-- While there is more, every page was full. -/
theorem length_returned (hlimit : 0 < limit) (events : List PageEvent) {s : PageSession}
    (hs : s.Filed) (hmore : (events.foldl (PageSession.step E limit) s).done = false) :
    s.done = false ∧ (events.foldl (PageSession.step E limit) s).returned.length =
      s.returned.length + limit * events.countP PageEvent.isPage := by
  induction events generalizing s with
  | nil => exact ⟨hmore, rfl⟩
  | cons event events ih =>
    obtain ⟨hdone, hlen⟩ := ih (hs.step event) hmore
    rw [List.foldl_cons, hlen, List.countP_cons]
    cases event with
    | register now reg => exact ⟨hdone, rfl⟩
    | page spelling =>
      have hturn : (s.scan.turn limit s.wallets).done = false := by
        rw [← scan_page hs hlimit spelling]
        exact hdone
      have hfull := Scan.length_turn hturn
      rw [← scan_page hs hlimit spelling] at hfull
      have hfull' : (s.nextPage limit spelling).returned.length = s.returned.length + limit := by
        simpa only [scan, List.length_map] using hfull
      constructor
      · by_contra hnot
        rw [Bool.not_eq_false] at hnot
        have hstay : s.nextPage limit spelling = s := if_pos hnot
        change (s.nextPage limit spelling).done = false at hdone
        rw [hstay, hnot] at hdone
        cases hdone
      · change (s.nextPage limit spelling).returned.length + _ = _
        rw [hfull', PageEvent.isPage, if_pos rfl, Nat.mul_add, Nat.mul_one]
        omega

/-- What is returned at the end, from any moment on. -/
theorem given_done (hlimit : 0 < limit) (after : List PageEvent) (hs : s.Filed)
    (hdone : (after.foldl (PageSession.step E limit) s).done = true) (hw : s.Stored w) :
    (after.foldl (PageSession.step E limit) s).Given w ↔ s.Given w ∨ s.Ahead w := by
  obtain ⟨-, new, hnew⟩ := advance_run (E := E) hlimit after hs
  rw [given_iff, given_iff, hnew.taken, List.mem_append]
  refine or_congr_right ⟨hnew.pending w, fun hahead => ?_⟩
  refine (hnew.covers w hw hahead).resolve_right fun hpending => ?_
  have hmore : (after.foldl (PageSession.step E limit) s).done = false := hpending.1
  rw [hdone] at hmore
  cases hmore

end PageSession

open PageSession

section Registry

variable {E : Vars} {limit : Nat} {events : List PageEvent}

theorem pageSession_append (before after : List PageEvent) :
    pageSession E limit (before ++ after) =
      after.foldl (PageSession.step E limit) (pageSession E limit before) :=
  List.foldl_append

theorem pageSession_filed (hlimit : 0 < limit) (events : List PageEvent) :
    (pageSession E limit events).Filed ∧ (pageSession E limit events).scan.Ordered := by
  obtain ⟨hfiled, new, hnew⟩ := advance_run (E := E) hlimit events filed_new
  refine ⟨hfiled, Scan.Ordered.advance ⟨.nil, fun k hk => absurd hk List.not_mem_nil⟩ hnew⟩

/-- A session ends before it has asked for more than there is. -/
theorem pageSession_finishes (hlimit : 0 < limit)
    (h : (pageSession E limit events).store.anonRegistry.iter.length <
      limit * events.countP PageEvent.isPage) : (pageSession E limit events).done = true := by
  by_contra hmore
  rw [Bool.not_eq_true] at hmore
  obtain ⟨hfiled, hordered⟩ := pageSession_filed (E := E) hlimit events
  obtain ⟨-, hlen⟩ := length_returned hlimit events filed_new hmore
  change (pageSession E limit events).returned.length = _ at hlen
  have hnodup : (pageSession E limit events).scan.taken.Nodup := by
    refine hordered.sorted.imp ?_
    rintro a b hab rfl
    rw [Std.ReflOrd.compare_self] at hab
    cases hab
  have hle := (List.subperm_of_subset hnodup fun w hw => mem_wallets.mpr (by
    obtain ⟨reg, hreg, rfl⟩ := List.mem_map.mp hw
    exact hfiled.returned reg hreg)).length_le
  unfold scan wallets at hle
  rw [List.length_map, List.length_map, hlen] at hle
  simp only [List.length_nil] at hle
  omega

/-- Of an unchanged registry everything is returned, as it is. -/
theorem pageSession_steady (hlimit : 0 < limit) {before after : List PageEvent}
    (hbefore : ∀ e ∈ before, e.isPage = false) (hafter : ∀ e ∈ after, e.isPage = true)
    (hdone : (pageSession E limit (before ++ after)).done = true) :
    (pageSession E limit (before ++ after)).returned =
      (pageSession E limit before).store.anonRegistry.iter.map fun row => row.2.registration := by
  obtain ⟨hfiled, -⟩ := pageSession_filed (E := E) hlimit before
  have hstart : (pageSession E limit before).scan = ⟨none, false, []⟩ :=
    registrations_only hbefore _
  have hordered := (pageSession_filed (E := E) hlimit (before ++ after)).2.sorted
  rw [pageSession_append] at hdone hordered ⊢
  obtain ⟨-, hreturned⟩ := pages_only (E := E) limit hafter hfiled
  have hreturned₀ : (pageSession E limit before).returned = [] :=
    List.map_eq_nil_iff.mp (congrArg Scan.taken hstart)
  have hrows : ((pageSession E limit before).store.anonRegistry.iter.map fun row =>
      row.2.registration).Pairwise fun a b => compare a.wallet b.wallet = .lt := by
    refine List.pairwise_map.mpr (List.Pairwise.imp_of_mem ?_
      (pageSession E limit before).store.anonRegistry.iter_sorted)
    intro a b ha hb hab
    rw [hfiled.rows a.1 a.2 (Tree.mem_iter.mp ha), hfiled.rows b.1 b.2 (Tree.mem_iter.mp hb)]
    exact hab
  have hsorted := List.pairwise_map.mp hordered
  have hnodup : ∀ {l : List TmailAnonRegistrationV1},
      l.Pairwise (fun a b => compare a.wallet b.wallet = .lt) → l.Nodup := by
    intro l hl
    refine hl.imp ?_
    rintro a b hab rfl
    rw [Std.ReflOrd.compare_self] at hab
    cases hab
  refine List.Perm.eq_of_pairwise ?_ hsorted hrows
    ((List.perm_ext_iff_of_nodup (hnodup hsorted) (hnodup hrows)).mpr fun reg => ?_)
  · intro a b _ _ hab hba
    rw [Std.OrientedCmp.gt_of_lt hab] at hba
    cases hba
  · constructor
    · intro hreg
      rcases hreturned reg hreg with hold | ⟨r, hr, rfl⟩
      · rw [hreturned₀] at hold
        exact absurd hold List.not_mem_nil
      · exact List.mem_map_of_mem hr
    · intro hreg
      obtain ⟨r, hr, rfl⟩ := List.mem_map.mp hreg
      have hget := Tree.mem_iter.mp hr
      -- every wallet of the registry lies ahead of a new caller
      have hahead : (pageSession E limit before).Ahead r.1 := by
        refine ⟨congrArg Scan.done hstart, fun c hc => ?_⟩
        rw [show (pageSession E limit before).cursor = none from congrArg Scan.cursor hstart] at hc
        cases hc
      obtain ⟨reg, hreg, hwallet⟩ :=
        (given_done hlimit after hfiled hdone ⟨r.2, hget⟩).mpr (Or.inr hahead)
      rcases hreturned reg hreg with hold | ⟨r', hr', rfl⟩
      · rw [hreturned₀] at hold
        exact absurd hold List.not_mem_nil
      · have hget' := Tree.mem_iter.mp hr'
        rw [hfiled.rows r'.1 r'.2 hget'] at hwallet
        rw [hwallet, hget, Option.some.injEq] at hget'
        rw [hget']
        exact hreg

/-- **Registry paging** is complete in every run of registrations and pages. -/
theorem registry_paging (E : Vars) {limit : Nat} (hlimit : 1 ≤ limit) (events : List PageEvent) :
    PagedOnce E limit events where
  ascending := List.pairwise_map.mp (pageSession_filed hlimit events).2.sorted
  stored := by
    rintro w ⟨reg, hreg, rfl⟩
    exact (pageSession_filed hlimit events).1.returned reg hreg
  finishes := pageSession_finishes hlimit
  complete := by
    rintro before after rfl hdone w hw
    rw [pageSession_append] at hdone ⊢
    exact given_done hlimit after (pageSession_filed hlimit before).1 hdone hw
  added := by
    intro before now reg after hevents hdone w hnew hw
    have hsplit : events = (before ++ [.register now reg]) ++ after := by
      rw [hevents, List.append_assoc, List.singleton_append]
    rw [hsplit, pageSession_append] at hdone ⊢
    rw [given_done hlimit after (pageSession_filed hlimit _).1 hdone hw, pageSession_append]
    have hnone : ¬(pageSession E limit before).Given w := by
      rintro ⟨r, hr, rfl⟩
      exact hnew ((pageSession_filed hlimit before).1.returned r hr)
    exact or_iff_right hnone
  steady := by
    rintro before after rfl hbefore hafter hdone
    exact pageSession_steady hlimit hbefore hafter hdone

/-- Three wallets on pages of one, the last of them registered after the first page. -/
theorem registry_paging_one : PagedOnce {} 1
    [.register 0 (Sample.registration 'a' '1'), .register 0 (Sample.registration 'b' '2'),
      .page ⟨id, fun _ => rfl⟩, .register 5 (Sample.registration 'c' '3'), .page ⟨id, fun _ => rfl⟩,
      .page ⟨trimLower, trimLower_trimLower⟩, .page ⟨id, fun _ => rfl⟩] :=
  registry_paging {} (by decide) _

end Registry

end TetCore.Tmail
