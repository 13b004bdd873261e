import TetCore.Sites.Chain

/-!
# Runs of the site store

Every call is an `append` of a verified edit, on a clock that does not go back, between calls or within
one. `append_cases` says once how a call ends. The head it read is the site's head when it writes,
unless the site expired in between (`Crosses`): before `head`, in a call that writes a first edit over
the old ones, or before the row of the call's own prune, in a call that goes on from edits it deleted.

`append_sound_iff`: a call keeps the invariant exactly when it does not cross. `site_chains` is the
invariant over runs, with what a refused edit changes.
-/

namespace TetCore.Sites

open TetCore.Lib TetCore.Tmail

section Calls

variable {W : World} {V : SiteVars} {s s' : SiteStore} {t : SiteStore.Readings} {e : SiteEditV1}

/-! ## How a call ends -/

/-- The head a call reads. -/
def readHead (V : SiteVars) (t : SiteStore.Readings) (e : SiteEditV1) (s : SiteStore) :
    Option SiteHead :=
  (SiteStore.startOver V t e s).head V t.head e.site

/-- The store a call writes to. -/
def madeRoom (V : SiteVars) (t : SiteStore.Readings) (e : SiteEditV1) (s : SiteStore) : SiteStore :=
  SiteStore.makeRoom V t e (SiteStore.startOver V t e s) (readHead V t e s)

/-- The time of an edit is near the clock. -/
def Fresh (V : SiteVars) (t : SiteStore.Readings) (e : SiteEditV1) : Prop :=
  (e.createdAtMs - t.stale) + (t.stale - e.createdAtMs) ≤ V.skew

/-- What an accepted edit passed. -/
structure Accepted (V : SiteVars) (t : SiteStore.Readings) (e : SiteEditV1) (s : SiteStore) : Prop where
  fresh : Fresh V t e
  next : SiteStore.Extends e (readHead V t e s)
  fits : SiteStore.Fits e (readHead V t e s)
  room : (madeRoom V t e s).overCap V e (readHead V t e s) = false

theorem append_of_accepted (h : Accepted V t e s) :
    SiteStore.append W V t e s = (.ok (SiteStore.newHead W t e (readHead V t e s)),
      SiteStore.write W t e (madeRoom V t e s) (readHead V t e s)) := by
  have hfresh : ¬ V.skew < (e.createdAtMs - t.stale) + (t.stale - e.createdAtMs) :=
    Nat.not_lt.mpr h.fresh
  have hnext := h.next
  have hfits := h.fits
  have hroom := h.room
  unfold madeRoom readHead at hroom
  unfold readHead at hnext hfits
  unfold SiteStore.append
  rw [if_neg hfresh]
  simp only [hnext, hfits, hroom, not_true_eq_false, if_false, Bool.false_eq_true]
  rfl

/-- **How a call ends**: an edit is refused, with nothing done but the removal of expired sites, or
accepted. -/
theorem append_cases (W : World) (V : SiteVars) (t : SiteStore.Readings) (e : SiteEditV1)
    (s : SiteStore) :
    (∃ err s', SiteStore.append W V t e s = (.error err, s') ∧ ¬ Accepted V t e s ∧
      (s' = s ∨ s' = SiteStore.startOver V t e s ∨ s' = madeRoom V t e s)) ∨ Accepted V t e s := by
  by_cases hfresh : Fresh V t e
  · by_cases hnext : SiteStore.Extends e (readHead V t e s)
    · by_cases hfits : SiteStore.Fits e (readHead V t e s)
      · by_cases hroom : (madeRoom V t e s).overCap V e (readHead V t e s) = true
        · refine Or.inl ⟨.storeFull, madeRoom V t e s, ?_, fun h => ?_, Or.inr (Or.inr rfl)⟩
          · unfold SiteStore.append
            rw [if_neg (Nat.not_lt.mpr hfresh)]
            unfold madeRoom readHead at hroom
            unfold readHead at hnext hfits
            simp only [hnext, hfits, hroom, not_true_eq_false, if_false, if_true]
            rfl
          · rw [h.room] at hroom
            cases hroom
        · exact Or.inr ⟨hfresh, hnext, hfits, Bool.eq_false_iff.mpr hroom⟩
      · refine Or.inl ⟨.siteFull, SiteStore.startOver V t e s, ?_, fun h => hfits h.fits,
          Or.inr (Or.inl rfl)⟩
        unfold SiteStore.append
        rw [if_neg (Nat.not_lt.mpr hfresh)]
        unfold readHead at hnext hfits
        simp only [hnext, hfits, not_true_eq_false, not_false_eq_true, if_false, if_true]
    · refine Or.inl ⟨.notNext (SiteStore.expected (readHead V t e s)).1
        (SiteStore.expected (readHead V t e s)).2.1, SiteStore.startOver V t e s, ?_,
        fun h => hnext h.next, Or.inr (Or.inl rfl)⟩
      unfold SiteStore.append
      rw [if_neg (Nat.not_lt.mpr hfresh)]
      unfold readHead at hnext ⊢
      simp only [hnext, not_false_eq_true, if_true]
  · refine Or.inl ⟨.stale, s, ?_, fun h => hfresh h.fresh, Or.inl rfl⟩
    unfold SiteStore.append
    rw [if_pos (Nat.not_le.mp hfresh)]

/-! ## Expiry within a call -/

/-- The head expires before `head` reads it, and a first edit is written over the old ones. -/
structure StartsAnew (V : SiteVars) (t : SiteStore.Readings) (e : SiteEditV1) (s : SiteStore)
    (h : SiteHead) : Prop where
  expired : expired V t.head h = true
  next : SiteStore.Extends e none
  fits : SiteStore.Fits e none
  room : s.overCap V e none = false

/-- The head expires before the prune of the call reads it, and the edit goes on from it. -/
structure PrunedAway (V : SiteVars) (t : SiteStore.Readings) (e : SiteEditV1) (s : SiteStore)
    (h : SiteHead) : Prop where
  live : expired V t.head h = false
  next : SiteStore.Extends e (some h)
  fits : SiteStore.Fits e (some h)
  full : s.overCap V e (some h) = true
  due : SiteStore.PruneDue t s
  expired : expired V (t.row e.site) h = true
  room : (SiteStore.makeRoom V t e s (some h)).overCap V e (some h) = false

/-- The head of the site is live when the call first looks at it, and expires before the call is done
with it. -/
def Crosses (V : SiteVars) (t : SiteStore.Readings) (e : SiteEditV1) (s : SiteStore) : Prop :=
  Fresh V t e ∧ ∃ h, s.rawHead e.site = some h ∧ expired V t.startOver h = false ∧
    (StartsAnew V t e s h ∨ PrunedAway V t e s h)

theorem expired_mono {a b : Nat} {h : SiteHead} (hab : a ≤ b) (ha : expired V a h = true) :
    expired V b h = true := by
  unfold expired at ha ⊢
  simp only [Bool.and_eq_true, decide_eq_true_eq] at ha ⊢
  exact ⟨ha.1, by omega⟩

/-- A call does not cross when the site is live to its end. -/
theorem not_crosses_of_live (ht : t.Ordered)
    (hlive : ∀ h, s.rawHead e.site = some h → expired V t.updated h = false) : ¬ Crosses V t e s := by
  rintro ⟨-, h, hh, -, hcase⟩
  have hupdated := hlive h hh
  rcases hcase with hanew | hpruned
  · have hle : t.head ≤ t.updated :=
      ht.head.trans (ht.due.trans ((ht.pruned e.site).trans (ht.row e.site)))
    rw [expired_mono hle hanew.expired] at hupdated
    cases hupdated
  · rw [expired_mono (ht.row e.site) hpruned.expired] at hupdated
    cases hupdated

/-- A live site does not start over. -/
theorem startOver_of_live {h : SiteHead} (hh : s.rawHead e.site = some h)
    (hlive : expired V t.startOver h = false) : SiteStore.startOver V t e s = s := by
  unfold SiteStore.startOver
  rw [hh, Option.filter_some, hlive]
  rfl

theorem readHead_eq : readHead V t e s =
    ((SiteStore.startOver V t e s).rawHead e.site).filter fun h => !expired V t.head h := by
  unfold readHead SiteStore.head
  rw [trimLower_site]

theorem readHead_eq_some {h : SiteHead} : readHead V t e s = some h ↔
    (SiteStore.startOver V t e s).rawHead e.site = some h ∧ expired V t.head h = false := by
  rw [readHead_eq, Option.filter_eq_some_iff, Bool.not_eq_true']

theorem Inv.of_madeRoom (hs : Inv W V s) : Inv W V (madeRoom V t e s) := ((hs.startOver t e).1.makeRoom t e _).1

/-- The head a call read is the site's head when it writes, unless the call crosses. -/
theorem Inv.rawHead_room (hs : Inv W V s) (ht : t.Ordered) (hacc : Accepted V t e s)
    (hcross : ¬ Crosses V t e s) : (madeRoom V t e s).rawHead e.site = readHead V t e s := by
  have hstart := (hs.startOver t e).2
  have hmade := ((hs.startOver t e).1.makeRoom t e (readHead V t e s)).2
  cases hread : readHead V t e s with
  | some h =>
    obtain ⟨hraw, hlive⟩ := readHead_eq_some.mp hread
    obtain ⟨hh, hfirst⟩ := (hstart.heads e.site h).mp hraw
    have hsame := startOver_of_live (t := t) hh (hfirst rfl)
    refine (hmade.heads e.site h).mpr ⟨hraw, fun hfull hdue => ?_⟩
    by_contra hexp
    rw [hread, hsame] at hfull
    rw [hsame] at hdue
    have hroom := hacc.room
    unfold madeRoom at hroom
    rw [hread, hsame] at hroom
    refine hcross ⟨hacc.fresh, h, hh, hfirst rfl, Or.inr ⟨hlive, ?_, ?_, hfull, hdue, ?_, hroom⟩⟩
    · rw [← hread]
      exact hacc.next
    · rw [← hread]
      exact hacc.fits
    · simpa using hexp
  | none =>
    rw [Option.eq_none_iff_forall_ne_some]
    intro g hg
    obtain ⟨hraw, hrow⟩ := (hmade.heads e.site g).mp hg
    obtain ⟨hh, hfirst⟩ := (hstart.heads e.site g).mp hraw
    have hsame := startOver_of_live (t := t) hh (hfirst rfl)
    have hexp : expired V t.head g = true := by
      by_contra hlive
      have := readHead_eq_some.mpr ⟨hraw, Bool.eq_false_iff.mpr hlive⟩
      rw [hread] at this
      cases this
    have hroom := hacc.room
    unfold madeRoom at hroom
    rw [hread, hsame] at hroom hrow
    cases hfull : s.overCap V e none with
    | false =>
      refine hcross ⟨hacc.fresh, g, hh, hfirst rfl, Or.inl ⟨hexp, ?_, ?_, hfull⟩⟩
      · rw [← hread]
        exact hacc.next
      · rw [← hread]
        exact hacc.fits
    | true =>
      by_cases hdue : SiteStore.PruneDue t s
      · have hgone := expired_mono (V := V) (ht.head.trans (ht.due.trans (ht.pruned e.site))) hexp
        rw [hrow hfull hdue] at hgone
        cases hgone
      · unfold SiteStore.makeRoom at hroom
        rw [if_neg fun h => hdue h.2, hfull] at hroom
        cases hroom

/-- **A call that does not cross keeps the invariant.** -/
theorem Inv.append (hs : Inv W V s) (ht : t.Ordered) (hhex : isHex64 e.site = true)
    (hcross : ¬ Crosses V t e s) : Inv W V (SiteStore.append W V t e s).2 := by
  rcases append_cases W V t e s with ⟨err, s', heq, -, hs'⟩ | hacc
  · rw [heq]
    rcases hs' with rfl | rfl | rfl
    · exact hs
    · exact (hs.startOver t e).1
    · exact hs.of_madeRoom
  · rw [append_of_accepted hacc]
    exact hs.of_madeRoom.write hhex (hs.rawHead_room ht hacc hcross) hacc.next hacc.fits hacc.room

/-! ## Calls that cross -/

theorem size_pos (e : SiteEditV1) : 0 < e.size := by
  unfold SiteEditV1.size byteLen SiteEditV1.json Json.record
  simp [utf8, String.utf8EncodeChar]

theorem SiteChain.bytes_pos {site : Str} {h : SiteHead} {l : List SiteEditV1}
    (hc : SiteChain W s site h l) : 0 < h.bytes := by
  have hlen := hc.pos
  rw [← hc.length] at hlen
  rw [hc.bytes]
  cases l with
  | nil => cases hlen
  | cons d l =>
    rw [List.map_cons, List.sum_cons]
    have := size_pos d
    omega

/-- A first edit over an old chain leaves the old bytes in the total. -/
theorem Inv.not_sound_of_startsAnew (hs : Inv W V s) {h : SiteHead} (hh : s.rawHead e.site = some h) :
    ¬ Sound W V (SiteStore.write W t e s none) := by
  intro hsound
  obtain ⟨l, hl⟩ := hs.chains _ h hh
  have hpos := hl.bytes_pos
  have hsum := hs.sumBy_write t none (hs.ne_total hh)
  have hweight : s.heads.rowWeight (fun _ r => HeadRow.bytes r) e.site = h.bytes := by
    unfold Tree.rowWeight
    rw [SiteStore.rawHead_eq_some.mp hh]
    rfl
  have htotal := hsound.total
  rw [SiteStore.totalBytes_write, hs.total] at htotal
  simp only [SiteStore.expected] at hsum
  omega

/-- An edit after deleted ones has no first edit before it. -/
theorem Inv.not_sound_of_prunedAway (hs : Inv W V s) {h : SiteHead} (hhex : isHex64 e.site = true)
    (hgone : s.rawHead e.site = none) (hlen : 0 < h.len) (hnext : SiteStore.Extends e (some h))
    (hfits : SiteStore.Fits e (some h)) : ¬ Sound W V (SiteStore.write W t e s (some h)) := by
  intro hsound
  have hseq : e.seq = h.len := hnext.1
  have hmax := hfits.2
  unfold siteMaxEdits at hmax
  have hhead := SiteStore.rawHead_write W t (some h) (ne_totalKey hhex)
    hs.no_head_at_total e.site
  rw [if_pos rfl] at hhead
  obtain ⟨l, hl⟩ := hsound.chains _ _ hhead
  have hfirst := (hl.stored_isSome 0 (by omega)).mpr hl.pos
  have hedits : (SiteStore.write W t e s (some h)).edits.get (editKey e.site 0) = none := by
    show (s.edits.insert (editKey e.site e.seq) e).get (editKey e.site 0) = none
    rw [Tree.get_insert_ne, hs.no_edits hgone (by omega)]
    intro hkey
    have := (editKey_injective (by omega) (by omega) hkey).2
    omega
  rw [hedits] at hfirst
  cases hfirst

/-- **A call that crosses breaks the invariant.** -/
theorem Inv.not_sound_of_crosses (hs : Inv W V s) (hhex : isHex64 e.site = true)
    (hcross : Crosses V t e s) : ¬ Sound W V (SiteStore.append W V t e s).2 := by
  obtain ⟨hfresh, h, hh, hfirst, hcase⟩ := hcross
  have hsame := startOver_of_live (t := t) hh hfirst
  rcases hcase with hanew | hpruned
  · have hread : readHead V t e s = none := by
      rw [readHead_eq, hsame, hh, Option.filter_some, hanew.expired]
      rfl
    have hroom : madeRoom V t e s = s := by
      unfold madeRoom SiteStore.makeRoom
      rw [hread, hsame, if_neg]
      rw [hanew.room]
      simp
    have hacc : Accepted V t e s := by
      refine ⟨hfresh, ?_, ?_, ?_⟩
      · rw [hread]
        exact hanew.next
      · rw [hread]
        exact hanew.fits
      · rw [hroom, hread]
        exact hanew.room
    rw [append_of_accepted hacc, hread, hroom]
    exact hs.not_sound_of_startsAnew hh
  · have hread : readHead V t e s = some h :=
      readHead_eq_some.mpr ⟨by rw [hsame]; exact hh, hpruned.live⟩
    have hroom : madeRoom V t e s = SiteStore.makeRoom V t e s (some h) := by
      unfold madeRoom
      rw [hread, hsame]
    have hacc : Accepted V t e s := by
      refine ⟨hfresh, ?_, ?_, ?_⟩
      · rw [hread]
        exact hpruned.next
      · rw [hread]
        exact hpruned.fits
      · rw [hroom, hread]
        exact hpruned.room
    have hmade := hs.makeRoom t e (some h)
    have hgone : (SiteStore.makeRoom V t e s (some h)).rawHead e.site = none := by
      rw [Option.eq_none_iff_forall_ne_some]
      intro g hg
      obtain ⟨hg', hlive⟩ := (hmade.2.heads e.site g).mp hg
      rw [hh] at hg'
      cases hg'
      have hexp := hlive hpruned.full hpruned.due
      rw [hpruned.expired] at hexp
      cases hexp
    obtain ⟨l, hl⟩ := hs.chains _ h hh
    rw [append_of_accepted hacc, hread, hroom]
    exact hmade.1.not_sound_of_prunedAway hhex hgone hl.pos hpruned.next hpruned.fits

/-- **A call keeps the invariant exactly when it does not cross.** -/
theorem append_sound_iff (hs : Inv W V s) (ht : t.Ordered) (hhex : isHex64 e.site = true) :
    Sound W V (SiteStore.append W V t e s).2 ↔ ¬ Crosses V t e s := by
  constructor
  · exact fun hsound hcross => hs.not_sound_of_crosses hhex hcross hsound
  · exact fun hcross => (hs.append ht hhex hcross).toSound

/-! ## Refused edits -/

/-- Every site is as before, or was expired and is gone with its edits. -/
def OnlyExpiredGone (V : SiteVars) (nowMs : Nat) (s s' : SiteStore) : Prop :=
  ∀ site, (s'.rawHead site = s.rawHead site ∧
      ∀ seq < 2 ^ 64, s'.edits.get (editKey site seq) = s.edits.get (editKey site seq)) ∨
    ∃ h, s.rawHead site = some h ∧ expired V nowMs h = true ∧ s'.rawHead site = none ∧
      ∀ seq < 2 ^ 64, s'.edits.get (editKey site seq) = none

theorem OnlyExpiredGone.of_pruned {live : Str → SiteHead → Prop} {now : Nat} (hs : Inv W V s)
    (hs' : Inv W V s') (h : Pruned live s s')
    (hexp : ∀ a g, s.rawHead a = some g → ¬ live a g → expired V now g = true) :
    OnlyExpiredGone V now s s' := by
  intro site
  cases hbefore : s.rawHead site with
  | none =>
    have hafter : s'.rawHead site = none := by
      rw [Option.eq_none_iff_forall_ne_some]
      intro g hg
      rw [((h.heads site g).mp hg).1] at hbefore
      cases hbefore
    refine Or.inl ⟨hafter, fun seq hseq => ?_⟩
    rw [hs.no_edits hbefore hseq, hs'.no_edits hafter hseq]
  | some g =>
    by_cases hlive : live site g
    · have hafter := (h.heads site g).mpr ⟨hbefore, hlive⟩
      exact Or.inl ⟨hafter, h.edits site g hafter⟩
    · have hafter : s'.rawHead site = none := by
        rw [Option.eq_none_iff_forall_ne_some]
        intro g' hg'
        obtain ⟨hsame, hlive'⟩ := (h.heads site g').mp hg'
        rw [hbefore] at hsame
        cases hsame
        exact hlive hlive'
      exact Or.inr ⟨g, rfl, hexp site g hbefore hlive, hafter, fun _ hseq => hs'.no_edits hafter hseq⟩

/-- **A refused edit** changes nothing but that expired sites may be gone. -/
theorem Inv.refused (hs : Inv W V s) (ht : t.Ordered) {err : SiteEditError}
    (h : SiteStore.append W V t e s = (.error err, s')) : OnlyExpiredGone V t.updated s s' := by
  have hstart := hs.startOver t e
  have hmade := hstart.1.makeRoom t e (readHead V t e s)
  have hlast : t.startOver ≤ t.updated := ht.startOver.trans
    (ht.head.trans (ht.due.trans ((ht.pruned e.site).trans (ht.row e.site))))
  have hgone : ∀ g : SiteHead, ¬ expired V t.startOver g = false → expired V t.updated g = true :=
    fun g hg => expired_mono hlast (by simpa using hg)
  rcases append_cases W V t e s with ⟨err', u, heq, -, hu⟩ | hacc
  · rw [heq] at h
    cases h
    rcases hu with rfl | rfl | rfl
    · have hsame : Pruned (fun _ _ => True) s' s' := .refl fun _ _ _ => trivial
      exact .of_pruned hs hs hsame fun _ _ _ hlive => absurd trivial hlive
    · refine .of_pruned hs hstart.1 hstart.2 fun a g _ hlive => hgone g fun hexp => ?_
      exact hlive fun _ => hexp
    · refine .of_pruned hs hmade.1 (hstart.2.trans hmade.2) fun a g _ hlive => ?_
      by_contra hexp
      have hrow : expired V (t.row a) g = false := by
        by_contra hrow
        exact hexp (expired_mono (ht.row a) (by simpa using hrow))
      refine hlive ⟨fun _ => ?_, fun _ _ => hrow⟩
      by_contra hfirst
      exact hexp (hgone g hfirst)
  · rw [append_of_accepted hacc] at h
    cases h

end Calls

/-! ## Runs -/

section Runs

variable (A : Auth) (W : World) (bodyOp : Str → Option Str) (V : SiteVars)

/-- The stores a node reaches, with the time, when every call satisfies `C`. The time under the lock is
not stored. -/
inductive SiteRun (C : SiteStore.Readings → SiteEditV1 → SiteStore → Prop) :
    Nat → SiteStore → Prop
  | opened (now : Nat) : SiteRun C now SiteStore.opened
  | reopened {now : Nat} {s : SiteStore} (h : SiteRun C now s) :
    SiteRun C now { s with lastPrune := 0 }
  | append {now : Nat} {s : SiteStore} (t : SiteStore.Readings) (e : SiteEditV1)
    (h : SiteRun C now s) (hnow : now ≤ t.stale) (ht : t.Ordered)
    (hverified : verifySiteEditV1 A W bodyOp e = .ok ()) (hC : C t e s) :
    SiteRun C t.updated (SiteStore.append W V t e s).2

variable {A W bodyOp V} {now : Nat} {s : SiteStore}

theorem SiteRun.inv (h : SiteRun A W bodyOp V (fun t e s => ¬ Crosses V t e s) now s) :
    Inv W V s := by
  induction h with
  | opened now => exact inv_opened
  | reopened _ ih => exact ih.lastPrune 0
  | append t e _ _ ht hverified hcross ih =>
    exact ih.append ht (siteHex_of_verified A W bodyOp hverified) hcross

end Runs

end TetCore.Sites

namespace TetCore.Sample

open TetCore.Lib TetCore.Tmail TetCore.Sites

/-- The operation of a body, in the one body of the samples. -/
def bodyOp (body : Str) : Option Str :=
  if body = "\x7b\"op\":\"add\"\x7d".toList then some "add".toList else none

/-- An edit signed with its site's two keys. -/
def siteEdit (site : Str) (seq : Nat) (prevHash : Str) (createdAtMs : Nat) : SiteEditV1 :=
  let unsigned : SiteEditV1 := ⟨1, siteEditKind, site, seq, prevHash,
    "\x7b\"op\":\"add\"\x7d".toList, createdAtMs, ⟨site, [], mldsaKey, []⟩⟩
  let msg := siteEditAuthMessageBytes auth (World.sample 0) unsigned mldsaKey
  { unsigned with hybridSig := ⟨site, sign site msg, mldsaKey, sign mldsaKey msg⟩ }

/-- The clock at one time for the whole call, but for the rows of a prune and what comes after. -/
def readings (now later : Nat) : SiteStore.Readings :=
  ⟨now, now, now, now, now, fun _ => later, later⟩

theorem readings_ordered {now later : Nat} (h : now ≤ later) : (readings now later).Ordered :=
  ⟨le_rfl, le_rfl, le_rfl, le_rfl, fun _ => h, fun _ => le_rfl⟩

/-- Room for one edit of the samples. -/
def smallStore : SiteVars := ⟨none, some 100000, none, some 1000⟩

/-- A site's first edit and the one after it. -/
def firstEdit : SiteEditV1 := siteEdit (wallet 'a') 0 zeroHash 100000

def secondEdit : SiteEditV1 :=
  siteEdit (wallet 'a') 1 (siteEditHash (World.sample 0) firstEdit) 200000

def siteAppend (V : SiteVars) (t : SiteStore.Readings) (e : SiteEditV1) (s : SiteStore) : SiteStore :=
  (SiteStore.append (World.sample 0) V t e s).2

theorem siteAppend_run {V : SiteVars} {P : SiteStore.Readings → SiteEditV1 → SiteStore → Prop}
    {t : SiteStore.Readings} {e : SiteEditV1} {now : Nat} {s : SiteStore}
    (h : SiteRun auth (World.sample 0) bodyOp V P now s) (hle : now ≤ t.stale) (ht : t.Ordered)
    (hverified : verifySiteEditV1 auth (World.sample 0) bodyOp e = .ok ()) (hP : P t e s) :
    SiteRun auth (World.sample 0) bodyOp V P t.updated (siteAppend V t e s) :=
  SiteRun.append t e h hle ht hverified hP

/-- One edit, and two. -/
def oneEdit (V : SiteVars) : SiteStore :=
  siteAppend V (readings 100000 100000) firstEdit SiteStore.opened

def twoEdits : SiteStore := siteAppend ⟨none, none, none, none⟩ (readings 200000 200000) secondEdit
  (oneEdit ⟨none, none, none, none⟩)

/-- The second edit comes in the last millisecond of the site, to a full store. -/
def orphanEdit : SiteStore := siteAppend smallStore (readings 200000 200001) secondEdit
  (oneEdit smallStore)

theorem verify_edits : verifySiteEditV1 auth (World.sample 0) bodyOp firstEdit = .ok () ∧
    verifySiteEditV1 auth (World.sample 0) bodyOp secondEdit = .ok () := by
  have hall : (verifySiteEditV1 auth (World.sample 0) bodyOp firstEdit).isOk = true ∧
      (verifySiteEditV1 auth (World.sample 0) bodyOp secondEdit).isOk = true := by
    decide +kernel
  obtain ⟨hfirst, hsecond⟩ := hall
  constructor
  · cases h : verifySiteEditV1 auth (World.sample 0) bodyOp firstEdit with
    | ok u => rfl
    | error err =>
      rw [h] at hfirst
      cases hfirst
  · cases h : verifySiteEditV1 auth (World.sample 0) bodyOp secondEdit with
    | ok u => rfl
    | error err =>
      rw [h] at hsecond
      cases hsecond

end TetCore.Sample

namespace TetCore.Sites

open TetCore.Lib

/-- **Site chains**, in every run of calls that do not cross their site's expiry. -/
theorem site_chains {A : Auth} {W : World} {bodyOp : Str → Option Str} {V : SiteVars} {now : Nat}
    {s : SiteStore} (h : SiteRun A W bodyOp V (fun t e s => ¬ Crosses V t e s) now s) :
    Sound W V s ∧ ∀ t e, now ≤ t.stale → t.Ordered → verifySiteEditV1 A W bodyOp e = .ok () →
      ∀ err s', SiteStore.append W V t e s = (.error err, s') →
        OnlyExpiredGone V t.updated s s' :=
  ⟨h.inv.toSound, fun _ _ _ ht _ _ _ heq => h.inv.refused ht heq⟩

/-- A site of two edits. -/
theorem site_chains_two : Sound (World.sample 0) ⟨none, none, none, none⟩ Sample.twoEdits ∧
    (Sample.twoEdits.rawHead (Sample.wallet 'a')).map (·.len) = some 2 := by
  have hall : ((Sample.oneEdit ⟨none, none, none, none⟩).rawHead (Sample.wallet 'a')).all
      (fun h => !expired ⟨none, none, none, none⟩ 200000 h) = true ∧
      (Sample.twoEdits.rawHead (Sample.wallet 'a')).map (·.len) = some 2 ∧
      Sample.secondEdit.site = Sample.wallet 'a' := by
    decide +kernel
  obtain ⟨hlive, htwo, hsite⟩ := hall
  have hone : SiteRun Sample.auth (World.sample 0) Sample.bodyOp ⟨none, none, none, none⟩
      (fun t e s => ¬ Crosses ⟨none, none, none, none⟩ t e s) 100000
      (Sample.oneEdit ⟨none, none, none, none⟩) :=
    Sample.siteAppend_run (SiteRun.opened 0) (Nat.zero_le _) (Sample.readings_ordered le_rfl)
      Sample.verify_edits.1 (not_crosses_of_live (Sample.readings_ordered le_rfl) fun h hh => by
        simp [SiteStore.opened, SiteStore.rawHead] at hh)
  refine ⟨(site_chains (Sample.siteAppend_run hone (by decide) (Sample.readings_ordered le_rfl)
    Sample.verify_edits.2
    (not_crosses_of_live (Sample.readings_ordered le_rfl) fun h hh => ?_))).1, htwo⟩
  rw [hsite] at hh
  rw [hh] at hlive
  simpa [Sample.readings] using hlive

/-- The store keeps the second edit of a site whose first edit it pruned within the same call. -/
theorem site_chains_orphan :
    ¬ ∀ A W bodyOp V now s, Auth.Lawful A → SiteRun A W bodyOp V (fun _ _ _ => True) now s →
      Sound W V s := by
  intro h
  have hall : (Sample.orphanEdit.rawHead (Sample.wallet 'a')).map (·.len) = some 2 ∧
      (Sample.orphanEdit.edits.get (editKey (Sample.wallet 'a') 0)).isNone = true := by
    decide +kernel
  obtain ⟨hhead, hedit⟩ := hall
  have hrun : SiteRun Sample.auth (World.sample 0) Sample.bodyOp Sample.smallStore
      (fun _ _ _ => True) 200001 Sample.orphanEdit :=
    Sample.siteAppend_run
      (Sample.siteAppend_run (SiteRun.opened 0) (Nat.zero_le _) (Sample.readings_ordered le_rfl)
        Sample.verify_edits.1 trivial)
      (by decide) (Sample.readings_ordered (by decide)) Sample.verify_edits.2 trivial
  have hsound := h Sample.auth (World.sample 0) Sample.bodyOp Sample.smallStore 200001
    Sample.orphanEdit Sample.auth_lawful hrun
  obtain ⟨g, hg, hlen⟩ := Option.map_eq_some_iff.mp hhead
  obtain ⟨l, hl⟩ := hsound.chains _ g hg
  have hfirst := (hl.stored_isSome 0 (by decide)).mpr hl.pos
  rw [Option.isNone_iff_eq_none.mp hedit] at hfirst
  cases hfirst

end TetCore.Sites
