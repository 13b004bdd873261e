import TetCore.Tmail.AnonRegistry

/-!
# Anti-entropy rounds

Model of the `AnonSync` exchange of `p2p.rs`: what a requester does with an answer, from its three
maps (`anon_sync_pages`, `anon_sync_spent`, `anon_sync_resume`), and what a responder answers
(`anon_registrations_after` behind a rate limiter). A round is the probe and the requests its
answers lead to (`exchange`), one request in flight at a time; the requester's root and the time a
page takes to verify are readings of each answer. A rate-limited answer, an empty page and the
answer to a probe have one shape, and the requester takes each of them for the answer to a probe:
with another root it starts over, with a new page count and from the resume cursor (`Restarts`). The
cursor of a page is asked for as it comes.

`anon_round_bounded`: as long as no page request is answered in that way and no answer's cursor lies
before the one it was asked after (`Orderly`), a round sends at most `ANON_SYNC_MAX_PAGES` page
requests and its cursors never go backwards. `anonRegistrationsAfter_cursor`: a responder's own
cursors lie ahead.
-/

namespace TetCore.Tmail

open TetCore.Lib

/-! ## The messages -/

/-- `ANON_SYNC_PAGE`. -/
def anonSyncPage : Nat := 256

/-- `ANON_SYNC_MAX_PAGES`. -/
def anonSyncMaxPages : Nat := 200

/-- `AnonSyncRequest`; a `limit` of 0 is a probe. -/
structure AnonSyncRequest where
  v : Nat
  afterWallet : Option Str
  limit : Nat
  deriving DecidableEq

/-- `AnonSyncResponse`. -/
structure AnonSyncResponse where
  merkleRootHex : Str
  epoch : Nat
  totalMembers : Nat
  registrations : List TmailAnonRegistrationV1
  nextCursor : Option Str

/-- The probe. -/
def AnonSyncRequest.probe : AnonSyncRequest := ⟨1, none, 0⟩

/-! ## The requester -/

/-- An answer, with the requester's root when it comes and the time its page takes to verify. -/
structure SyncAnswer where
  response : AnonSyncResponse
  ours : Str
  elapsed : Nat

/-- `anon_sync_spent`, `anon_sync_resume` and `anon_sync_pages`. -/
structure AnonSync where
  spent : Tree Str Nat
  resume : Tree Str Str
  pages : Tree Str Nat

namespace AnonSync

/-- No round yet. -/
def new : AnonSync := ⟨.empty, .empty, .empty⟩

/-- The round with the peer is over. -/
def endRound (s : AnonSync) (peer : Str) : AnonSync :=
  { s with pages := s.pages.remove peer, spent := s.spent.remove peer }

/-- What an answer of the peer leads to: the maps, and the next request if there is one. -/
def onAnswer (budget : Nat) (peer : Str) (s : AnonSync) (a : SyncAnswer) :
    AnonSync × Option AnonSyncRequest :=
  let response := a.response
  if response.registrations.isEmpty && response.nextCursor.isNone then
    if response.merkleRootHex = a.ours then ({ s with pages := s.pages.remove peer }, none)
    else
      ({ s with pages := s.pages.insert peer 0, spent := s.spent.insert peer 0 },
        some ⟨1, s.resume.get peer, anonSyncPage⟩)
  else
    let spent := (s.spent.get peer).getD 0 + a.elapsed
    let page := (s.pages.get peer).getD 0 + 1
    if budget ≤ spent then
      let resume := match response.nextCursor with
        | some cursor => s.resume.insert peer cursor
        | none => s.resume.remove peer
      ({ s with resume := resume }.endRound peer, none)
    else
      match response.nextCursor.filter fun _ => page < anonSyncMaxPages with
      | some cursor =>
        ({ s with pages := s.pages.insert peer page, spent := s.spent.insert peer spent },
          some ⟨1, some cursor, anonSyncPage⟩)
      | none => ({ s with resume := s.resume.remove peer }.endRound peer, none)

/-- The page requests of a round whose answers come in this order, the first one to the probe. -/
def exchange (budget : Nat) (peer : Str) : AnonSync → List SyncAnswer → List AnonSyncRequest
  | _, [] => []
  | s, a :: answers =>
    match s.onAnswer budget peer a with
    | (_, none) => []
    | (s, some request) => request :: exchange budget peer s answers

end AnonSync

/-! ## The responder -/

/-- `TxSubmitRateLimiter`: the second each peer's window started, in nanoseconds, and its count. -/
structure TxSubmitRateLimiter where
  windows : Tree Str (Nat × Nat)

namespace TxSubmitRateLimiter

/-- `allow`. -/
def allow (l : TxSubmitRateLimiter) (peer : Str) (maxPerSec now : Nat) :
    Bool × TxSubmitRateLimiter :=
  let entry := (l.windows.get peer).getD (now, 0)
  let entry := if 1000000000 ≤ now - entry.1 then (now, 0) else entry
  let entry := (entry.1, satAdd entry.2 1)
  (decide (entry.2 ≤ maxPerSec), ⟨l.windows.insert peer entry⟩)

/-- `prune`. -/
def prune (l : TxSubmitRateLimiter) (now : Nat) : TxSubmitRateLimiter :=
  let old := l.windows.iter.filter fun p => decide (60000000000 ≤ now - p.2.1)
  ⟨(old.map Prod.fst).foldl (fun t k => t.remove k) l.windows⟩

end TxSubmitRateLimiter

/-- `anon_registrations_after`: a page of rows by wallet id, and the last one's if more follow. -/
def AnonStore.anonRegistrationsAfter (s : AnonStore) (after : Option Str) (limit : Nat) :
    List TmailAnonRegistrationV1 × Option Str :=
  let rows : List (Str × StoredAnonRegistration) := match after with
    | some a => s.anonRegistry.iter.filter fun r => (compare (trimLower a) r.1).isLT
    | none => s.anonRegistry.iter
  let page := rows.take limit
  (page.map (·.2.registration), if limit < rows.length then page.getLast?.map (·.1) else none)

/-- The answering side of a node. -/
structure AnonResponder where
  limiter : TxSubmitRateLimiter
  store : AnonStore

/-- The answer to a peer's request, at a wall clock and an instant. -/
def AnonResponder.answer (E : Vars) (W : World) (rps now instant : Nat) (b : AnonResponder)
    (peer : Str) (request : AnonSyncRequest) : AnonSyncResponse × AnonResponder :=
  let limiter := b.limiter.prune instant
  let root := anonRootForEpoch E W (E.anonEpochIndex now) b.store
  let allowed := limiter.allow peer rps instant
  let limit := min request.limit anonSyncPage
  let page :=
    if allowed.1 = false ∨ limit = 0 then ([], none)
    else root.2.anonRegistrationsAfter request.afterWallet limit
  (⟨hexEncode root.1, E.anonEpochIndex now, root.2.anonRegistry.iter.length, page.1, page.2⟩,
    ⟨allowed.2, root.2⟩)

/-! ## What keeps a round in order -/

/-- One cursor is not after the other, as a responder reads them; the beginning comes first. -/
def CursorLE : Option Str → Option Str → Prop
  | none, _ => True
  | some _, none => False
  | some a, some b => (compare (trimLower a) (trimLower b)).isLE = true

/-- The answer is taken for one to a probe, with another root: the requester starts over. -/
def SyncAnswer.Restarts (a : SyncAnswer) : Prop :=
  a.response.registrations = [] ∧ a.response.nextCursor = none ∧ a.response.merkleRootHex ≠ a.ours

/-- An answer to a page request that goes on with the round. -/
structure GoesOn (request : AnonSyncRequest) (a : SyncAnswer) : Prop where
  continues : ¬ a.Restarts
  ahead : ∀ cursor, a.response.nextCursor = some cursor →
    CursorLE request.afterWallet (some cursor)

/-- Every answer to a page request goes on; `asked` is the page request in flight, if it is not the
probe. -/
def Orderly (budget : Nat) (peer : Str) :
    AnonSync → Option AnonSyncRequest → List SyncAnswer → Prop
  | _, _, [] => True
  | s, asked, a :: answers =>
    (∀ request, asked = some request → GoesOn request a) ∧
      ∀ s' request, s.onAnswer budget peer a = (s', some request) →
        Orderly budget peer s' (some request) answers

section Round

variable {budget : Nat} {peer : Str} {s s' : AnonSync} {a : SyncAnswer} {r : AnonSyncRequest}

theorem CursorLE.trans {x y z : Option Str} (hxy : CursorLE x y) (hyz : CursorLE y z) :
    CursorLE x z := by
  cases x with
  | none => trivial
  | some a =>
    cases y with
    | none => cases hxy
    | some b =>
      cases z with
      | none => cases hyz
      | some c => exact Std.TransCmp.isLE_trans hxy hyz

/-- **An answer that leads to a request** either starts over, or is a page whose cursor is asked for
within the cap. -/
theorem AnonSync.onAnswer_some (h : s.onAnswer budget peer a = (s', some r)) :
    a.Restarts ∧ s'.pages.get peer = some 0 ∨
      (∃ cursor, a.response.nextCursor = some cursor ∧ r.afterWallet = some cursor) ∧
        s'.pages.get peer = some ((s.pages.get peer).getD 0 + 1) ∧
        (s.pages.get peer).getD 0 + 1 < anonSyncMaxPages := by
  unfold AnonSync.onAnswer at h
  by_cases hshape : (a.response.registrations.isEmpty && a.response.nextCursor.isNone) = true
  · simp only [if_pos hshape] at h
    rw [Bool.and_eq_true, List.isEmpty_iff, Option.isNone_iff_eq_none] at hshape
    by_cases hroot : a.response.merkleRootHex = a.ours
    · rw [if_pos hroot] at h
      cases h
    · rw [if_neg hroot, Prod.mk.injEq] at h
      obtain ⟨rfl, -⟩ := h
      exact Or.inl ⟨⟨hshape.1, hshape.2, hroot⟩, Tree.get_insert_self _ _ _⟩
  · simp only [if_neg hshape] at h
    right
    by_cases hspent : budget ≤ (s.spent.get peer).getD 0 + a.elapsed
    · rw [if_pos hspent] at h
      cases h
    · rw [if_neg hspent] at h
      cases hcursor : a.response.nextCursor.filter fun _ =>
          decide ((s.pages.get peer).getD 0 + 1 < anonSyncMaxPages) with
      | none =>
        simp only [hcursor] at h
        cases h
      | some cursor =>
        simp only [hcursor, Prod.mk.injEq, Option.some.injEq] at h
        obtain ⟨rfl, rfl⟩ := h
        obtain ⟨hnext, hpage⟩ := Option.filter_eq_some_iff.mp hcursor
        exact ⟨⟨cursor, hnext, rfl⟩, Tree.get_insert_self _ _ _, of_decide_eq_true hpage⟩

theorem AnonSync.exchange_cons (s : AnonSync) (budget : Nat) (peer : Str) (a : SyncAnswer)
    (answers : List SyncAnswer) :
    s.exchange budget peer (a :: answers) = [] ∨
      ∃ s' r, s.onAnswer budget peer a = (s', some r) ∧
        s.exchange budget peer (a :: answers) = r :: s'.exchange budget peer answers := by
  rw [AnonSync.exchange]
  cases h : s.onAnswer budget peer a with
  | mk s' next =>
    cases next with
    | none => exact Or.inl rfl
    | some r => exact Or.inr ⟨s', r, rfl, rfl⟩

/-- With a page request in flight, the page count bounds the requests still to come. -/
theorem exchange_length_page : ∀ {answers : List SyncAnswer} {s : AnonSync} {r : AnonSyncRequest},
    Orderly budget peer s (some r) answers →
    (s.exchange budget peer answers).length ≤
      anonSyncMaxPages - 1 - (s.pages.get peer).getD 0 := by
  intro answers
  induction answers with
  | nil =>
    intro s r _
    exact Nat.zero_le _
  | cons a answers ih =>
    intro s r h
    rcases s.exchange_cons budget peer a answers with hnone | ⟨s', r', hanswer, hexchange⟩
    · rw [hnone]
      exact Nat.zero_le _
    · rcases AnonSync.onAnswer_some hanswer with ⟨hrestarts, -⟩ | ⟨-, hpages, hcap⟩
      · exact absurd hrestarts (h.1 r rfl).continues
      · have hrest := ih (h.2 s' r' hanswer)
        rw [hpages, Option.getD_some] at hrest
        rw [hexchange, List.length_cons]
        omega

/-- With a page request in flight, no later request asks for a cursor before its own, and the later
ones ask in order. -/
theorem exchange_cursors_page : ∀ {answers : List SyncAnswer} {s : AnonSync} {r : AnonSyncRequest},
    Orderly budget peer s (some r) answers →
    (r :: s.exchange budget peer answers).Pairwise fun x y =>
      CursorLE x.afterWallet y.afterWallet := by
  intro answers
  induction answers with
  | nil =>
    intro s r _
    exact List.pairwise_singleton _ _
  | cons a answers ih =>
    intro s r h
    rcases s.exchange_cons budget peer a answers with hnone | ⟨s', r', hanswer, hexchange⟩
    · rw [hnone]
      exact List.pairwise_singleton _ _
    · rcases AnonSync.onAnswer_some hanswer with ⟨hrestarts, -⟩ | ⟨⟨cursor, hnext, hasked⟩, -⟩
      · exact absurd hrestarts (h.1 r rfl).continues
      · have hle : CursorLE r.afterWallet r'.afterWallet := by
          rw [hasked]
          exact (h.1 r rfl).ahead cursor hnext
        have hrest := ih (h.2 s' r' hanswer)
        rw [hexchange]
        refine List.pairwise_cons.mpr ⟨fun q hq => ?_, hrest⟩
        rcases List.mem_cons.mp hq with rfl | hq
        · exact hle
        · exact hle.trans ((List.pairwise_cons.mp hrest).1 q hq)

/-- **A round is bounded** while every page request is answered in order: at most
`ANON_SYNC_MAX_PAGES` page requests, and no cursor before one already asked for. -/
theorem anon_round_bounded {answers : List SyncAnswer} (h : Orderly budget peer s none answers) :
    (s.exchange budget peer answers).length ≤ anonSyncMaxPages ∧
      (s.exchange budget peer answers).Pairwise fun x y =>
        CursorLE x.afterWallet y.afterWallet := by
  cases answers with
  | nil => exact ⟨Nat.zero_le _, List.Pairwise.nil⟩
  | cons a answers =>
    rcases s.exchange_cons budget peer a answers with hnone | ⟨s', r', hanswer, hexchange⟩
    · rw [hnone]
      exact ⟨Nat.zero_le _, List.Pairwise.nil⟩
    · have horderly := h.2 s' r' hanswer
      have hlen := exchange_length_page horderly
      rw [hexchange]
      refine ⟨?_, exchange_cursors_page horderly⟩
      have hcap : anonSyncMaxPages = 200 := rfl
      rw [List.length_cons]
      omega

/-- The cursor of a page lies ahead of the one it was asked after. -/
theorem anonRegistrationsAfter_cursor {store : AnonStore} {after cursor : Str} {limit : Nat}
    (hkeys : ∀ k row, store.anonRegistry.get k = some row → trimLower k = k)
    (h : (store.anonRegistrationsAfter (some after) limit).2 = some cursor) :
    CursorLE (some after) (some cursor) := by
  unfold AnonStore.anonRegistrationsAfter at h
  simp only at h
  split at h
  · obtain ⟨⟨k, row⟩, hlast, rfl⟩ := Option.map_eq_some_iff.mp h
    have hmem := List.mem_of_mem_take (List.mem_of_getLast? hlast)
    obtain ⟨hrow, hlt⟩ := List.mem_filter.mp hmem
    have hkey := hkeys k row (Tree.mem_iter.mp hrow)
    change (compare (trimLower after) (trimLower k)).isLE = true
    rw [hkey]
    rw [Ordering.isLT_iff_eq_lt] at hlt
    rw [hlt]
    rfl
  · cases h

end Round

end TetCore.Tmail

namespace TetCore.Sample

open TetCore.Lib TetCore.Tmail

/-- A requester with an empty registry and a responder, both in epoch 1 and at one instant: the
requests that the answers to a first one lead to. -/
def converse (rps budget : Nat) : Nat → AnonSync → AnonResponder → AnonSyncRequest →
    List AnonSyncRequest
  | 0, _, _, _ => []
  | n + 1, s, b, request =>
    let answer := b.answer {} (World.sample 0) rps 90000 0 "a".toList request
    let ours := hexEncode (anonTreeRoot {} (World.sample 0) AnonStore.new 1)
    match s.onAnswer budget "b".toList ⟨answer.1, ours, 0⟩ with
    | (_, none) => []
    | (s, some next) => next :: converse rps budget n s answer.2 next

/-- A responder with one member. -/
def oneMemberResponder : AnonResponder := ⟨⟨.empty⟩, oneMember⟩

/-- A page of one registration with a cursor. -/
def cursorPage (cursor : String) : SyncAnswer :=
  ⟨⟨"00".toList, 1, 3, [registration 'a' '1'], some cursor.toList⟩, "11".toList, 0⟩

/-- A reply with the root and nothing else. -/
def rootReply : SyncAnswer := ⟨⟨"00".toList, 1, 3, [], none⟩, "11".toList, 0⟩

end TetCore.Sample

namespace TetCore.Tmail

open TetCore.Lib

/-- Two healthy nodes with different roots, the responder at one request a second: every page
request is answered with the root alone, which starts the round over, at once and again. And a
rate-limited answer after a page sends the cursor back to the beginning. -/
theorem anon_round_unbounded :
    (Sample.converse 1 30000 201 .new Sample.oneMemberResponder .probe).length = 201 ∧
      anonSyncMaxPages < 201 ∧
      (AnonSync.new.exchange 30000 "b".toList
        [Sample.rootReply, Sample.cursorPage "a", Sample.rootReply]).map (·.afterWallet) =
          [none, some "a".toList, none] := by
  decide +kernel

/-- A probe reply, a page and the last page. -/
theorem anon_round_bounded_twoPages :
    (AnonSync.new.exchange 30000 "b".toList
        [Sample.rootReply, Sample.cursorPage "a", Sample.cursorPage "b"]).length ≤
          anonSyncMaxPages := by
  refine (anon_round_bounded ?_).1
  have hpage : ∀ cursor request, CursorLE request.afterWallet (some cursor.toList) →
      GoesOn request (Sample.cursorPage cursor) := by
    intro cursor request hle
    refine ⟨fun h => List.cons_ne_nil _ _ h.1, fun c hc => ?_⟩
    rw [← Option.some.inj hc]
    exact hle
  refine ⟨fun _ hasked => (by cases hasked), fun s₁ r₁ h₁ => ⟨?_, fun s₂ r₂ h₂ => ⟨?_, ?_⟩⟩⟩
  · intro request hrequest
    cases h₁
    cases hrequest
    refine hpage "a" _ ?_
    have hresume : AnonSync.new.resume.get "b".toList = none := Tree.get_empty _
    rw [hresume]
    trivial
  · intro request hrequest
    cases h₁
    cases h₂
    cases hrequest
    refine hpage "b" _ ?_
    change (compare (trimLower "a".toList) (trimLower "b".toList)).isLE = true
    decide
  · intro s₃ r₃ _
    trivial

end TetCore.Tmail
