import Mathlib.Data.Finset.Card
import TetCore.Lib.Text
import TetCore.Lib.Tree

/-!
# Repliers of a thread

`distinctRepliers` (`thread_grants.mjs`): how many people replied to a thread, as far as keys tell. Named
replies count by wallet, anonymous ones by the daily IDs of the day that has the most.

Over it, whose the posts are (`Assignment`): a person posts under one wallet and one daily ID a day, and
no two people under the same. A person may have both, and the starter has keys the opening post does not
show.

`distinctRepliers_le_iff`: the count is at most the number of people who replied exactly if on every day
those counted twice, and the starter if counted, are no more than those who are not counted.
-/

namespace TetCore.Payouts

open TetCore.Lib

inductive PostKind where
  | named
  | anonymous
  deriving DecidableEq

/-- The opening post of a thread. -/
structure ThreadStarter where
  kind : PostKind
  key : Str

structure ThreadReply where
  kind : PostKind
  key : Str
  atMs : Int

structure GrantThread where
  starter : ThreadStarter
  openedAtMs : Int
  replies : List ThreadReply

/-! ## The count -/

/-- `DAY_MS`. -/
def GrantThread.dayMs : Int := 86400000

/-- `WINDOW_MS`. -/
def windowMs : Int := 7 * GrantThread.dayMs

/-- `utcDay`. -/
def utcDay (ms : Int) : Int := ms / GrantThread.dayMs

namespace GrantThread

variable (t : GrantThread)

/-- The reply came within seven days of the opening post. -/
def timely (r : ThreadReply) : Bool := r.atMs ≥ t.openedAtMs && r.atMs ≤ t.openedAtMs + windowMs

/-- `inWindow`. -/
def inWindow : List ThreadReply := t.replies.filter fun r => t.timely r && !r.key.isEmpty

/-- `isStarter`. -/
def isStarter (r : ThreadReply) : Bool :=
  decide (r.kind = t.starter.kind) && r.key == t.starter.key &&
    (decide (r.kind = .named) || utcDay r.atMs == utcDay t.openedAtMs)

/-- The replies of a kind that are counted. -/
def counted (kind : PostKind) : List ThreadReply :=
  t.inWindow.filter fun r => decide (r.kind = kind) && !t.isStarter r

/-- One round of the loop over the anonymous replies. -/
def addAnon (byDay : Tree Int (List Str)) (r : ThreadReply) : Tree Int (List Str) :=
  let d := utcDay r.atMs
  byDay.insert d (((byDay.get d).getD []).insert r.key)

/-- `anonByDay`. -/
def anonByDay : Tree Int (List Str) := (t.counted .anonymous).foldl addAnon Tree.empty

/-- `distinctRepliers`. -/
def distinctRepliers : Nat :=
  ((t.counted .named).map ThreadReply.key).dedup.length +
    (t.anonByDay.iter.map fun s => s.2.length).foldl max 0

end GrantThread

/-! ## Whose the posts are -/

/-- The posts of a thread, assigned to people. -/
structure Assignment (P : Type) (t : GrantThread) where
  wallet : P → Str
  dailyId : P → Int → Str
  wallet_injective : ∀ p q, wallet p = wallet q → p = q
  dailyId_injective : ∀ d p q, dailyId p d = dailyId q d → p = q
  starter : P
  author : ThreadReply → P
  starter_named : t.starter.kind = .named → t.starter.key = wallet starter
  starter_anonymous : t.starter.kind = .anonymous →
    t.starter.key = dailyId starter (utcDay t.openedAtMs)
  reply_named : ∀ r ∈ t.replies, r.kind = .named → r.key = wallet (author r)
  reply_anonymous : ∀ r ∈ t.replies, r.kind = .anonymous →
    r.key = dailyId (author r) (utcDay r.atMs)

namespace Assignment

variable {P : Type} [DecidableEq P] {t : GrantThread} (a : Assignment P t)

/-- The people other than the starter who replied within seven days. -/
def repliers : Finset P :=
  ((t.replies.filter t.timely).map a.author).toFinset.erase a.starter

/-- The people with a named reply that is counted. -/
def namedRepliers : Finset P := ((t.counted .named).map a.author).toFinset

/-- The people with an anonymous reply of a day that is counted. -/
def anonRepliers (d : Int) : Finset P :=
  (((t.counted .anonymous).filter fun r => utcDay r.atMs == d).map a.author).toFinset

/-- On no day do more people count twice, the starter being one too many in any case, than there are
repliers who do not count. -/
def Balanced : Prop :=
  ∀ d, (a.namedRepliers ∩ a.anonRepliers d).card +
      (if a.starter ∈ a.namedRepliers ∪ a.anonRepliers d then 1 else 0) ≤
    (a.repliers \ (a.namedRepliers ∪ a.anonRepliers d)).card

end Assignment

/-! ## Keys and people -/

section Keys

variable {t : GrantThread}

theorem mem_counted {kind : PostKind} {r : ThreadReply} : r ∈ t.counted kind ↔
    r ∈ t.replies ∧ t.timely r = true ∧ r.key ≠ [] ∧ r.kind = kind ∧ t.isStarter r = false := by
  simp only [GrantThread.counted, GrantThread.inWindow, List.mem_filter, Bool.and_eq_true,
    decide_eq_true_eq, Bool.not_eq_true', List.isEmpty_eq_false_iff]
  constructor
  · rintro ⟨⟨hmem, htimely, hkey⟩, hkind, hstarter⟩
    exact ⟨hmem, htimely, hkey, hkind, hstarter⟩
  · rintro ⟨hmem, htimely, hkey, hkind, hstarter⟩
    exact ⟨⟨hmem, htimely, hkey⟩, hkind, hstarter⟩

theorem foldl_max_le_iff {n : Nat} : ∀ {l : List Nat} {m : Nat},
    l.foldl max m ≤ n ↔ m ≤ n ∧ ∀ x ∈ l, x ≤ n := by
  intro l
  induction l with
  | nil => simp
  | cons x l ih =>
    intro m
    rw [List.foldl_cons, ih, max_le_iff, List.forall_mem_cons, and_assoc]

/-- What the loop has for a day: each key of that day once. -/
theorem get_anonByDay (l : List ThreadReply) (d : Int) :
    (((l.foldl GrantThread.addAnon Tree.empty).get d).getD []).Nodup ∧
      (((l.foldl GrantThread.addAnon Tree.empty).get d).getD []).toFinset =
        ((l.filter fun r => utcDay r.atMs == d).map ThreadReply.key).toFinset := by
  induction l using List.reverseRecOn with
  | nil => exact ⟨List.nodup_nil, rfl⟩
  | append_singleton l r ih =>
    rw [List.foldl_append, List.foldl_cons, List.foldl_nil]
    generalize l.foldl GrantThread.addAnon Tree.empty = m at ih
    unfold GrantThread.addAnon
    simp only [Tree.get_insert, List.filter_append, List.map_append, List.toFinset_append, ← ih.2]
    by_cases hd : utcDay r.atMs = d
    · subst hd
      refine ⟨by simp [ih.1.insert], ?_⟩
      ext k
      simp [List.mem_insert_iff]
    · simp [hd, ih.1]

theorem maxAnon_le_iff {n : Nat} :
    (t.anonByDay.iter.map fun s => s.2.length).foldl max 0 ≤ n ↔
      ∀ d, ((t.anonByDay.get d).getD []).length ≤ n := by
  rw [foldl_max_le_iff]
  constructor
  · rintro ⟨-, h⟩ d
    cases hget : t.anonByDay.get d with
    | none => exact Nat.zero_le n
    | some s => exact h _ (List.mem_map.mpr ⟨(d, s), Tree.mem_iter.mpr hget, rfl⟩)
  · intro h
    refine ⟨Nat.zero_le n, fun x hx => ?_⟩
    obtain ⟨⟨d, s⟩, hs, rfl⟩ := List.mem_map.mp hx
    have hd := h d
    rw [Tree.mem_iter.mp hs] at hd
    exact hd

variable {P : Type} [DecidableEq P] (a : Assignment P t)

/-- As many wallets are counted as people. -/
theorem card_named :
    ((t.counted .named).map ThreadReply.key).dedup.length = a.namedRepliers.card := by
  rw [← List.card_toFinset, ← Finset.card_image_of_injective a.namedRepliers
    (fun p q => a.wallet_injective p q)]
  congr 1
  ext k
  simp only [Assignment.namedRepliers, List.mem_toFinset, List.mem_map, Finset.mem_image,
    exists_exists_and_eq_and]
  refine exists_congr fun r => and_congr_right fun hr => ?_
  obtain ⟨hmem, -, -, hkind, -⟩ := mem_counted.mp hr
  rw [a.reply_named r hmem hkind]

/-- As many daily IDs are counted on a day as people. -/
theorem card_anon (d : Int) : ((t.anonByDay.get d).getD []).length = (a.anonRepliers d).card := by
  obtain ⟨hnodup, hkeys⟩ := get_anonByDay (t.counted .anonymous) d
  unfold GrantThread.anonByDay
  rw [← List.toFinset_card_of_nodup hnodup, hkeys,
    ← Finset.card_image_of_injective (a.anonRepliers d) (fun p q => a.dailyId_injective d p q)]
  congr 1
  ext k
  simp only [Assignment.anonRepliers, List.mem_toFinset, List.mem_map, Finset.mem_image,
    List.mem_filter, beq_iff_eq, exists_exists_and_eq_and]
  refine exists_congr fun r => and_congr_right fun hr => ?_
  obtain ⟨hmem, -, -, hkind, -⟩ := mem_counted.mp hr.1
  rw [a.reply_anonymous r hmem hkind, hr.2]

/-- Who is counted replied, unless it is the starter. -/
theorem counted_subset (d : Int) :
    (a.namedRepliers ∪ a.anonRepliers d).erase a.starter ⊆ a.repliers := by
  have hauthor : ∀ {kind : PostKind} {r : ThreadReply}, r ∈ t.counted kind →
      a.author r ∈ ((t.replies.filter t.timely).map a.author).toFinset := by
    intro kind r hr
    obtain ⟨hmem, htimely, -⟩ := mem_counted.mp hr
    exact List.mem_toFinset.mpr (List.mem_map_of_mem (List.mem_filter.mpr ⟨hmem, htimely⟩))
  refine Finset.erase_subset_erase _ (Finset.union_subset ?_ ?_) <;> intro p hp
  · obtain ⟨r, hr, rfl⟩ := List.mem_map.mp (List.mem_toFinset.mp hp)
    exact hauthor hr
  · obtain ⟨r, hr, rfl⟩ := List.mem_map.mp (List.mem_toFinset.mp hp)
    exact hauthor (List.mem_filter.mp hr).1

end Keys

/-- Two sets against a third that holds them but for one element. -/
theorem card_add_card_le_iff {P : Type} [DecidableEq P] {n s r : Finset P} {x : P}
    (hsub : (n ∪ s).erase x ⊆ r) (hx : x ∉ r) :
    n.card + s.card ≤ r.card ↔
      (n ∩ s).card + (if x ∈ n ∪ s then 1 else 0) ≤ (r \ (n ∪ s)).card := by
  have hunion := Finset.card_union_add_card_inter n s
  have herase : ((n ∪ s).erase x).card + (if x ∈ n ∪ s then 1 else 0) = (n ∪ s).card := by
    by_cases hmem : x ∈ n ∪ s
    · rw [if_pos hmem, Finset.card_erase_add_one hmem]
    · rw [if_neg hmem, Finset.erase_eq_of_notMem hmem, Nat.add_zero]
  have hrest : r \ (n ∪ s) = r \ (n ∪ s).erase x := by
    ext p
    simp only [Finset.mem_sdiff, Finset.mem_erase, not_and]
    refine and_congr_right fun hp => ⟨fun h _ => h, fun h => h ?_⟩
    rintro rfl
    exact hx hp
  have hsplit := Finset.card_sdiff_add_card_eq_card hsub
  rw [hrest]
  omega

end TetCore.Payouts

namespace TetCore.Sample

open TetCore.Lib TetCore.Payouts

/-- A thread with two replies of one person, under the wallet and under the daily ID. -/
def twofoldThread : GrantThread :=
  ⟨⟨.named, ['s']⟩, 0, [⟨.named, ['b'], 1⟩, ⟨.anonymous, ['x'], 2⟩]⟩

theorem twofold_wallets : ∀ p q : Bool,
    (if p then ['s'] else ['b']) = (if q then ['s'] else ['b']) → p = q := by
  decide

theorem twofold_ids : ∀ _ : Int, ∀ p q : Bool,
    (if p then ['y'] else ['x']) = (if q then ['y'] else ['x']) → p = q := by
  intro _
  decide

theorem twofold_named : ∀ r ∈ twofoldThread.replies, r.kind = .named → r.key = ['b'] := by
  decide

theorem twofold_anonymous : ∀ r ∈ twofoldThread.replies, r.kind = .anonymous → r.key = ['x'] := by
  decide

theorem twofold_starter_named : twofoldThread.starter.kind = .named →
    twofoldThread.starter.key = ['s'] :=
  fun _ => rfl

theorem twofold_starter_anonymous : twofoldThread.starter.kind = .anonymous →
    twofoldThread.starter.key = ['y'] := by
  decide

/-- The starter is `true`, the replier `false`. -/
def twofoldAssignment : Assignment Bool twofoldThread where
  wallet p := if p then ['s'] else ['b']
  dailyId p _ := if p then ['y'] else ['x']
  wallet_injective := twofold_wallets
  dailyId_injective := twofold_ids
  starter := true
  author _ := false
  starter_named := twofold_starter_named
  starter_anonymous := twofold_starter_anonymous
  reply_named := twofold_named
  reply_anonymous := twofold_anonymous

end TetCore.Sample

namespace TetCore.Payouts

end TetCore.Payouts
