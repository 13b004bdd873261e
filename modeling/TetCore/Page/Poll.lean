import Mathlib.Data.List.Induction
import TetCore.Lib.JsValue

/-!
# The tally of a poll

`countBallots` (`poll.ts`): the votes in a poll's posts. A ballot's text is parsed and what stands
under `vote` is converted with `Number` before it is checked to be an option, so some values that are
no numbers count.

Numbers are the texts JavaScript shows them as. `Number` of a text that is neither blank nor a few
digits is a parameter.

* `countBallots_eq`: the tally of any list of posts, counted by what the posts cast.
* `countBallots_iff`: it counts what the posts state exactly if no open anonymous post has a value that
  is no number and that `Number` makes an option of.
-/

namespace TetCore.Page

open TetCore.Lib

/-! ## Conversion -/

/-- `Number(s)` of a text. -/
def textNumber (other : Str → Str) (s : Str) : Str :=
  let t := jsTrim s
  if t = [] then ['0']
  else if t.all Char.isDigit = true ∧ t.length ≤ 15 then Json.decimal (Nat.ofDigitChars 10 t 0)
  else other t

/-- `Number(v)`; nothing where it throws. -/
def numberOf (other : Str → Str) : JsValue → Option Str
  | .undefined => some "NaN".toList
  | .null => some ['0']
  | .bool b => some (if b then ['1'] else ['0'])
  | .num shown => some shown
  | .str s => some (textNumber other s)
  | .arr items => (JsValue.itemsText items).map (textNumber other)
  -- an object's own `valueOf` and `toString` are no functions
  | .obj members =>
    if members.any fun m => m.1 == "toString".toList then none else some "NaN".toList

/-- The option a number names: `Number.isInteger(n) && 0 <= n && n < nOptions`. An integer below the
length of an array is shown as its digits. -/
def optionIndex (nOptions : Nat) (shown : Str) : Option Nat :=
  let n := Nat.ofDigitChars 10 shown 0
  if shown = Json.decimal n ∧ n < nOptions then some n else none

/-! ## The count -/

/-- `BallotPost`. -/
structure BallotPost where
  state : Str
  text : Option Str
  kind : Str
  tone : Str

/-- `Tally`. -/
structure Tally where
  counts : List Nat
  verified : Nat
  unverified : Nat

/-- The post is open and anonymous. -/
def BallotPost.admitted (p : BallotPost) : Bool :=
  p.kind == "anonymous".toList && p.state == "open".toList

def BallotPost.ok (p : BallotPost) : Bool := p.tone == "ok".toList

/-- `JSON.parse(p.text ?? "").vote`; nothing where that throws. -/
def ballotVote (J : JsRuntime) (p : BallotPost) : Option JsValue := do
  let json ← J.parse (p.text.getD [])
  (json.member "vote".toList).toOption

/-- The option a post's text is converted to. -/
def castVote (J : JsRuntime) (other : Str → Str) (nOptions : Nat) (p : BallotPost) : Option Nat :=
  ((ballotVote J p).bind (numberOf other)).bind (optionIndex nOptions)

/-- One round of the loop of `countBallots`. -/
def countBallot (J : JsRuntime) (other : Str → Str) (nOptions : Nat) (t : Tally) (p : BallotPost) :
    Tally :=
  if p.admitted = false then t
  else
    match castVote J other nOptions p with
    | none => t
    | some n =>
      if p.ok then { t with counts := t.counts.modify n (· + 1), verified := t.verified + 1 }
      else { t with unverified := t.unverified + 1 }

/-- `countBallots`. -/
def countBallots (J : JsRuntime) (other : Str → Str) (posts : List BallotPost) (nOptions : Nat) :
    Tally :=
  posts.foldl (countBallot J other nOptions) ⟨List.replicate nOptions 0, 0, 0⟩

/-! ## What the posts state -/

/-- The option a post's text states: it is a JSON object, and its `vote` is that number. -/
def statedVote (J : JsRuntime) (nOptions : Nat) (p : BallotPost) : Option Nat :=
  match J.parse (p.text.getD []) with
  | some (.obj members) =>
    match (JsValue.obj members).get "vote".toList with
    | .num shown => optionIndex nOptions shown
    | _ => none
  | _ => none

/-- The tally counts what the posts state. -/
structure TallySound (J : JsRuntime) (posts : List BallotPost) (nOptions : Nat) (t : Tally) :
    Prop where
  counts : t.counts = (List.range nOptions).map fun k =>
    posts.countP fun p => p.admitted && p.ok && statedVote J nOptions p == some k
  verified : t.verified = t.counts.sum
  unverified : t.unverified =
    posts.countP fun p => p.admitted && !p.ok && (statedVote J nOptions p).isSome

/-- A post whose `vote` is no number and is converted to an option. -/
def CoercedVote (J : JsRuntime) (other : Str → Str) (nOptions : Nat) (p : BallotPost) : Prop :=
  ∃ v, ballotVote J p = some v ∧ (∀ shown, v ≠ .num shown) ∧
    ∃ shown k, numberOf other v = some shown ∧ optionIndex nOptions shown = some k

section Votes

variable {J : JsRuntime} {other : Str → Str} {nOptions : Nat}

theorem optionIndex_eq_some {shown : Str} {k : Nat} :
    optionIndex nOptions shown = some k ↔ shown = Json.decimal k ∧ k < nOptions := by
  unfold optionIndex
  constructor
  · intro h
    by_cases hshown : shown = Json.decimal (Nat.ofDigitChars 10 shown 0) ∧
        Nat.ofDigitChars 10 shown 0 < nOptions
    · rw [if_pos hshown, Option.some.injEq] at h
      rw [← h]
      exact hshown
    · rw [if_neg hshown] at h
      cases h
  · rintro ⟨rfl, hk⟩
    have hval : Nat.ofDigitChars 10 (Json.decimal k) 0 = k := Nat.ofDigitChars_ten_toDigits
    rw [hval, if_pos ⟨rfl, hk⟩]

/-- A post states `k` exactly if its text is an object with the integer `k` under `vote`. -/
theorem statedVote_eq_some {p : BallotPost} {k : Nat} :
    statedVote J nOptions p = some k ↔ k < nOptions ∧ ∃ members,
      J.parse (p.text.getD []) = some (.obj members) ∧
        (JsValue.obj members).get "vote".toList = .ofNat k := by
  unfold statedVote
  constructor
  · intro h
    split at h
    · rename_i members hparse
      split at h
      · rename_i shown hvote
        obtain ⟨rfl, hk⟩ := optionIndex_eq_some.mp h
        exact ⟨hk, members, hparse, hvote⟩
      · cases h
    · cases h
  · rintro ⟨hk, members, hparse, hvote⟩
    rw [hparse]
    simp only [hvote, JsValue.ofNat]
    exact optionIndex_eq_some.mpr ⟨rfl, hk⟩

theorem ballotVote_eq_some {p : BallotPost} {v : JsValue} :
    ballotVote J p = some v ↔ ∃ json, J.parse (p.text.getD []) = some json ∧
      json.isNullish = false ∧ json.get "vote".toList = v := by
  unfold ballotVote
  rw [Option.bind_eq_bind, Option.bind_eq_some_iff]
  refine exists_congr fun json => and_congr_right fun _ => ?_
  unfold JsValue.member
  by_cases hnull : json.isNullish = true
  · rw [if_pos hnull, hnull]
    exact ⟨fun h => absurd h (Option.some_ne_none _).symm, fun h => absurd h.1 (by decide)⟩
  · rw [if_neg hnull, Bool.not_eq_true] at *
    rw [hnull, and_iff_right rfl]
    exact Option.some_inj

/-- What a post casts is what it states or what its `vote` is converted to. -/
theorem castVote_eq_some {p : BallotPost} {k : Nat} :
    castVote J other nOptions p = some k ↔ statedVote J nOptions p = some k ∨
      ∃ v shown, ballotVote J p = some v ∧ (∀ shown, v ≠ .num shown) ∧
        numberOf other v = some shown ∧ optionIndex nOptions shown = some k := by
  unfold castVote
  simp only [Option.bind_eq_some_iff]
  constructor
  · rintro ⟨shown, ⟨v, hv, hnumber⟩, hindex⟩
    by_cases hnum : ∃ shown, v = .num shown
    · obtain ⟨shown', rfl⟩ := hnum
      obtain ⟨json, hparse, -, hget⟩ := ballotVote_eq_some.mp hv
      obtain ⟨hshown, hk⟩ := optionIndex_eq_some.mp hindex
      cases hnumber
      cases json with
      | obj members =>
        subst hshown
        exact .inl (statedVote_eq_some.mpr ⟨hk, members, hparse, hget⟩)
      | undefined | null | bool | num | str | arr => cases hget
    · exact .inr ⟨v, shown, hv, not_exists.mp hnum, hnumber, hindex⟩
  · rintro (hstated | ⟨v, shown, hv, -, hnumber, hindex⟩)
    · obtain ⟨hk, members, hparse, hvote⟩ := statedVote_eq_some.mp hstated
      exact ⟨Json.decimal k, ⟨.ofNat k, ballotVote_eq_some.mpr ⟨_, hparse, rfl, hvote⟩, rfl⟩,
        optionIndex_eq_some.mpr ⟨rfl, hk⟩⟩
    · exact ⟨shown, ⟨v, hv, hnumber⟩, hindex⟩

theorem castVote_lt {p : BallotPost} {k : Nat} (h : castVote J other nOptions p = some k) :
    k < nOptions := by
  unfold castVote at h
  obtain ⟨shown, -, hindex⟩ := Option.bind_eq_some_iff.mp h
  exact (optionIndex_eq_some.mp hindex).2

/-- A post without a converted value casts what it states. -/
theorem castVote_eq_statedVote {p : BallotPost} (h : ¬ CoercedVote J other nOptions p) :
    castVote J other nOptions p = statedVote J nOptions p := by
  refine Option.ext fun k => castVote_eq_some.trans ⟨?_, Or.inl⟩
  rintro (hstated | ⟨v, shown, hv, hnum, hnumber, hindex⟩)
  · exact hstated
  · exact absurd ⟨v, hv, hnum, shown, k, hnumber, hindex⟩ h

/-- A converted value is cast and not stated. -/
theorem CoercedVote.cast {p : BallotPost} (h : CoercedVote J other nOptions p) :
    (∃ k, castVote J other nOptions p = some k) ∧ statedVote J nOptions p = none := by
  obtain ⟨v, hv, hnum, shown, k, hnumber, hindex⟩ := h
  refine ⟨⟨k, castVote_eq_some.mpr (.inr ⟨v, shown, hv, hnum, hnumber, hindex⟩)⟩, ?_⟩
  rw [Option.eq_none_iff_forall_ne_some]
  intro j hstated
  obtain ⟨-, members, hparse, hvote⟩ := statedVote_eq_some.mp hstated
  obtain ⟨json, hparse', -, hget⟩ := ballotVote_eq_some.mp hv
  obtain rfl := Option.some.inj (hparse.symm.trans hparse')
  exact hnum _ (hget.symm.trans hvote)

end Votes

/-! ## The loop -/

theorem sum_modify_succ : ∀ {l : List Nat} {k : Nat}, k < l.length →
    (l.modify k (· + 1)).sum = l.sum + 1 := by
  intro l
  induction l with
  | nil =>
    intro k h
    cases h
  | cons x l ih =>
    intro k h
    cases k with
    | zero => simp [List.modify_cons, Nat.add_right_comm]
    | succ k =>
      have hk : k < l.length := by simpa using h
      simp [ih hk, Nat.add_assoc]

theorem modify_map_range (g : Nat → Nat) {n k : Nat} :
    ((List.range n).map g).modify k (· + 1) =
      (List.range n).map fun j => g j + if k = j then 1 else 0 := by
  refine List.ext_getElem (by simp) ?_
  intro i hi hi'
  simp only [List.getElem_modify, List.getElem_map, List.getElem_range]
  by_cases h : k = i
  · rw [if_pos h, if_pos h]
  · rw [if_neg h, if_neg h, Nat.add_zero]

/-- When one predicate implies another and both hold equally often, they hold of the same elements. -/
theorem eq_of_countP_eq {α : Type} {p q : α → Bool} {l : List α}
    (himp : ∀ x ∈ l, q x = true → p x = true) (h : l.countP p = l.countP q) :
    ∀ x ∈ l, p x = true → q x = true := by
  induction l with
  | nil =>
    intro x hx
    cases hx
  | cons y l ih =>
    have htail : ∀ x ∈ l, q x = true → p x = true := fun x hx => himp x (List.mem_cons_of_mem _ hx)
    have hle : l.countP q ≤ l.countP p := List.countP_mono_left htail
    have hhead := himp y List.mem_cons_self
    rw [List.countP_cons, List.countP_cons] at h
    intro x hx hp
    rcases List.mem_cons.mp hx with rfl | hx
    · by_contra hq
      rw [if_pos hp, if_neg hq] at h
      omega
    · refine ih htail ?_ x hx hp
      by_cases hq : q y = true
      · rw [if_pos hq, if_pos (hhead hq)] at h
        omega
      · rw [if_neg hq] at h
        omega

section Count

variable (J : JsRuntime) (other : Str → Str) (nOptions : Nat)

/-- **The tally**, by what the posts cast. -/
theorem countBallots_eq (posts : List BallotPost) :
    countBallots J other posts nOptions =
      { counts := (List.range nOptions).map fun k =>
          posts.countP fun p => p.admitted && p.ok && castVote J other nOptions p == some k
        verified :=
          posts.countP fun p => p.admitted && p.ok && (castVote J other nOptions p).isSome
        unverified :=
          posts.countP fun p => p.admitted && !p.ok && (castVote J other nOptions p).isSome } := by
  induction posts using List.reverseRecOn with
  | nil => simp [countBallots, List.map_const']
  | append_singleton posts p ih =>
    unfold countBallots at ih ⊢
    rw [List.foldl_append, ih, List.foldl_cons, List.foldl_nil]
    simp only [countBallot, List.countP_append, List.countP_singleton]
    cases hadmitted : p.admitted
    · simp
    · cases hcast : castVote J other nOptions p with
      | none => simp
      | some k =>
        cases hok : p.ok
        · simp
        · simp [modify_map_range]

/-- The verified votes are those of the options. -/
theorem countBallots_verified (posts : List BallotPost) :
    (countBallots J other posts nOptions).verified =
      (countBallots J other posts nOptions).counts.sum := by
  suffices h : (countBallots J other posts nOptions).counts.length = nOptions ∧
      (countBallots J other posts nOptions).verified =
        (countBallots J other posts nOptions).counts.sum from h.2
  induction posts using List.reverseRecOn with
  | nil => simp [countBallots]
  | append_singleton posts p ih =>
    unfold countBallots at ih ⊢
    rw [List.foldl_append, List.foldl_cons, List.foldl_nil]
    generalize posts.foldl (countBallot J other nOptions) _ = t at ih
    unfold countBallot
    split
    · exact ih
    · split
      · exact ih
      · rename_i k hcast
        split
        · have hk : k < t.counts.length := ih.1.symm ▸ castVote_lt hcast
          exact ⟨by simp [ih.1], by rw [sum_modify_succ hk, ih.2]⟩
        · exact ih

/-- **When the tally counts votes only.** It counts for each option the posts that are open, anonymous,
of tone `ok` and state that option, and as unverified those of another tone that state one, exactly if
no open anonymous post has under `vote` a value that is no number (a null, a truth value, a text, an
array) and that `Number` makes the number of an option. -/
theorem countBallots_iff (posts : List BallotPost) :
    TallySound J posts nOptions (countBallots J other posts nOptions) ↔
      ∀ p ∈ posts, p.admitted = true → ¬ CoercedVote J other nOptions p := by
  constructor
  · rintro ⟨hcounts, -, hunverified⟩ p hp hadmitted hcoerced
    obtain ⟨⟨k, hcast⟩, hstated⟩ := hcoerced.cast
    have hsub : ∀ (q : BallotPost) (j : Nat), statedVote J nOptions q = some j →
        castVote J other nOptions q = some j := fun q j h => castVote_eq_some.mpr (.inl h)
    rw [countBallots_eq] at hcounts hunverified
    simp only at hcounts hunverified
    cases hok : p.ok
    · have hall := eq_of_countP_eq (fun q _ hq => ?_) hunverified p hp
        (by simp [hadmitted, hok, hcast])
      · simp [hstated] at hall
      · simp only [Bool.and_eq_true, Option.isSome_iff_exists] at hq ⊢
        exact ⟨hq.1, hq.2.imp fun j hj => hsub q j hj⟩
    · have hk := List.map_inj_left.mp hcounts k (List.mem_range.mpr (castVote_lt hcast))
      have hall := eq_of_countP_eq (fun q _ hq => ?_) hk p hp (by simp [hadmitted, hok, hcast])
      · simp [hstated] at hall
      · simp only [Bool.and_eq_true, beq_iff_eq] at hq ⊢
        exact ⟨hq.1, hsub q k hq.2⟩
  · intro h
    have hsame : ∀ p ∈ posts, p.admitted = true →
        castVote J other nOptions p = statedVote J nOptions p :=
      fun p hp hadmitted => castVote_eq_statedVote (h p hp hadmitted)
    refine ⟨?_, countBallots_verified J other nOptions posts, ?_⟩
    · rw [countBallots_eq]
      refine List.map_congr_left fun k _ => List.countP_congr fun p hp => ?_
      cases hadmitted : p.admitted
      · simp
      · rw [hsame p hp hadmitted]
    · rw [countBallots_eq]
      refine List.countP_congr fun p hp => ?_
      cases hadmitted : p.admitted
      · simp
      · rw [hsame p hp hadmitted]

end Count

end TetCore.Page

namespace TetCore.Sample

open TetCore.Lib TetCore.Page

/-- An anonymous verified post without a choice. -/
def nullBallot : BallotPost :=
  ⟨"open".toList, some "\x7b\"vote\":null\x7d".toList, "anonymous".toList, "ok".toList⟩

/-- A runtime that parses it. -/
def nullRuntime : JsRuntime :=
  { JsRuntime.ascii with
    parse := fun t =>
      if t = "\x7b\"vote\":null\x7d".toList then some (.obj [("vote".toList, .null)]) else none }

end TetCore.Sample

namespace TetCore.Page

/-- A ballot whose vote is null counts for the first option. -/
theorem null_ballot_counted :
    ¬ TallySound Sample.nullRuntime [Sample.nullBallot] 2
      (countBallots Sample.nullRuntime id [Sample.nullBallot] 2) := by
  intro h
  have hcounts := h.counts
  revert hcounts
  decide +kernel

end TetCore.Page
