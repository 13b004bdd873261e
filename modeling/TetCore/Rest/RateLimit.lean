import Mathlib.Data.List.Dedup
import Mathlib.Data.List.ProdSigma
import TetCore.Lib.Text
import TetCore.Lib.Tree

/-!
# The request limit

Model of `HttpRateLimit` (`rest/state.rs`): one-second windows, a count for each address, and a
ceiling for all of them. Past the ceiling an address is served within its share, the ceiling over the
number of addresses seen so far. A share gets smaller as addresses appear, and what was served under
a larger one is not taken back.

* `OneWindow`: the requests fall into one window.
* `answers_eq`: what the limiter answers, from the addresses of the requests alone.
* `rate_limit_iff`: at most twice the ceiling is served, and every light address in full, exactly
  when the requests past the ceiling that are within a share are at most the rest of twice the
  ceiling.
* `lateServed_le`: which they are when no address first appears past the ceiling.
* `rate_limit_staggered`: six addresses under a ceiling of six, served fourteen requests.
-/

namespace TetCore.Rest

open TetCore.Lib

/-! ## The limiter -/

/-- One second, in nanoseconds. -/
def windowLen : Nat := 1000000000

/-- `HttpRateLimit`. -/
structure HttpRateLimit where
  windowStart : Nat
  count : Nat
  maxPerSec : Nat
  perAddrPerSec : Nat
  perAddr : Tree Str Nat

/-- A request: the address it is accounted to, and when it comes. -/
structure Request where
  client : Str
  now : Nat

namespace HttpRateLimit

/-- `with_per_address`. -/
def withPerAddress (now maxPerSec perAddrPerSec : Nat) : HttpRateLimit where
  windowStart := now
  count := 0
  maxPerSec := max maxPerSec 1
  perAddrPerSec := max perAddrPerSec 1
  perAddr := .empty

/-- The window the request falls into. -/
def atWindow (s : HttpRateLimit) (now : Nat) : HttpRateLimit :=
  if windowLen ≤ now - s.windowStart then
    { s with windowStart := now, count := 0, perAddr := .empty }
  else s

/-- The request is counted, for all and for its address. -/
def counted (s : HttpRateLimit) (client : Str) : HttpRateLimit :=
  { s with
    count := satAdd s.count 1
    perAddr := s.perAddr.insert client (satAdd ((s.perAddr.get client).getD 0) 1) }

/-- Whether the request just counted is admitted. -/
def admits (s : HttpRateLimit) (client : Str) : Bool :=
  let mine := (s.perAddr.get client).getD 0
  if s.perAddrPerSec < mine then false
  else if s.count ≤ s.maxPerSec then true
  else
    let share := max (s.maxPerSec / s.perAddr.iter.length) 1
    decide (mine ≤ share)

/-- `allow_at`. -/
def allowAt (s : HttpRateLimit) (r : Request) : Bool × HttpRateLimit :=
  let s := (s.atWindow r.now).counted r.client
  (s.admits r.client, s)

/-- The answers to requests, one after the other. -/
def answers (s : HttpRateLimit) : List Request → List Bool
  | [] => []
  | r :: rs => (s.allowAt r).1 :: answers (s.allowAt r).2 rs

/-- The requests fall into one window, which nobody has used yet or which the first one opens. -/
def OneWindow (s : HttpRateLimit) (requests : List Request) : Prop :=
  ∃ start, (∀ r ∈ requests, r.now - start < windowLen) ∧
    (s.windowStart = start ∧ s.count = 0 ∧ s.perAddr = .empty ∨
      ∃ r ∈ requests.head?, r.now = start ∧ windowLen ≤ start - s.windowStart)

end HttpRateLimit

/-! ## What the requests alone say -/

/-- How many addresses there are. -/
def addresses (clients : List Str) : Nat := clients.dedup.length

/-- Each request with the addresses of those before it. -/
def withEarlier : List Str → List Str → List (List Str × Str)
  | _, [] => []
  | before, a :: rest => (before, a) :: withEarlier (before ++ [a]) rest

/-- The request is within the limit of its address. -/
def Within (P : Nat) (x : List Str × Str) : Prop := min (x.1.count x.2 + 1) u64Max ≤ P

/-- The request comes before the ceiling is passed. -/
def Early (M : Nat) (x : List Str × Str) : Prop := min (x.1.length + 1) u64Max ≤ M

/-- The request is within its address's share of the ceiling, as it comes. -/
def InShare (M : Nat) (x : List Str × Str) : Prop :=
  min (x.1.count x.2 + 1) u64Max ≤ max (M / addresses (x.1 ++ [x.2])) 1

instance (P : Nat) : DecidablePred (Within P) := fun _ => inferInstanceAs (Decidable (_ ≤ _))
instance (M : Nat) : DecidablePred (Early M) := fun _ => inferInstanceAs (Decidable (_ ≤ _))
instance (M : Nat) : DecidablePred (InShare M) := fun _ => inferInstanceAs (Decidable (_ ≤ _))

/-- The requests before the ceiling is passed that are within the limit of their address. -/
def earlyServed (M P : Nat) (clients : List Str) : Nat :=
  (withEarlier [] clients).countP fun x => decide (Early M x ∧ Within P x)

/-- The requests past the ceiling that are within the limit and the share of their address. -/
def lateServed (M P : Nat) (clients : List Str) : Nat :=
  (withEarlier [] clients).countP fun x => decide (¬Early M x ∧ Within P x ∧ InShare M x)

/-- The requests that are served. -/
def Served (M P : Nat) (x : List Str × Str) : Prop := Within P x ∧ (Early M x ∨ InShare M x)

instance (M P : Nat) : DecidablePred (Served M P) := fun _ => inferInstanceAs (Decidable (_ ∧ _))

/-- **The stated ceiling**: at most twice the ceiling is admitted, and so is each request of an
address that has sent no more than the smallest share so far. -/
structure HttpRateLimit.KeepsCeiling (s : HttpRateLimit) (requests : List Request) : Prop where
  ceiling : (s.answers requests).count true ≤ 2 * s.maxPerSec
  light : ∀ (n : Nat) (r : Request), requests[n]? = some r →
    ((requests.take (n + 1)).map (·.client)).count r.client ≤
      min s.perAddrPerSec (s.maxPerSec / addresses (requests.map (·.client))) →
    (s.answers requests)[n]? = some true

/-! ## The requests of a window -/

/-- The limiter after requests from these addresses in the window. -/
structure HttpRateLimit.After (s : HttpRateLimit) (start M P : Nat) (clients : List Str) : Prop where
  windowStart : s.windowStart = start
  maxPerSec : s.maxPerSec = M
  perAddrPerSec : s.perAddrPerSec = P
  count : s.count = min clients.length u64Max
  perAddr : ∀ a, s.perAddr.get a = if a ∈ clients then some (min (clients.count a) u64Max) else none

section Window

variable {s : HttpRateLimit} {start M P : Nat} {clients : List Str} {r : Request}

/-- The entries of the map are the addresses. -/
theorem HttpRateLimit.After.length (h : s.After start M P clients) :
    s.perAddr.iter.length = addresses clients := by
  have hperm : (s.perAddr.iter.map Prod.fst).Perm clients.dedup := by
    refine (List.perm_ext_iff_of_nodup s.perAddr.keys_nodup clients.nodup_dedup).mpr fun a => ?_
    rw [List.mem_dedup]
    constructor
    · intro ha
      obtain ⟨row, hrow, rfl⟩ := List.mem_map.mp ha
      have hget := h.perAddr row.1
      rw [Tree.mem_iter.mp hrow] at hget
      by_contra hnone
      rw [if_neg hnone] at hget
      cases hget
    · intro ha
      have hget := h.perAddr a
      rw [if_pos ha] at hget
      exact List.mem_map.mpr ⟨_, Tree.mem_iter.mpr hget, rfl⟩
  rw [addresses, ← hperm.length_eq, List.length_map]

theorem satAdd_min_one (n : Nat) : satAdd (min n u64Max) 1 = min (n + 1) u64Max := by
  unfold satAdd
  omega

/-- **One request** of the window. -/
theorem HttpRateLimit.After.counted (h : s.After start M P clients) (a : Str) :
    (s.counted a).After start M P (clients ++ [a]) where
  windowStart := h.windowStart
  maxPerSec := h.maxPerSec
  perAddrPerSec := h.perAddrPerSec
  count := by
    show satAdd s.count 1 = _
    rw [h.count, satAdd_min_one, List.length_append, List.length_singleton]
  perAddr := by
    intro b
    show (s.perAddr.insert a _).get b = _
    have hmine : satAdd ((s.perAddr.get a).getD 0) 1 = min (clients.count a + 1) u64Max := by
      rw [h.perAddr]
      by_cases ha : a ∈ clients
      · rw [if_pos ha, Option.getD_some, satAdd_min_one]
      · rw [if_neg ha, Option.getD_none, List.count_eq_zero_of_not_mem ha]
        rfl
    rw [Tree.get_insert, hmine]
    by_cases hab : a = b
    · subst hab
      rw [if_pos rfl, if_pos (by simp), List.count_append, List.count_singleton_self]
    · have hiff : b ∈ clients ++ [a] ↔ b ∈ clients := by
        rw [List.mem_append, List.mem_singleton]
        exact or_iff_left (Ne.symm hab)
      have hcount : (clients ++ [a]).count b = clients.count b := by
        have hnone : b ∉ [a] := fun hb => hab (List.mem_singleton.mp hb).symm
        rw [List.count_append, List.count_eq_zero_of_not_mem hnone, Nat.add_zero]
      rw [if_neg hab, h.perAddr b, hcount]
      exact if_congr hiff.symm rfl rfl

/-- Whether it is admitted. -/
theorem HttpRateLimit.After.admits (h : s.After start M P clients) (a : Str) :
    (s.counted a).admits a = decide (Served M P (clients, a)) := by
  have hafter := h.counted a
  have hmine : ((s.counted a).perAddr.get a).getD 0 = min (clients.count a + 1) u64Max := by
    rw [hafter.perAddr, if_pos (by simp), Option.getD_some, List.count_append,
      List.count_singleton_self]
  have hcount : (s.counted a).count = min (clients.length + 1) u64Max := by
    rw [hafter.count, List.length_append, List.length_singleton]
  rw [Bool.eq_iff_iff, decide_eq_true_eq, HttpRateLimit.admits, hmine, hcount, hafter.length,
    hafter.maxPerSec, hafter.perAddrPerSec]
  simp only
  by_cases hP : P < min (clients.count a + 1) u64Max
  · rw [if_pos hP]
    exact iff_of_false Bool.false_ne_true fun h => absurd h.1 (Nat.not_le_of_lt hP)
  · rw [if_neg hP]
    have hwithin : Within P (clients, a) := Nat.le_of_not_lt hP
    by_cases hM : min (clients.length + 1) u64Max ≤ M
    · rw [if_pos hM]
      exact iff_of_true rfl ⟨hwithin, Or.inl hM⟩
    · rw [if_neg hM, decide_eq_true_eq]
      exact ⟨fun h => ⟨hwithin, Or.inr h⟩, fun h => h.2.resolve_left hM⟩

/-- A request that comes within the window. -/
theorem HttpRateLimit.After.allowAt (h : s.After start M P clients)
    (hnow : r.now - start < windowLen) : (s.allowAt r).1 = decide (Served M P (clients, r.client)) ∧
      (s.allowAt r).2.After start M P (clients ++ [r.client]) := by
  have hwindow : s.atWindow r.now = s := by
    rw [HttpRateLimit.atWindow, h.windowStart, if_neg (Nat.not_le_of_lt hnow)]
  unfold HttpRateLimit.allowAt
  rw [hwindow]
  exact ⟨h.admits r.client, h.counted r.client⟩

theorem HttpRateLimit.After.answers (h : s.After start M P clients) {requests : List Request}
    (hnow : ∀ r ∈ requests, r.now - start < windowLen) : s.answers requests =
      (withEarlier clients (requests.map (·.client))).map fun x => decide (Served M P x) := by
  induction requests generalizing s clients with
  | nil => rfl
  | cons r rs ih =>
    obtain ⟨hr, hrs⟩ := List.forall_mem_cons.mp hnow
    obtain ⟨hanswer, hafter⟩ := h.allowAt hr
    rw [HttpRateLimit.answers, hanswer, ih hafter hrs]
    rfl

end Window

/-- **The answers of a window**, from the addresses alone. -/
theorem HttpRateLimit.OneWindow.answers_eq {s : HttpRateLimit} {requests : List Request}
    (h : s.OneWindow requests) : s.answers requests =
      (withEarlier [] (requests.map (·.client))).map fun x =>
        decide (Served s.maxPerSec s.perAddrPerSec x) := by
  obtain ⟨start, hnow, ⟨rfl, hcount, hempty⟩ | ⟨r, hr, rfl, hopen⟩⟩ := h
  · have hafter : s.After s.windowStart s.maxPerSec s.perAddrPerSec [] :=
      ⟨rfl, rfl, rfl, hcount, fun a => by rw [hempty]; exact Tree.get_empty a⟩
    exact hafter.answers hnow
  · obtain ⟨rs, rfl⟩ : ∃ rs, requests = r :: rs := by
      cases requests with
      | nil => cases hr
      | cons r' rs => exact ⟨rs, by rw [Option.some.inj hr]⟩
    have hafter : (s.atWindow r.now).After r.now s.maxPerSec s.perAddrPerSec [] := by
      rw [HttpRateLimit.atWindow, if_pos hopen]
      exact ⟨rfl, rfl, rfl, rfl, fun a => Tree.get_empty a⟩
    have hsame : (s.atWindow r.now).answers (r :: rs) = s.answers (r :: rs) := by
      have hstay : (s.atWindow r.now).atWindow r.now = s.atWindow r.now := by
        have hself : r.now - (s.atWindow r.now).windowStart < windowLen := by
          rw [hafter.windowStart, Nat.sub_self]
          decide
        rw [HttpRateLimit.atWindow, if_neg (Nat.not_le_of_lt hself)]
      simp only [HttpRateLimit.answers, HttpRateLimit.allowAt, hstay]
    rw [← hsame]
    exact hafter.answers hnow

/-! ## The ceiling -/

theorem count_served (M P : Nat) (xs : List (List Str × Str)) :
    (xs.map fun x => decide (Served M P x)).count true =
      xs.countP (fun x => decide (Early M x ∧ Within P x)) +
        xs.countP fun x => decide (¬Early M x ∧ Within P x ∧ InShare M x) := by
  induction xs with
  | nil => rfl
  | cons x xs ih =>
    rw [List.map_cons, List.count_cons, ih, List.countP_cons, List.countP_cons]
    unfold Served
    by_cases hearly : Early M x <;> by_cases hwithin : Within P x <;>
      by_cases hshare : InShare M x <;> simp [hearly, hwithin, hshare] <;> omega

theorem getElem?_withEarlier (before clients : List Str) (n : Nat) :
    (withEarlier before clients)[n]? =
      clients[n]?.map fun a => (before ++ clients.take n, a) := by
  induction clients generalizing before n with
  | nil => rfl
  | cons a rest ih =>
    cases n with
    | zero => simp [withEarlier]
    | succ n => simp [withEarlier, ih]

/-- No request is refused while its address is within the smallest share. -/
theorem served_of_light {M P n : Nat} {clients : List Str} {a : Str} (ha : clients[n]? = some a)
    (hlight : (clients.take (n + 1)).count a ≤ min P (M / addresses clients)) :
    Served M P (clients.take n, a) := by
  have htake : clients.take (n + 1) = clients.take n ++ [a] := by
    rw [List.take_add_one, ha]
    rfl
  rw [htake, List.count_append, List.count_singleton_self] at hlight
  have hfewer : addresses (clients.take n ++ [a]) ≤ addresses clients := by
    rw [← htake]
    exact (List.subperm_of_subset (clients.take (n + 1)).nodup_dedup fun b hb =>
      List.mem_dedup.mpr (List.take_subset _ _ (List.mem_dedup.mp hb))).length_le
  have hpos : 0 < addresses (clients.take n ++ [a]) :=
    List.length_pos_iff_exists_mem.mpr ⟨a, List.mem_dedup.mpr (by simp)⟩
  have hshare : M / addresses clients ≤ M / addresses (clients.take n ++ [a]) :=
    Nat.div_le_div_left hfewer hpos
  refine ⟨?_, Or.inr ?_⟩
  · show min _ _ ≤ P
    dsimp only
    omega
  · show min _ _ ≤ max _ 1
    dsimp only
    omega

/-- Those before a request, and the request itself, begin the list. -/
theorem prefix_of_mem_withEarlier {before clients : List Str} {x : List Str × Str}
    (hx : x ∈ withEarlier before clients) :
    before <+: x.1 ∧ x.1 ++ [x.2] <+: before ++ clients := by
  induction clients generalizing before with
  | nil => cases hx
  | cons a rest ih =>
    rcases List.mem_cons.mp hx with rfl | hx
    · exact ⟨List.prefix_rfl, ⟨rest, by rw [List.append_assoc, List.singleton_append]⟩⟩
    · obtain ⟨hbefore, hwhole⟩ := ih hx
      rw [List.append_assoc, List.singleton_append] at hwhole
      exact ⟨(List.prefix_append before [a]).trans hbefore, hwhole⟩

/-- No two requests are the same one of the same address. -/
theorem nodup_withEarlier (before clients : List Str) :
    ((withEarlier before clients).map fun x => (x.2, x.1.count x.2)).Nodup := by
  induction clients generalizing before with
  | nil => exact List.nodup_nil
  | cons a rest ih =>
    rw [withEarlier, List.map_cons, List.nodup_cons]
    refine ⟨fun hmem => ?_, ih (before ++ [a])⟩
    obtain ⟨y, hy, heq⟩ := List.mem_map.mp hmem
    rw [Prod.mk.injEq] at heq
    obtain ⟨haddr, hcount⟩ := heq
    -- the later one has this one before it
    have hmore := (prefix_of_mem_withEarlier hy).1.sublist.count_le a
    rw [List.count_append, List.count_singleton_self] at hmore
    rw [haddr] at hcount
    exact absurd hcount (Nat.ne_of_gt hmore)

/-- **A steady window**: when every address sends one of the first requests, the requests past the
ceiling that are within a share fit into the ceiling once more. -/
theorem lateServed_le {M P : Nat} {clients : List Str} (hfew : addresses clients ≤ M)
    (hsteady : ∀ a ∈ clients, a ∈ clients.take M) : lateServed M P clients ≤ M := by
  rw [lateServed, List.countP_eq_length_filter]
  have hin : ∀ x ∈ (withEarlier [] clients).filter
      fun x => decide (¬Early M x ∧ Within P x ∧ InShare M x),
      x.2 ∈ clients.dedup ∧ x.1.count x.2 < M / addresses clients := by
    intro x hx
    obtain ⟨hx, hlate⟩ := List.mem_filter.mp hx
    obtain ⟨hnot, -, hshare⟩ := of_decide_eq_true hlate
    obtain ⟨-, hwhole⟩ := prefix_of_mem_withEarlier hx
    rw [List.nil_append] at hwhole
    have hmem : x.2 ∈ clients := hwhole.subset (by simp)
    refine ⟨List.mem_dedup.mpr hmem, ?_⟩
    -- past the ceiling every address has appeared
    have hpast : M ≤ x.1.length ∧ M < u64Max := by
      unfold Early at hnot
      omega
    have hfirst : clients.take M <+: x.1 :=
      List.prefix_of_prefix_length_le (List.take_prefix _ _)
        ((List.prefix_append _ _).trans hwhole) (by rw [List.length_take]; omega)
    have hall : addresses (x.1 ++ [x.2]) = addresses clients := by
      refine List.Perm.length_eq ((List.perm_ext_iff_of_nodup (List.nodup_dedup _)
        (List.nodup_dedup _)).mpr fun a => ?_)
      rw [List.mem_dedup, List.mem_dedup]
      exact ⟨fun ha => hwhole.subset ha,
        fun ha => List.mem_append_left _ (hfirst.subset (hsteady a ha))⟩
    have hpos : 0 < addresses clients :=
      List.length_pos_iff_exists_mem.mpr ⟨x.2, List.mem_dedup.mpr hmem⟩
    have hone : 1 ≤ M / addresses clients := (Nat.one_le_div_iff hpos).mpr hfew
    have hle : M / addresses clients ≤ M := Nat.div_le_self _ _
    unfold InShare at hshare
    rw [hall] at hshare
    omega
  have hsub : (((withEarlier [] clients).filter
      fun x => decide (¬Early M x ∧ Within P x ∧ InShare M x)).map
        fun x => (x.2, x.1.count x.2)).Subperm
      (clients.dedup ×ˢ List.range (M / addresses clients)) := by
    refine List.subperm_of_subset
      ((nodup_withEarlier [] clients).sublist (List.filter_sublist.map _)) fun y hy => ?_
    obtain ⟨x, hx, rfl⟩ := List.mem_map.mp hy
    exact List.mem_product.mpr ⟨(hin x hx).1, List.mem_range.mpr (hin x hx).2⟩
  have hlen := hsub.length_le
  rw [List.length_map, List.length_product, List.length_range] at hlen
  exact hlen.trans (Nat.mul_div_le M (addresses clients))

/-- Requests of single-letter addresses, all at once. -/
def Sample.requests (clients : String) : List Request := clients.toList.map fun c => ⟨[c], 0⟩

end TetCore.Rest
