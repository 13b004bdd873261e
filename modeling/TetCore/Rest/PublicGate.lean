import Mathlib.Tactic.Ring
import TetCore.Lib.Text
import TetCore.Lib.Tree

/-!
# The limit per client

Model of `PublicGate::allow` (`rest/public_api.rs`): a token bucket for each client and class, reads and
writes. A new client of a full map is charged to a bucket of everybody, unless clients idle for ten
minutes can be dropped. Floats are exact rationals here, and an `Instant` is in milliseconds.

* `bucket_other`: a request leaves the buckets it is not charged to as they are, or drops them.
* `allow_charged`: what it does to the one it is charged to.
-/

namespace TetCore.Rest

open TetCore.Lib

/-! ## The gate -/

/-- `Limits`. -/
structure Limits where
  readPerSec : ℚ
  readBurst : ℚ
  writePerMin : ℚ
  writeBurst : ℚ
  maxClients : Nat

/-- `Limits::from_env`, with nothing set. -/
def Limits.default : Limits where
  readPerSec := 10
  readBurst := 40
  writePerMin := 20
  writeBurst := 10
  maxClients := 50000

/-- `Bucket`. -/
structure Bucket where
  tokens : ℚ
  at' : ℚ

/-- `saturating_duration_since`, in seconds. -/
def secondsSince (now earlier : ℚ) : ℚ := max (now - earlier) 0 / 1000

/-- `Bucket::take`. -/
def Bucket.take (b : Bucket) (now ratePerSec burst : ℚ) : Bool × Bucket :=
  let dt := secondsSince now b.at'
  let tokens := min (b.tokens + dt * ratePerSec) burst
  if 1 ≤ tokens then (true, ⟨tokens - 1, now⟩) else (false, ⟨tokens, now⟩)

/-- `PublicGate`, the part that limits requests: the map is one for each class. -/
structure PublicGate where
  limits : Limits
  reads : Tree Str Bucket
  writes : Tree Str Bucket

/-- A request: its client, whether it is a write, and when it comes. -/
structure PublicRequest where
  client : Str
  write : Bool
  now : ℚ

namespace PublicGate

/-- `PublicGate::new`. -/
def new (limits : Limits) : PublicGate := ⟨limits, .empty, .empty⟩

/-- The bucket under a key of the map. -/
def bucket (g : PublicGate) (client : Str) (write : Bool) : Option Bucket :=
  if write then g.writes.get client else g.reads.get client

/-- `map.insert`. -/
def put (g : PublicGate) (client : Str) (write : Bool) (b : Bucket) : PublicGate :=
  if write then { g with writes := g.writes.insert client b }
  else { g with reads := g.reads.insert client b }

/-- `map.len()`. -/
def len (g : PublicGate) : Nat := g.reads.iter.length + g.writes.iter.length

/-- Clients are dropped that were idle for ten minutes. -/
def retainActive (g : PublicGate) (now : ℚ) : PublicGate :=
  { g with
    reads := g.reads.retain fun _ b => decide (secondsSince now b.at' < 600)
    writes := g.writes.retain fun _ b => decide (secondsSince now b.at' < 600) }

/-- The client of the shared bucket. -/
def overflow : Str := "overflow".toList

/-- The map is full, and the client is new. -/
def Crowded (g : PublicGate) (r : PublicRequest) : Prop :=
  g.bucket r.client r.write = none ∧ g.limits.maxClients ≤ g.len

instance (g : PublicGate) (r : PublicRequest) : Decidable (g.Crowded r) :=
  inferInstanceAs (Decidable (_ ∧ _))

/-- The map when the bucket is taken. -/
def cleaned (g : PublicGate) (r : PublicRequest) : PublicGate :=
  if g.Crowded r then g.retainActive r.now else g

/-- The client whose bucket is charged. -/
def chargedTo (g : PublicGate) (r : PublicRequest) : Str :=
  if g.Crowded r ∧ g.limits.maxClients ≤ (g.cleaned r).len then overflow else r.client

/-- `allow`. -/
def allow (g : PublicGate) (r : PublicRequest) : Bool × PublicGate :=
  let rate := if r.write then g.limits.writePerMin / 60 else g.limits.readPerSec
  let burst := if r.write then g.limits.writeBurst else g.limits.readBurst
  let map := g.cleaned r
  let key := g.chargedTo r
  let taken := ((map.bucket key r.write).getD ⟨burst, r.now⟩).take r.now rate burst
  (taken.1, map.put key r.write taken.2)

/-! ## One request -/

section Request

variable {g : PublicGate} {r : PublicRequest} {client : Str} {write : Bool}

theorem bucket_new (limits : Limits) (client : Str) (write : Bool) :
    (new limits).bucket client write = none := by
  unfold new bucket
  cases write <;> exact Tree.get_empty client

theorem bucket_put (g : PublicGate) (client : Str) (write : Bool) (b : Bucket) (client' : Str)
    (write' : Bool) : (g.put client write b).bucket client' write' =
      if client = client' ∧ write = write' then some b else g.bucket client' write' := by
  unfold put bucket
  cases write <;> cases write' <;> simp [Tree.get_insert]

theorem filter_eq_or {α : Type} (o : Option α) (p : α → Bool) : o.filter p = o ∨ o.filter p = none := by
  cases o with
  | none => exact Or.inl rfl
  | some a =>
    rw [Option.filter_some]
    by_cases hp : p a = true
    · rw [if_pos hp]
      exact Or.inl rfl
    · rw [if_neg hp]
      exact Or.inr rfl

/-- The clean-up drops buckets, and changes none. -/
theorem bucket_cleaned (g : PublicGate) (r : PublicRequest) (client : Str) (write : Bool) :
    (g.cleaned r).bucket client write = g.bucket client write ∨
      (g.cleaned r).bucket client write = none := by
  unfold cleaned
  by_cases hfull : g.Crowded r
  · rw [if_pos hfull]
    unfold retainActive bucket
    cases write with
    | false =>
      rw [if_neg Bool.false_ne_true, if_neg Bool.false_ne_true, Tree.get_retain]
      exact filter_eq_or _ _
    | true =>
      rw [if_pos rfl, if_pos rfl, Tree.get_retain]
      exact filter_eq_or _ _
  · rw [if_neg hfull]
    exact Or.inl rfl

theorem limits_allow (g : PublicGate) (r : PublicRequest) : (g.allow r).2.limits = g.limits := by
  unfold allow put cleaned
  dsimp only
  by_cases hfull : g.Crowded r
  · rw [if_pos hfull]
    cases r.write <;> rfl
  · rw [if_neg hfull]
    cases r.write <;> rfl

/-- **Every other bucket** stays, or is dropped. -/
theorem bucket_other (hne : ¬ (r.write = write ∧ g.chargedTo r = client)) :
    (g.allow r).2.bucket client write = g.bucket client write ∨
      (g.allow r).2.bucket client write = none := by
  unfold allow
  rw [bucket_put, if_neg fun h => hne ⟨h.2, h.1⟩]
  exact bucket_cleaned g r client write

/-- The bucket that is charged: the one there was, or a full one. -/
theorem allow_charged (g : PublicGate) (r : PublicRequest) : ∃ b : Bucket,
    (g.bucket (g.chargedTo r) r.write = some b ∨
      b = ⟨if r.write then g.limits.writeBurst else g.limits.readBurst, r.now⟩) ∧
    (g.allow r).1 = (b.take r.now
      (if r.write then g.limits.writePerMin / 60 else g.limits.readPerSec)
      (if r.write then g.limits.writeBurst else g.limits.readBurst)).1 ∧
    (g.allow r).2.bucket (g.chargedTo r) r.write = some (b.take r.now
      (if r.write then g.limits.writePerMin / 60 else g.limits.readPerSec)
      (if r.write then g.limits.writeBurst else g.limits.readBurst)).2 := by
  refine ⟨((g.cleaned r).bucket (g.chargedTo r) r.write).getD
    ⟨if r.write then g.limits.writeBurst else g.limits.readBurst, r.now⟩, ?_, rfl, ?_⟩
  · cases hget : (g.cleaned r).bucket (g.chargedTo r) r.write with
    | none => exact Or.inr rfl
    | some b =>
      rcases bucket_cleaned g r (g.chargedTo r) r.write with h | h
      · exact Or.inl (h.symm.trans hget)
      · rw [h] at hget
        cases hget
  · unfold allow
    rw [bucket_put, if_pos ⟨rfl, rfl⟩]

end Request

end PublicGate

end TetCore.Rest
