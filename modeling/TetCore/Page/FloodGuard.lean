import TetCore.Lib.Along
import TetCore.Lib.Spread
import TetCore.Rest.PublicGate

/-!
# The flood guard of a page

`delayBeforeNext` (`flood_guard.mjs`), which paces the posts of a page, against `PublicGate::allow`, which
limits what an address may write. Times are exact rationals in milliseconds, and a post arrives when it is
sent.

A run interleaves the attempts of one client with the requests of others (`GateEvent`). `Proper`: the
client makes its attempts one after the other, has a bucket of its own, and nothing else is charged to it.

* `spread_sent`: the posts are spread, five at once and one every three seconds.
* `pacing_admitted`: no post waits longer than that, no interval holds more, and the gate admits all.
-/

namespace TetCore.Page.FloodGuard

open TetCore.Lib TetCore.Rest

/-! ## The page -/

/-- `BURST`. -/
def burst : Nat := 5

/-- `WINDOW_MS`. -/
def windowMs : ℚ := 60000

/-- `SPACING_MS`. -/
def spacingMs : ℚ := 3000

/-- `delayBeforeNext`. -/
def delayBeforeNext (sentAtMs : List ℚ) (nowMs : ℚ) : ℚ :=
  let recent := sentAtMs.filter fun t => decide (nowMs - t < windowMs)
  if recent.length < burst then 0 else max 0 (recent.max?.getD 0 + spacingMs - nowMs)

/-! ## Runs -/

/-- What reaches the gate: an attempt of the client to post, or a request of anybody. -/
inductive GateEvent where
  | post (attempt : ℚ)
  | other (r : PublicRequest)

/-- The gate, and when the client's posts were sent. -/
structure PostRun where
  gate : PublicGate
  sent : List ℚ

namespace PostRun

/-- When a post that is attempted is sent. -/
def sendTime (s : PostRun) (attempt : ℚ) : ℚ := attempt + delayBeforeNext s.sent attempt

/-- The request it makes. -/
def request (client : Str) (s : PostRun) (attempt : ℚ) : PublicRequest :=
  ⟨client, true, s.sendTime attempt⟩

/-- One event. -/
def step (client : Str) (s : PostRun) : GateEvent → PostRun
  | .post attempt =>
    ⟨(s.gate.allow (s.request client attempt)).2, s.sent ++ [s.sendTime attempt]⟩
  | .other r => ⟨(s.gate.allow r).2, s.sent⟩

/-- The client attempts no post before the last one was sent and is charged to a bucket of its own, to
which no other write is charged. -/
def Proper (client : Str) (s : PostRun) : GateEvent → Prop
  | .post attempt => (∀ last ∈ s.sent.getLast?, last ≤ attempt) ∧
      s.gate.chargedTo (s.request client attempt) = client
  | .other r => ¬ (r.write = true ∧ s.gate.chargedTo r = client)

instance (client : Str) (s : PostRun) : ∀ e, Decidable (s.Proper client e)
  | .post _ => inferInstanceAs (Decidable (_ ∧ _))
  | .other _ => inferInstanceAs (Decidable (¬ _))

/-- **What pacing is for**: no post waits long, the gate admits it, and no interval holds more posts than
its length allows. -/
structure Paced (client : Str) (s : PostRun) (e : GateEvent) : Prop where
  delay : ∀ attempt, e = .post attempt → delayBeforeNext s.sent attempt ≤ spacingMs
  admitted : ∀ attempt, e = .post attempt → (s.gate.allow (s.request client attempt)).1 = true
  interval : ∀ lo len : ℚ, 0 ≤ len →
    (((s.step client e).sent.countP fun t => decide (lo ≤ t ∧ t ≤ lo + len) : Nat) : ℚ) ≤
      burst + len / spacingMs

end PostRun

/-! ## The times -/

section Times

variable {sent : List ℚ} {attempt : ℚ}

/-- The last post is the latest, and recent if any is. -/
theorem max_recent (h : Spread burst spacingMs sent) {last : ℚ} (hlast : sent.getLast? = some last)
    (hsome : sent.filter (fun t => decide (attempt - t < windowMs)) ≠ []) :
    (sent.filter fun t => decide (attempt - t < windowMs)).max? = some last := by
  have hle : ∀ t ∈ sent, t ≤ last := by
    intro t ht
    obtain ⟨i, hi, rfl⟩ := List.mem_iff_getElem.mp ht
    obtain ⟨last', hlast', hidx⟩ := getElem?_last (l := sent) (List.ne_nil_of_length_pos (by omega))
    rw [hlast, Option.some.injEq] at hlast'
    rw [hlast']
    exact (h i (sent.length - 1) _ _ (by omega) (List.getElem?_eq_getElem hi) hidx).1
  refine List.max?_eq_some_iff.mpr ⟨List.mem_filter.mpr ⟨List.mem_of_getLast? hlast, ?_⟩,
    fun t ht => hle t (List.mem_filter.mp ht).1⟩
  obtain ⟨t, ht⟩ := List.exists_mem_of_ne_nil _ hsome
  obtain ⟨hmem, hrecent⟩ := List.mem_filter.mp ht
  rw [decide_eq_true_eq] at hrecent ⊢
  have := hle t hmem
  linarith

/-- A post waits, if at all, until `SPACING_MS` after the last one. -/
theorem delayBeforeNext_cases (h : Spread burst spacingMs sent) (attempt : ℚ) :
    ((sent.filter fun t => decide (attempt - t < windowMs)).length < burst ∧
        delayBeforeNext sent attempt = 0) ∨
      ∃ last, sent.getLast? = some last ∧
        delayBeforeNext sent attempt = max 0 (last + spacingMs - attempt) := by
  unfold delayBeforeNext
  dsimp only
  by_cases hfew : (sent.filter fun t => decide (attempt - t < windowMs)).length < burst
  · exact Or.inl ⟨hfew, if_pos hfew⟩
  · have hsome : sent.filter (fun t => decide (attempt - t < windowMs)) ≠ [] := by
      refine List.ne_nil_of_length_pos (Nat.lt_of_lt_of_le ?_ (Nat.le_of_not_lt hfew))
      decide
    have hne : sent ≠ [] := by
      rintro rfl
      exact hsome rfl
    obtain ⟨last, hlast, -⟩ := getElem?_last hne
    refine Or.inr ⟨last, hlast, ?_⟩
    rw [if_neg hfew, max_recent h hlast hsome, Option.getD_some]

theorem delay_le (h : Spread burst spacingMs sent) (hnext : ∀ last ∈ sent.getLast?, last ≤ attempt) :
    delayBeforeNext sent attempt ≤ spacingMs := by
  have hpos : (0 : ℚ) ≤ spacingMs := by norm_num [spacingMs]
  rcases delayBeforeNext_cases h attempt with ⟨-, hzero⟩ | ⟨last, hlast, hdelay⟩
  · rw [hzero]
    exact hpos
  · have hle := hnext last hlast
    rw [hdelay]
    exact max_le hpos (by linarith)

/-- **The posts are spread**: one more keeps them so. -/
theorem spread_sent (h : Spread burst spacingMs sent)
    (hnext : ∀ last ∈ sent.getLast?, last ≤ attempt) :
    Spread burst spacingMs (sent ++ [attempt + delayBeforeNext sent attempt]) := by
  have hpos : (0 : ℚ) ≤ spacingMs := by norm_num [spacingMs]
  rcases delayBeforeNext_cases h attempt with ⟨hfew, hzero⟩ | ⟨last, hlast, hdelay⟩
  · rw [hzero, add_zero]
    exact h.concat_pause hpos (by decide) (by norm_num [spacingMs, burst, windowMs]) hnext hfew
  · refine h.concat_spaced hpos (by decide) fun last' hlast' => ?_
    obtain rfl : last' = last := Option.some.inj (hlast'.symm.trans hlast)
    rw [hdelay]
    have := le_max_right 0 (last' + spacingMs - attempt)
    linarith

end Times

/-! ## The gate -/

namespace PostRun

variable {client : Str} {s : PostRun} {e : GateEvent}

/-- The gate has the default write limits, the posts are spread, and the client's bucket, if it has
one, was full at one of them. -/
structure Inv (client : Str) (s : PostRun) : Prop where
  writePerMin : s.gate.limits.writePerMin = 20
  writeBurst : s.gate.limits.writeBurst = 10
  spread : Spread burst spacingMs s.sent
  backed : ∀ b, s.gate.bucket client true = some b → Backed 10 spacingMs s.sent b.tokens b.at'

/-- What a bucket that is backed does with a post. -/
theorem take_backed {b : Bucket} {sent : List ℚ} {now : ℚ}
    (h : Backed 10 spacingMs sent b.tokens b.at')
    (hspread : Spread burst spacingMs (sent ++ [now])) : (b.take now (20 / 60) 10).1 = true ∧
      Backed 10 spacingMs (sent ++ [now]) (b.take now (20 / 60) 10).2.tokens
        (b.take now (20 / 60) 10).2.at' := by
  have hrate : secondsSince now b.at' * (20 / 60) = max (now - b.at') 0 / spacingMs := by
    unfold secondsSince spacingMs
    ring
  obtain ⟨hone, hnext⟩ := h.take hspread (by norm_num [spacingMs]) (by norm_num [burst])
    (by decide)
  unfold Bucket.take
  dsimp only
  rw [hrate, if_pos hone]
  exact ⟨rfl, hnext⟩

/-- **A post** is admitted, and leaves the bucket backed. -/
theorem Inv.post (h : s.Inv client) {attempt : ℚ} (hproper : s.Proper client (.post attempt)) :
    (s.gate.allow (s.request client attempt)).1 = true ∧ (s.step client (.post attempt)).Inv client := by
  obtain ⟨hnext, hown⟩ := hproper
  have hspread := spread_sent h.spread hnext
  obtain ⟨b, hb, hallow, hbucket⟩ := s.gate.allow_charged (s.request client attempt)
  rw [hown] at hb hbucket
  have hwrite : (s.request client attempt).write = true := rfl
  rw [hwrite, if_pos rfl, h.writeBurst] at hb
  rw [hwrite, if_pos rfl, if_pos rfl, h.writePerMin, h.writeBurst] at hallow hbucket
  have hbacked : Backed 10 spacingMs s.sent b.tokens b.at' := by
    rcases hb with hb | rfl
    · exact h.backed b hb
    · exact Or.inl (le_refl _)
  obtain ⟨htrue, hkept⟩ := take_backed hbacked hspread
  refine ⟨hallow.trans htrue, ?_, ?_, hspread, fun b' hb' => ?_⟩
  · exact (congrArg Limits.writePerMin (PublicGate.limits_allow _ _)).trans h.writePerMin
  · exact (congrArg Limits.writeBurst (PublicGate.limits_allow _ _)).trans h.writeBurst
  · obtain rfl : _ = b' := Option.some.inj (hbucket.symm.trans hb')
    exact hkept

/-- A request of another leaves the bucket backed. -/
theorem Inv.other (h : s.Inv client) {r : PublicRequest} (hproper : s.Proper client (.other r)) :
    (s.step client (.other r)).Inv client := by
  refine ⟨?_, ?_, h.spread, fun b hb => ?_⟩
  · exact (congrArg Limits.writePerMin (PublicGate.limits_allow _ _)).trans h.writePerMin
  · exact (congrArg Limits.writeBurst (PublicGate.limits_allow _ _)).trans h.writeBurst
  · rcases PublicGate.bucket_other hproper with hsame | hnone
    · exact h.backed b (hsame.symm.trans hb)
    · exact absurd (hnone.symm.trans hb) (by simp)

/-- **One event** of a proper run. -/
theorem Inv.step (h : s.Inv client) (hproper : s.Proper client e) :
    s.Paced client e ∧ (s.step client e).Inv client := by
  cases e with
  | post attempt =>
    obtain ⟨hadmitted, hnext⟩ := h.post hproper
    refine ⟨⟨?_, ?_, fun lo len hlen => ?_⟩, hnext⟩
    · rintro _ ⟨rfl⟩
      exact delay_le h.spread hproper.1
    · rintro _ ⟨rfl⟩
      exact hadmitted
    · exact hnext.spread.count_le (by norm_num [spacingMs]) lo hlen
  | other r =>
    have hnext := h.other hproper
    refine ⟨⟨?_, ?_, fun lo len hlen => ?_⟩, hnext⟩
    · rintro _ ⟨⟩
    · rintro _ ⟨⟩
    · exact hnext.spread.count_le (by norm_num [spacingMs]) lo hlen

end PostRun

/-- **The page's pacing stays below the gate's limit.** With the default write limits, whatever others
request, a client whose bucket is full at first and its own has every post admitted; none waits longer
than `SPACING_MS`, and an interval holds at most `BURST` posts and one for each `SPACING_MS`. -/
theorem pacing_admitted {client : Str} {g : PublicGate} (hrate : g.limits.writePerMin = 20)
    (hburst : g.limits.writeBurst = 10)
    (hfull : ∀ b, g.bucket client true = some b → g.limits.writeBurst ≤ b.tokens)
    {events : List GateEvent}
    (h : Along (PostRun.step client) (PostRun.Proper client) ⟨g, []⟩ events) :
    Along (PostRun.step client) (PostRun.Paced client) ⟨g, []⟩ events := by
  have hstart : PostRun.Inv client ⟨g, []⟩ :=
    ⟨hrate, hburst, spread_nil, fun b hb => Or.inl (hburst ▸ hfull b hb)⟩
  exact h.imp_of_invariant (fun _ _ hinv hproper => hinv.step hproper) hstart

namespace Sample

/-- Seven posts of one client at once, and after a minute one more, with a write of another between. -/
def postEvents : List GateEvent :=
  [.post 0, .post 0, .post 0, .other ⟨['b'], true, 0⟩, .post 0, .post 0, .post 0, .post 3000,
    .post 66000]

end Sample

/-- The sixth and the seventh post wait, and the gate admits all. -/
theorem pacing_admitted_burst :
    (Sample.postEvents.foldl (PostRun.step ['a']) ⟨PublicGate.new Limits.default, []⟩).sent =
        [0, 0, 0, 0, 0, 3000, 6000, 66000] ∧
      Along (PostRun.step ['a']) (PostRun.Paced ['a']) ⟨PublicGate.new Limits.default, []⟩
        Sample.postEvents := by
  refine ⟨by decide +kernel, pacing_admitted rfl rfl (fun b hb => ?_) (by decide +kernel)⟩
  rw [PublicGate.bucket_new] at hb
  cases hb

end TetCore.Page.FloodGuard
