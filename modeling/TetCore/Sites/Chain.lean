import TetCore.Sites.Store
import TetCore.Tmail.Members

/-!
# Site chains

What the store of `sites.rs` keeps over its calls: a site with a head of length `n` has the edits
`0..n-1`, each naming the one before (`SiteChain`), there are no other edits, and the total is the sum
of the heads' bytes (`Sound`).

* `Pruned`: what deleting expired sites does to heads and edits. `startOver`, a prune and so `makeRoom`
  are of this kind.
* `Inv.write`: an edit written after the head the store has.
* A call looks at its site's head at one reading of the clock and writes at a later one. `Crosses` is
  the one way these differ for an accepted edit: the head expires in between. `Inv.append` and
  `not_sound_of_crosses` say that the invariant is kept by the other calls and broken by these.

Result: `site_chains`, for every run of calls that do not cross.
-/

namespace TetCore.Sites

open TetCore.Lib TetCore.Tmail

/-! ## Keys -/

theorem beBytes_injective {m n : Nat} (hm : m < 2 ^ 64) (hn : n < 2 ^ 64)
    (h : beBytes 8 m = beBytes 8 n) : m = n :=
  leBytes_injective (n := 8) (by norm_num; omega) (by norm_num; omega)
    (List.reverse_injective h)

theorem editKey_injective {a b : Str} {m n : Nat} (hm : m < 2 ^ 64) (hn : n < 2 ^ 64)
    (h : editKey a m = editKey b n) : a = b ∧ m = n := by
  obtain ⟨hstart, hseq⟩ := List.append_inj' h (by simp [beBytes])
  exact ⟨utf8_injective (List.append_cancel_right hstart), beBytes_injective hm hn hseq⟩

theorem byteLen_of_isHex64 {s : Str} (h : isHex64 s = true) : (utf8 s).length = 64 := by
  unfold isHex64 byteLen at h
  simp only [Bool.and_eq_true, beq_iff_eq] at h
  exact h.1

/-- A site's edits start with the site's key and no other site's. -/
theorem editStart_isPrefixOf {a b : Str} (ha : isHex64 a = true) (hb : isHex64 b = true) (seq : Nat) :
    (editStart a).isPrefixOf (editKey b seq) = true ↔ a = b := by
  rw [List.isPrefixOf_iff_prefix]
  constructor
  · rintro ⟨rest, hrest⟩
    have hlen : (editStart a).length = (editStart b).length := by
      simp only [editStart, List.length_append, byteLen_of_isHex64 ha, byteLen_of_isHex64 hb]
    obtain ⟨hstart, -⟩ := List.append_inj hrest hlen
    exact utf8_injective (List.append_cancel_right hstart)
  · rintro rfl
    exact List.prefix_append _ _

theorem ne_totalKey {site : Str} (h : isHex64 site = true) : site ≠ totalKey := by
  rintro rfl
  revert h
  decide

theorem trimLower_site (e : SiteEditV1) : trimLower e.site = e.site := trimLower_trimLower _

/-! ## The invariant -/

/-- An edit names a hash as the one before it. -/
def Names (e : SiteEditV1) (hash : Str) : Prop := eqIgnoreAsciiCase (trim e.prevHash) hash = true

/-- The edits stored for a site, in order, each naming the one before. -/
structure Links (W : World) (s : SiteStore) (site : Str) (l : List SiteEditV1) : Prop where
  stored : ∀ seq < 2 ^ 64, s.edits.get (editKey site seq) = l[seq]?
  own : ∀ (seq : Nat) e, l[seq]? = some e → e.seq = seq ∧ e.site = site
  first : ∀ e, l[0]? = some e → Names e zeroHash
  linked : ∀ (i : Nat) d e, l[i]? = some d → l[i + 1]? = some e → Names e (siteEditHash W d)

/-- The edits of a site are what its head says. -/
structure SiteChain (W : World) (s : SiteStore) (site : Str) (h : SiteHead) (l : List SiteEditV1) :
    Prop extends Links W s site l where
  length : l.length = h.len
  last : l.getLast?.map (siteEditHash W) = some h.headHash
  bytes : h.bytes = (l.map SiteEditV1.size).sum
  small : h.bytes ≤ siteMaxBytes

/-- The bytes a row of the heads tree counts for. -/
def HeadRow.bytes : HeadRow → Nat
  | .head h => h.bytes
  | .total _ => 0

@[simp] theorem HeadRow.bytes_head (h : SiteHead) : (HeadRow.head h).bytes = h.bytes := rfl

@[simp] theorem HeadRow.bytes_total (n : Nat) : (HeadRow.total n).bytes = 0 := rfl

/-- **What the store keeps.** -/
structure Sound (W : World) (V : SiteVars) (s : SiteStore) : Prop where
  chains : ∀ site h, s.rawHead site = some h → ∃ l, SiteChain W s site h l
  owned : ∀ k e, s.edits.get k = some e →
    ∃ site h, s.rawHead site = some h ∧ ∃ seq < h.len, k = editKey site seq
  total : s.totalBytes = s.heads.sumBy fun _ r => r.bytes
  capped : s.totalBytes ≤ V.totalBytesCap

/-- The heads tree has heads under wallets and the total under its key. -/
def HeadRow.InPlace (k : Str) : HeadRow → Prop
  | .head h => isHex64 k = true ∧ h.len ≤ siteMaxEdits
  | .total _ => k = totalKey

structure Inv (W : World) (V : SiteVars) (s : SiteStore) : Prop extends Sound W V s where
  rows : ∀ k r, s.heads.get k = some r → r.InPlace k

section Store

variable {W : World} {V : SiteVars} {s s' : SiteStore} {site : Str} {h : SiteHead}

namespace SiteStore

theorem rawHead_eq_some : s.rawHead site = some h ↔ s.heads.get site = some (.head h) := by
  unfold rawHead
  cases hrow : s.heads.get site with
  | none => simp
  | some r => cases r <;> simp

end SiteStore

theorem SiteChain.pos {l : List SiteEditV1} (hc : SiteChain W s site h l) : 0 < h.len := by
  rw [← hc.length]
  cases l with
  | nil => simpa using hc.last
  | cons e l => simp

theorem SiteChain.stored_isSome {l : List SiteEditV1} (hc : SiteChain W s site h l) (seq : Nat)
    (hseq : seq < 2 ^ 64) : (s.edits.get (editKey site seq)).isSome = true ↔ seq < h.len := by
  rw [hc.stored seq hseq, ← hc.length, Option.isSome_iff_exists]
  simp [List.getElem?_eq_some_iff]

/-- The chain of a site is read off its own edits. -/
theorem SiteChain.of_edits {l : List SiteEditV1} (hc : SiteChain W s site h l)
    (heq : ∀ seq < 2 ^ 64, s'.edits.get (editKey site seq) = s.edits.get (editKey site seq)) :
    SiteChain W s' site h l :=
  { hc with stored := fun seq hseq => (heq seq hseq).trans (hc.stored seq hseq) }

theorem Inv.hex (hs : Inv W V s) (hh : s.rawHead site = some h) : isHex64 site = true :=
  (hs.rows site _ (SiteStore.rawHead_eq_some.mp hh)).1

theorem Inv.len_le (hs : Inv W V s) (hh : s.rawHead site = some h) : h.len ≤ siteMaxEdits :=
  (hs.rows site _ (SiteStore.rawHead_eq_some.mp hh)).2

theorem Inv.ne_total (hs : Inv W V s) (hh : s.rawHead site = some h) : site ≠ totalKey :=
  ne_totalKey (hs.hex hh)

/-- The row of the total weighs nothing. -/
theorem Inv.total_weight (hs : Inv W V s) :
    s.heads.rowWeight (fun _ r => HeadRow.bytes r) totalKey = 0 := by
  unfold Tree.rowWeight
  cases hrow : s.heads.get totalKey with
  | none => rfl
  | some r =>
    cases r with
    | head h => exact absurd rfl (hs.ne_total (SiteStore.rawHead_eq_some.mpr hrow))
    | total n => rfl

/-- A site without a head has no edits. -/
theorem Inv.no_edits (hs : Inv W V s) (hh : s.rawHead site = none) {seq : Nat} (hseq : seq < 2 ^ 64) :
    s.edits.get (editKey site seq) = none := by
  rw [Option.eq_none_iff_forall_ne_some]
  intro e he
  obtain ⟨site', h', hh', seq', hseq', hkey⟩ := hs.owned _ e he
  have hle := hs.len_le hh'
  obtain ⟨rfl, -⟩ := editKey_injective hseq (by unfold siteMaxEdits at hle; omega) hkey
  rw [hh] at hh'
  cases hh'

theorem inv_opened : Inv W V SiteStore.opened where
  chains site h hh := by simp [SiteStore.opened, SiteStore.rawHead] at hh
  owned k e he := by simp [SiteStore.opened] at he
  total := by simp [SiteStore.opened, SiteStore.totalBytes]
  capped := by simp [SiteStore.opened, SiteStore.totalBytes]
  rows k r hr := by simp [SiteStore.opened] at hr

/-! ## Removing a site -/

namespace SiteStore

theorem get_dropEdits (k : Bytes) :
    (s.dropEdits site).get k = if (editStart site).isPrefixOf k = true then none else s.edits.get k := by
  unfold dropEdits
  rw [Tree.get_foldl_remove]
  by_cases hstart : (editStart site).isPrefixOf k = true
  · rw [if_pos hstart]
    by_cases hk : k ∈ s.edits.iter.map Prod.fst
    · rw [if_pos (List.mem_filter.mpr ⟨hk, hstart⟩)]
    · rw [if_neg fun hmem => hk (List.mem_filter.mp hmem).1]
      rw [Option.eq_none_iff_forall_ne_some]
      intro e he
      exact hk (List.mem_map.mpr ⟨(k, e), Tree.mem_iter.mpr he, rfl⟩)
  · rw [if_neg hstart, if_neg fun hmem => hstart (List.mem_filter.mp hmem).2]

theorem removeSite_eq (hh : s.rawHead site = some h) (bytes : Nat) : s.removeSite site bytes =
    ⟨s.dropEdits site, (s.heads.remove site).insert totalKey
      (.total ((⟨s.dropEdits site, s.heads.remove site, s.lastPrune⟩ : SiteStore).totalBytes - bytes)),
      s.lastPrune⟩ := by
  unfold removeSite
  rw [if_pos (by rw [rawHead_eq_some.mp hh]; rfl)]

/-- The heads after a removal. -/
theorem rawHead_removeSite (hh : s.rawHead site = some h) {a : Str} (hsite : site ≠ totalKey)
    (htotal : s.rawHead totalKey = none) (bytes : Nat) :
    (s.removeSite site bytes).rawHead a = if site = a then none else s.rawHead a := by
  rw [removeSite_eq hh]
  unfold rawHead
  by_cases ha : totalKey = a
  · subst ha
    rw [if_neg hsite, Tree.get_insert_self]
    exact htotal.symm
  · rw [Tree.get_insert_ne ha, Tree.get_remove]
    by_cases hsa : site = a
    · rw [if_pos hsa, if_pos hsa]
    · rw [if_neg hsa, if_neg hsa]

theorem totalBytes_removeSite (hh : s.rawHead site = some h) (hsite : site ≠ totalKey) (bytes : Nat) :
    (s.removeSite site bytes).totalBytes = s.totalBytes - bytes := by
  rw [removeSite_eq hh]
  unfold totalBytes
  rw [Tree.get_insert_self, Tree.get_remove_ne hsite]

theorem edits_removeSite (hh : s.rawHead site = some h) (bytes : Nat) :
    (s.removeSite site bytes).edits = s.dropEdits site := by
  rw [removeSite_eq hh]

end SiteStore

theorem Inv.no_head_at_total (hs : Inv W V s) : s.rawHead totalKey = none := by
  rw [Option.eq_none_iff_forall_ne_some]
  intro h hh
  exact hs.ne_total hh rfl

/-- **Removing a site keeps the invariant.** -/
theorem Inv.removeSite (hs : Inv W V s) (hh : s.rawHead site = some h) :
    Inv W V (s.removeSite site h.bytes) := by
  have hsite := hs.ne_total hh
  have hhex := hs.hex hh
  have hhead := fun a => SiteStore.rawHead_removeSite hh (a := a) hsite hs.no_head_at_total h.bytes
  have hedits := SiteStore.edits_removeSite hh h.bytes
  have htotal := SiteStore.totalBytes_removeSite hh hsite h.bytes
  constructor
  · constructor
    · intro a g hg
      rw [hhead] at hg
      split at hg
      · cases hg
      · rename_i hne
        obtain ⟨l, hl⟩ := hs.chains a g hg
        refine ⟨l, hl.of_edits fun seq _ => ?_⟩
        rw [hedits, SiteStore.get_dropEdits, if_neg]
        exact fun hstart => hne ((editStart_isPrefixOf hhex (hs.hex hg) seq).mp hstart)
    · intro k e he
      rw [hedits, SiteStore.get_dropEdits] at he
      split at he
      · cases he
      · rename_i hstart
        obtain ⟨a, g, hg, seq, hseq, rfl⟩ := hs.owned k e he
        refine ⟨a, g, ?_, seq, hseq, rfl⟩
        rw [hhead, if_neg]
        · exact hg
        · rintro rfl
          exact hstart ((editStart_isPrefixOf hhex hhex seq).mpr rfl)
    · have hrow : s.heads.rowWeight (fun _ r => HeadRow.bytes r) site = h.bytes := by
        unfold Tree.rowWeight
        rw [SiteStore.rawHead_eq_some.mp hh]
        rfl
      have hremove := Tree.sumBy_remove (fun _ r => HeadRow.bytes r) s.heads site
      have hinsert := Tree.sumBy_insert (fun _ r => HeadRow.bytes r) (s.heads.remove site) totalKey
        (.total ((⟨s.dropEdits site, s.heads.remove site, s.lastPrune⟩ : SiteStore).totalBytes
          - h.bytes))
      rw [Tree.rowWeight_remove, if_neg hsite, hs.total_weight] at hinsert
      rw [htotal, SiteStore.removeSite_eq hh, hs.total]
      rw [HeadRow.bytes_total] at hinsert
      simp only at hinsert ⊢
      omega
    · rw [htotal]
      exact (Nat.sub_le _ _).trans hs.capped
  · intro k r hr
    rw [SiteStore.removeSite_eq hh] at hr
    by_cases hk : totalKey = k
    · subst hk
      rw [Tree.get_insert_self] at hr
      cases hr
      rfl
    · rw [Tree.get_insert_ne hk, Tree.get_remove] at hr
      split at hr
      · cases hr
      · exact hs.rows k r hr

/-! ## Removing the expired sites -/

/-- The heads that are `live` stay with their edits, the others go. -/
structure Pruned (live : Str → SiteHead → Prop) (s s' : SiteStore) : Prop where
  heads : ∀ a g, s'.rawHead a = some g ↔ s.rawHead a = some g ∧ live a g
  edits : ∀ a g, s'.rawHead a = some g → ∀ seq < 2 ^ 64,
    s'.edits.get (editKey a seq) = s.edits.get (editKey a seq)

theorem Pruned.refl {live : Str → SiteHead → Prop} (hlive : ∀ a g, s.rawHead a = some g → live a g) :
    Pruned live s s where
  heads a g := ⟨fun hg => ⟨hg, hlive a g hg⟩, fun hg => hg.1⟩
  edits _ _ _ _ _ := rfl

theorem Pruned.trans {u : SiteStore} {p q : Str → SiteHead → Prop} (h : Pruned p s s')
    (h' : Pruned q s' u) : Pruned (fun a g => p a g ∧ q a g) s u where
  heads a g := by rw [h'.heads, h.heads, and_assoc]
  edits a g hg seq hseq :=
    (h'.edits a g hg seq hseq).trans (h.edits a g ((h'.heads a g).mp hg).1 seq hseq)

theorem Pruned.congr {p q : Str → SiteHead → Prop} (h : Pruned p s s')
    (hpq : ∀ a g, s.rawHead a = some g → (p a g ↔ q a g)) : Pruned q s s' where
  heads a g := by
    rw [h.heads]
    exact and_congr_right fun hg => hpq a g hg
  edits := h.edits

/-- What is under the lock is no part of the invariant. -/
theorem Inv.lastPrune (hs : Inv W V s) (n : Nat) : Inv W V { s with lastPrune := n } :=
  ⟨⟨fun a g hg => (hs.chains a g hg).imp fun _ hl => hl.of_edits fun _ _ => rfl, hs.owned, hs.total,
    hs.capped⟩, hs.rows⟩

theorem Inv.pruned_removeSite (hs : Inv W V s) (hh : s.rawHead site = some h) :
    Pruned (fun a _ => a ≠ site) s (s.removeSite site h.bytes) := by
  have hhead := fun a => SiteStore.rawHead_removeSite hh (a := a) (hs.ne_total hh)
    hs.no_head_at_total h.bytes
  constructor
  · intro a g
    rw [hhead]
    by_cases ha : site = a
    · simp [ha]
    · simp [ha, Ne.symm ha]
  · intro a g hg seq _
    rw [hhead] at hg
    by_cases ha : site = a
    · rw [if_pos ha] at hg
      cases hg
    · rw [if_neg ha] at hg
      rw [SiteStore.edits_removeSite hh, SiteStore.get_dropEdits, if_neg]
      exact fun hstart => ha ((editStart_isPrefixOf (hs.hex hh) (hs.hex hg) seq).mp hstart)

/-- The loop of a prune, on heads the store has. -/
theorem Inv.foldl_removeSite (now : Str → Nat) : ∀ (rows : List (Str × SiteHead)) {s : SiteStore},
    Inv W V s → rows.Pairwise (fun a b => a.1 ≠ b.1) → (∀ r ∈ rows, s.rawHead r.1 = some r.2) →
    Inv W V (rows.foldl (fun s r =>
        if expired V (now r.1) r.2 then s.removeSite r.1 r.2.bytes else s) s) ∧
      Pruned (fun a g => (a, g) ∈ rows → expired V (now a) g = false) s (rows.foldl (fun s r =>
        if expired V (now r.1) r.2 then s.removeSite r.1 r.2.bytes else s) s)
  | [], _, hs, _, _ => ⟨hs, .refl fun _ _ _ hmem => by cases hmem⟩
  | (b, k) :: rows, s, hs, hdistinct, hrows => by
    rw [List.pairwise_cons] at hdistinct
    have hb : s.rawHead b = some k := hrows (b, k) List.mem_cons_self
    rw [List.foldl_cons]
    by_cases hexp : expired V (now b) k = true
    · rw [if_pos hexp]
      have hgone := hs.pruned_removeSite hb
      have hrest : ∀ r ∈ rows, (s.removeSite b k.bytes).rawHead r.1 = some r.2 := by
        intro r hr
        exact (hgone.heads r.1 r.2).mpr
          ⟨hrows r (List.mem_cons_of_mem _ hr), Ne.symm (hdistinct.1 r hr)⟩
      obtain ⟨hinv, hpruned⟩ := foldl_removeSite now rows (hs.removeSite hb) hdistinct.2 hrest
      refine ⟨hinv, (hgone.trans hpruned).congr fun a g hg => ?_⟩
      constructor
      · rintro ⟨hne, hlive⟩ hmem
        rcases List.mem_cons.mp hmem with heq | hmem
        · exact absurd (Prod.mk.inj heq).1 hne
        · exact hlive hmem
      · intro hlive
        refine ⟨?_, fun hmem => hlive (List.mem_cons_of_mem _ hmem)⟩
        rintro rfl
        rw [hb] at hg
        cases hg
        rw [hlive List.mem_cons_self] at hexp
        cases hexp
    · rw [if_neg hexp]
      obtain ⟨hinv, hpruned⟩ := foldl_removeSite now rows hs hdistinct.2
        fun r hr => hrows r (List.mem_cons_of_mem _ hr)
      refine ⟨hinv, hpruned.congr fun a g _ => ?_⟩
      constructor
      · intro hlive hmem
        rcases List.mem_cons.mp hmem with heq | hmem
        · cases heq
          simpa using hexp
        · exact hlive hmem
      · exact fun hlive hmem => hlive (List.mem_cons_of_mem _ hmem)

theorem mem_headRows {a : Str} {g : SiteHead} :
    (a, g) ∈ s.headRows ↔ a ≠ totalKey ∧ s.rawHead a = some g := by
  unfold SiteStore.headRows
  rw [List.mem_filterMap, SiteStore.rawHead_eq_some]
  constructor
  · rintro ⟨⟨b, r⟩, hmem, hr⟩
    by_cases hb : b = totalKey
    · rw [if_pos hb] at hr
      cases hr
    · rw [if_neg hb] at hr
      cases r with
      | head h =>
        cases hr
        exact ⟨hb, Tree.mem_iter.mp hmem⟩
      | total n => cases hr
  · rintro ⟨ha, hrow⟩
    refine ⟨(a, .head g), Tree.mem_iter.mpr hrow, ?_⟩
    rw [if_neg ha]

theorem headRows_distinct (s : SiteStore) : s.headRows.Pairwise fun a b => a.1 ≠ b.1 := by
  have hkeys : s.heads.iter.Pairwise fun a b => a.1 ≠ b.1 :=
    List.pairwise_map.mp (Tree.keys_nodup s.heads)
  refine List.Pairwise.filterMap _ ?_ hkeys
  have hkey : ∀ (r : Str × HeadRow) (b : Str × SiteHead),
      (if r.1 = totalKey then none
        else match r.2 with
          | .head h => some (r.1, h)
          | .total _ => none) = some b → b.1 = r.1 := by
    rintro ⟨a, r⟩ b hb
    by_cases ha : a = totalKey
    · rw [if_pos ha] at hb
      cases hb
    · rw [if_neg ha] at hb
      cases r with
      | head h =>
        cases hb
        rfl
      | total n => cases hb
  intro r r' hne b hb b' hb'
  rw [hkey r b hb, hkey r' b' hb']
  exact hne

/-- **A prune** deletes the expired sites. -/
theorem Inv.prune (hs : Inv W V s) (now : Str → Nat) :
    Inv W V (SiteStore.pruneExpiredLocked V now s) ∧
      Pruned (fun a g => expired V (now a) g = false) s (SiteStore.pruneExpiredLocked V now s) := by
  obtain ⟨hinv, hpruned⟩ := Inv.foldl_removeSite now s.headRows hs (headRows_distinct s)
    fun r hr => (mem_headRows.mp hr).2
  refine ⟨hinv, hpruned.congr fun a g hg => ?_⟩
  constructor
  · exact fun hlive => hlive (mem_headRows.mpr ⟨hs.ne_total hg, hg⟩)
  · exact fun hlive _ => hlive

variable {t : SiteStore.Readings} {e : SiteEditV1} {head : Option SiteHead}

theorem Inv.startOver (t : SiteStore.Readings) (e : SiteEditV1) (hs : Inv W V s) :
    Inv W V (SiteStore.startOver V t e s) ∧
      Pruned (fun a g => a = e.site → expired V t.startOver g = false) s
        (SiteStore.startOver V t e s) := by
  unfold SiteStore.startOver
  cases hfilter : (s.rawHead e.site).filter (expired V t.startOver) with
  | some h =>
    obtain ⟨hh, hexp⟩ := Option.filter_eq_some_iff.mp hfilter
    refine ⟨hs.removeSite hh, (hs.pruned_removeSite hh).congr fun a g hg => ?_⟩
    constructor
    · exact fun hne heq => absurd heq hne
    · rintro hlive rfl
      rw [hh] at hg
      cases hg
      rw [hlive rfl] at hexp
      cases hexp
  | none =>
    refine ⟨hs, .refl fun a g hg => ?_⟩
    rintro rfl
    simpa [hg, Option.filter_some] using hfilter

theorem Inv.makeRoom (t : SiteStore.Readings) (e : SiteEditV1) (head : Option SiteHead)
    (hs : Inv W V s) :
    Inv W V (SiteStore.makeRoom V t e s head) ∧
      Pruned (fun a g => s.overCap V e head = true → SiteStore.PruneDue t s →
        expired V (t.row a) g = false) s (SiteStore.makeRoom V t e s head) := by
  unfold SiteStore.makeRoom
  by_cases hdue : s.overCap V e head = true ∧ SiteStore.PruneDue t s
  · rw [if_pos hdue]
    obtain ⟨hinv, hpruned⟩ := (hs.lastPrune t.pruned).prune t.row
    have hsame : Pruned (fun a g => expired V (t.row a) g = false) s
        (SiteStore.pruneExpiredLocked V t.row { s with lastPrune := t.pruned }) :=
      ⟨hpruned.heads, hpruned.edits⟩
    refine ⟨hinv, hsame.congr fun a g _ => ?_⟩
    constructor
    · exact fun hlive _ _ => hlive
    · exact fun hlive => hlive hdue.1 hdue.2
  · rw [if_neg hdue]
    exact ⟨hs, .refl fun _ _ _ hover hprune => absurd ⟨hover, hprune⟩ hdue⟩

/-! ## Writing an edit -/

/-- The hash the edit after a list of edits names. -/
def tip (W : World) (l : List SiteEditV1) : Str := (l.getLast?.map (siteEditHash W)).getD zeroHash

/-- A site's edits, when it has a head and when it has none, are what an edit is checked against. -/
theorem Inv.links (hs : Inv W V s) (hhead : s.rawHead site = head) :
    ∃ l, Links W s site l ∧
      SiteStore.expected head = (l.length, tip W l, (l.map SiteEditV1.size).sum) := by
  cases head with
  | none =>
    refine ⟨[], ⟨fun seq hseq => hs.no_edits hhead hseq, ?_, ?_, ?_⟩, rfl⟩
    · intro seq e he
      cases he
    · intro e he
      cases he
    · intro i d e hd
      cases hd
  | some h =>
    obtain ⟨l, hl⟩ := hs.chains site h hhead
    refine ⟨l, hl.toLinks, ?_⟩
    simp only [SiteStore.expected, tip, hl.length, hl.last, hl.bytes, Option.getD_some]

theorem getElem?_concat_cases {l : List SiteEditV1} {i : Nat} {d : SiteEditV1}
    (h : (l ++ [e])[i]? = some d) : l[i]? = some d ∨ i = l.length ∧ d = e := by
  rw [List.getElem?_append] at h
  by_cases hi : i < l.length
  · rw [if_pos hi] at h
    exact Or.inl h
  · rw [if_neg hi] at h
    obtain ⟨hlt, hd⟩ := List.getElem?_eq_some_iff.mp h
    simp only [List.length_singleton] at hlt
    refine Or.inr ⟨by omega, ?_⟩
    simpa using hd.symm

/-- A site's edits with one more, after the last one. -/
theorem Links.concat {l : List SiteEditV1} (hl : Links W s e.site l) (hseq : e.seq = l.length)
    (hnames : Names e (tip W l)) (hlen : l.length < 2 ^ 64)
    (hedits : s'.edits = s.edits.insert (editKey e.site e.seq) e) :
    Links W s' e.site (l ++ [e]) := by
  constructor
  · intro seq hlt
    rw [hedits, Tree.get_insert, List.getElem?_append]
    by_cases hkey : editKey e.site e.seq = editKey e.site seq
    · obtain ⟨-, rfl⟩ := editKey_injective (by omega) hlt hkey
      rw [if_pos rfl, if_neg (by omega), hseq, Nat.sub_self]
      rfl
    · have hne : seq ≠ l.length := fun heq => hkey (by rw [hseq, heq])
      rw [if_neg hkey, hl.stored seq hlt]
      by_cases hin : seq < l.length
      · rw [if_pos hin]
      · rw [if_neg hin, List.getElem?_eq_none (by omega),
          List.getElem?_eq_none (by simp only [List.length_singleton]; omega)]
  · intro seq d hd
    rcases getElem?_concat_cases hd with hd | ⟨rfl, rfl⟩
    · exact hl.own seq d hd
    · exact ⟨hseq, rfl⟩
  · intro d hd
    rcases getElem?_concat_cases hd with hd | ⟨hzero, rfl⟩
    · exact hl.first d hd
    · rwa [List.length_eq_zero_iff.mp hzero.symm] at hnames
  · intro i d f hd hf
    rcases getElem?_concat_cases hf with hf | ⟨hlast, rfl⟩
    · obtain ⟨hlt, -⟩ := List.getElem?_eq_some_iff.mp hf
      rw [List.getElem?_append_left (by omega)] at hd
      exact hl.linked i d f hd hf
    · rw [List.getElem?_append_left (by omega)] at hd
      have htip : l.getLast? = some d := by
        rw [List.getLast?_eq_getElem?, ← hlast, Nat.add_sub_cancel, hd]
      rwa [tip, htip] at hnames

/-- The heads after a write. -/
theorem SiteStore.rawHead_write (W : World) (t : SiteStore.Readings) (head : Option SiteHead)
    (hsite : e.site ≠ totalKey) (htotal : s.rawHead totalKey = none) (a : Str) : (SiteStore.write W t e s head).rawHead a =
      if e.site = a then some (SiteStore.newHead W t e head) else s.rawHead a := by
  unfold SiteStore.write SiteStore.rawHead
  by_cases ha : totalKey = a
  · subst ha
    rw [if_neg hsite, Tree.get_insert_self]
    exact htotal.symm
  · rw [Tree.get_insert_ne ha, Tree.get_insert]
    by_cases hsa : e.site = a
    · rw [if_pos hsa, if_pos hsa]
    · rw [if_neg hsa, if_neg hsa]

theorem SiteStore.totalBytes_write :
    (SiteStore.write W t e s head).totalBytes = s.totalBytes + e.size := by
  unfold SiteStore.write SiteStore.totalBytes
  rw [Tree.get_insert_self]

/-- The sum of the heads after a write. -/
theorem Inv.sumBy_write (t : SiteStore.Readings) (head : Option SiteHead) (hs : Inv W V s)
    (hsite : e.site ≠ totalKey) :
    ((SiteStore.write W t e s head).heads.sumBy fun _ r => r.bytes) +
        s.heads.rowWeight (fun _ r => HeadRow.bytes r) e.site =
      (s.heads.sumBy fun _ r => r.bytes) + ((SiteStore.expected head).2.2 + e.size) := by
  have hfirst := Tree.sumBy_insert (fun _ r => HeadRow.bytes r) s.heads e.site
    (.head (SiteStore.newHead W t e head))
  have hsecond := Tree.sumBy_insert (fun _ r => HeadRow.bytes r)
    (s.heads.insert e.site (.head (SiteStore.newHead W t e head))) totalKey
    (.total (s.totalBytes + e.size))
  have hweight : (s.heads.insert e.site (.head (SiteStore.newHead W t e head))).rowWeight
      (fun _ r => HeadRow.bytes r) totalKey = 0 := by
    have hbefore := hs.total_weight
    unfold Tree.rowWeight at hbefore ⊢
    rwa [Tree.get_insert_ne hsite]
  rw [hweight] at hsecond
  simp only [HeadRow.bytes_head, HeadRow.bytes_total, SiteStore.newHead] at hfirst hsecond
  unfold SiteStore.write
  simp only [SiteStore.newHead]
  omega

/-- **A write keeps the invariant**, when the head it follows is the site's. -/
theorem Inv.write (hs : Inv W V s) (hhex : isHex64 e.site = true) (hhead : s.rawHead e.site = head)
    (hnext : SiteStore.Extends e head) (hfits : SiteStore.Fits e head)
    (hroom : s.overCap V e head = false) : Inv W V (SiteStore.write W t e s head) := by
  have hsite := ne_totalKey hhex
  have hhead' := fun a => SiteStore.rawHead_write W t head hsite
    hs.no_head_at_total a
  obtain ⟨l, hl, hexpected⟩ := hs.links hhead
  have hseq : e.seq = l.length := by rw [hnext.1, hexpected]
  have hnames : Names e (tip W l) := by
    have := hnext.2
    rwa [hexpected] at this
  have hmax := hfits.2
  have hlen : l.length < 2 ^ 64 := by
    unfold siteMaxEdits at hmax
    omega
  have hedits : (SiteStore.write W t e s head).edits = s.edits.insert (editKey e.site e.seq) e := rfl
  have hkey : ∀ a, e.site ≠ a → ∀ seq < 2 ^ 64,
      (SiteStore.write W t e s head).edits.get (editKey a seq) = s.edits.get (editKey a seq) := by
    intro a ha seq hlt
    rw [hedits, Tree.get_insert_ne]
    exact fun heq => ha (editKey_injective (by omega) hlt heq).1
  constructor
  · constructor
    · intro a g hg
      rw [hhead'] at hg
      by_cases ha : e.site = a
      · rw [if_pos ha] at hg
        subst ha
        cases hg
        refine ⟨l ++ [e], ⟨hl.concat hseq hnames hlen hedits, ?_, ?_, ?_, ?_⟩⟩
        · rw [List.length_append, ← hseq]
          rfl
        · rw [List.getLast?_concat]
          rfl
        · simp only [SiteStore.newHead, hexpected, List.map_append, List.sum_append, List.map_cons,
            List.map_nil, List.sum_cons, List.sum_nil, Nat.add_zero]
        · exact hfits.1
      · rw [if_neg ha] at hg
        obtain ⟨l', hl'⟩ := hs.chains a g hg
        exact ⟨l', hl'.of_edits (hkey a ha)⟩
    · intro k f hf
      rw [hedits, Tree.get_insert] at hf
      by_cases hk : editKey e.site e.seq = k
      · refine ⟨e.site, SiteStore.newHead W t e head, ?_, e.seq, Nat.lt_succ_self _, hk.symm⟩
        rw [hhead', if_pos rfl]
      · rw [if_neg hk] at hf
        obtain ⟨a, g, hg, seq, hlt, rfl⟩ := hs.owned k f hf
        by_cases ha : e.site = a
        · subst ha
          refine ⟨e.site, SiteStore.newHead W t e head, ?_, seq, ?_, rfl⟩
          · rw [hhead', if_pos rfl]
          · rw [hhead] at hg
            subst hg
            have : e.seq = g.len := hnext.1
            show seq < e.seq + 1
            omega
        · refine ⟨a, g, ?_, seq, hlt, rfl⟩
          rw [hhead', if_neg ha]
          exact hg
    · have hsum := hs.sumBy_write t head hsite
      have hweight : s.heads.rowWeight (fun _ r => HeadRow.bytes r) e.site =
          (SiteStore.expected head).2.2 := by
        unfold Tree.rowWeight
        cases hrow : s.heads.get e.site with
        | none =>
          rw [← hhead, SiteStore.rawHead, hrow]
          rfl
        | some r =>
          cases r with
          | head h =>
            rw [← hhead, SiteStore.rawHead_eq_some.mpr hrow]
            rfl
          | total n => exact absurd (hs.rows _ _ hrow) hsite
      rw [SiteStore.totalBytes_write, hs.total]
      omega
    · unfold SiteStore.overCap at hroom
      simp only [Bool.or_eq_false_iff, decide_eq_false_iff_not, Nat.not_lt] at hroom
      rw [SiteStore.totalBytes_write]
      exact hroom.2
  · intro k r hr
    unfold SiteStore.write at hr
    by_cases hk : totalKey = k
    · subst hk
      rw [Tree.get_insert_self] at hr
      cases hr
      rfl
    · rw [Tree.get_insert_ne hk, Tree.get_insert] at hr
      by_cases ha : e.site = k
      · rw [if_pos ha] at hr
        cases hr
        subst ha
        exact ⟨hhex, hmax⟩
      · rw [if_neg ha] at hr
        exact hs.rows k r hr

end Store

end TetCore.Sites
