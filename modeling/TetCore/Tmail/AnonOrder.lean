import Mathlib.Data.List.Dedup
import TetCore.Lib.Settle
import TetCore.Tmail.AnonRegistry

/-!
# Registrations in any order

Two nodes receive the same verified registrations of `tmail/store.rs`, each in its own order and some
of them again, a wallet's at least the update cooldown apart. A wallet's row is then settled by its
registrations (`registered_deliver`, over `Lib.settle`): one with the row's commitment is a no-op,
whatever time it claims, and so leaves the row with the older time.

`anon_converges_iff`: all such orders leave every wallet the same commitment, and the nodes the same
root from the next epoch on, iff every wallet has a registration, the earliest of its commitment, that
agrees with every one of the wallet's that is not older. `anon_diverges` has a commitment announced
again, at the same time as another.
-/

namespace TetCore.Tmail

open TetCore.Lib

/-- The key of the registration's row. -/
def TmailAnonRegistrationV1.wallet (reg : TmailAnonRegistrationV1) : Str := trimLower reg.walletId

/-- What `register_anon` takes for the same commitment: the text, whatever its case. -/
def TmailAnonRegistrationV1.class (reg : TmailAnonRegistrationV1) : Str :=
  toAsciiLowercase reg.commitmentHex

/-- The 32 bytes of the commitment: the leaf of the row. -/
def TmailAnonRegistrationV1.commitment (reg : TmailAnonRegistrationV1) : Option Bytes :=
  (hexDecode (trim reg.commitmentHex)).filter fun b => b.length == 32

/-- What `verify_tmail_anon_registration_v1` checks of the wallet and the commitment. -/
def Admissible (reg : TmailAnonRegistrationV1) : Prop :=
  isHex64 reg.wallet = true ∧ isHex64 (trim reg.commitmentHex) = true

/-- A registration that reaches the node, at its clock. -/
structure AnonDelivery where
  atMs : Nat
  reg : TmailAnonRegistrationV1

/-- The store after deliveries. -/
def deliverAll (E : Vars) (d : List AnonDelivery) (s : AnonStore) : AnonStore :=
  d.foldl (fun s x => (registerAnon E x.atMs x.reg s).2) s

/-- Deliveries of the registrations, all of them and no others, a wallet's at least the update
cooldown apart. -/
structure Delivers (E : Vars) (regs : List TmailAnonRegistrationV1) (d : List AnonDelivery) :
    Prop where
  covers : Covers regs (d.map AnonDelivery.reg)
  apart : d.Pairwise fun x y => x.reg.wallet = y.reg.wallet → x.atMs + E.updateCooldownMs ≤ y.atMs

/-- The member cap is not reached. -/
def Fit (E : Vars) (regs : List TmailAnonRegistrationV1) : Prop :=
  (regs.map TmailAnonRegistrationV1.wallet).dedup.length ≤ E.maxMembers

/-- The commitment registered for a wallet. -/
def AnonStore.registered (s : AnonStore) (wallet : Str) : Option (Option Bytes) :=
  (s.anonRegistry.get wallet).map StoredAnonRegistration.leaf

/-- Any two nodes that received everything: the same commitment for every wallet, and the same root of
every epoch that begins after the last delivery. -/
def Converges (E : Vars) (W : World) (regs : List TmailAnonRegistrationV1) : Prop :=
  ∀ d₁ d₂, Delivers E regs d₁ → Delivers E regs d₂ →
    (∀ wallet, (deliverAll E d₁ AnonStore.new).registered wallet =
      (deliverAll E d₂ AnonStore.new).registered wallet) ∧
    ∀ epoch, (∀ x ∈ d₁ ++ d₂, E.anonEpochIndex x.atMs < epoch) →
      anonTreeRoot E W (deliverAll E d₁ AnonStore.new) epoch =
        anonTreeRoot E W (deliverAll E d₂ AnonStore.new) epoch

/-- A registration of the wallet, the earliest of its commitment, agrees with all that are not
older. -/
def Decided (regs : List TmailAnonRegistrationV1) (wallet : Str) : Prop :=
  ∃ x ∈ regs, x.wallet = wallet ∧
    (∀ y ∈ regs, y.wallet = wallet → y.class = x.class → x.registeredAtMs ≤ y.registeredAtMs) ∧
    ∀ y ∈ regs, y.wallet = wallet → x.registeredAtMs ≤ y.registeredAtMs →
      y.commitment = x.commitment

/-- A row settled by registrations. -/
def settleReg : Option TmailAnonRegistrationV1 → TmailAnonRegistrationV1 →
    Option TmailAnonRegistrationV1 :=
  settle TmailAnonRegistrationV1.class TmailAnonRegistrationV1.registeredAtMs

/-! ## One delivery -/

section Steps

variable {E : Vars} {W : World} {now : Nat} {s : AnonStore} {reg : TmailAnonRegistrationV1}
  {wallet : Str} {regs : List TmailAnonRegistrationV1} {d : List AnonDelivery}

/-- The registration of a wallet's row. -/
def AnonStore.row (s : AnonStore) (wallet : Str) : Option TmailAnonRegistrationV1 :=
  (s.anonRegistry.get wallet).map StoredAnonRegistration.registration

/-- `register_anon` of a wallet past its cooldown, with room for it. -/
theorem row_registerAnon_self (hhex : isHex64 reg.wallet = true)
    (hroom : s.anonRegistry.get reg.wallet = none → s.anonRegistry.iter.length < E.maxMembers)
    (hcool : ∀ prev, s.anonRegistry.get reg.wallet = some prev →
      prev.admittedAtMs + E.updateCooldownMs ≤ now) :
    (registerAnon E now reg s).2.row reg.wallet = settleReg (s.row reg.wallet) reg := by
  have hclass : ∀ prev : StoredAnonRegistration,
      eqIgnoreAsciiCase prev.registration.commitmentHex reg.commitmentHex = true ↔
        prev.registration.class = reg.class := fun prev => beq_iff_eq
  unfold TmailAnonRegistrationV1.wallet at *
  unfold registerAnon AnonStore.row
  rw [if_neg (by rw [hhex]; decide)]
  cases hget : s.anonRegistry.get (trimLower reg.walletId) with
  | none =>
    simp only
    rw [if_neg (Nat.not_le.mpr (hroom hget))]
    show ((s.anonRegistry.insert _ _).get _).map _ = _
    rw [Tree.get_insert_self]
    rfl
  | some prev =>
    simp only
    by_cases hdup : eqIgnoreAsciiCase prev.registration.commitmentHex reg.commitmentHex = true
    · rw [if_pos hdup, hget]
      exact (settle_same ((hclass prev).mp hdup)).symm
    have hne : prev.registration.class ≠ reg.class := fun h => hdup ((hclass prev).mpr h)
    by_cases hstale : prev.registration.registeredAtMs > reg.registeredAtMs
    · rw [if_neg hdup, if_pos hstale, hget]
      exact (settle_older hne hstale).symm
    · have hlate : ¬ now - prev.admittedAtMs < E.updateCooldownMs := by
        have := hcool prev hget
        omega
      rw [if_neg hdup, if_neg hstale, if_neg hlate]
      show ((s.anonRegistry.insert _ _).get _).map _ = _
      rw [Tree.get_insert_self]
      exact (settle_newer hne (Nat.not_lt.mp hstale)).symm

/-- `register_anon` leaves the rows of the other wallets, and admits a wallet only at the clock. -/
theorem get_registerAnon (E : Vars) (now : Nat) (reg : TmailAnonRegistrationV1) (s : AnonStore)
    (wallet : Str) :
    (registerAnon E now reg s).2.anonRegistry.get wallet = s.anonRegistry.get wallet ∨
      wallet = reg.wallet ∧
        (registerAnon E now reg s).2.anonRegistry.get wallet = some ⟨reg, now⟩ := by
  rcases registerAnon_cases E now reg s with heq | ⟨heq, -⟩
  · exact Or.inl (by rw [heq])
  · rw [heq]
    by_cases hw : reg.wallet = wallet
    · subst hw
      exact Or.inr ⟨rfl, Tree.get_insert_self _ _ _⟩
    · exact Or.inl (Tree.get_insert_ne hw)

theorem row_registerAnon_ne (h : reg.wallet ≠ wallet) :
    (registerAnon E now reg s).2.row wallet = s.row wallet := by
  unfold AnonStore.row
  rcases get_registerAnon E now reg s wallet with heq | ⟨hw, -⟩
  · rw [heq]
  · exact absurd hw.symm h

/-! ## All deliveries -/

/-- The rows are of wallets among `wallets`, and every delivery to come is past their cooldown. -/
structure Ready (E : Vars) (wallets : List Str) (d : List AnonDelivery) (s : AnonStore) : Prop where
  known : ∀ w row, s.anonRegistry.get w = some row → w ∈ wallets
  cool : ∀ w row, s.anonRegistry.get w = some row → ∀ x ∈ d, x.reg.wallet = w →
    row.admittedAtMs + E.updateCooldownMs ≤ x.atMs

/-- Keys of a tree among `wallets`, with another one missing. -/
theorem iter_length_lt {V : Type} {t : Tree Str V} {wallets : List Str}
    (hknown : ∀ w v, t.get w = some v → w ∈ wallets) (hnone : t.get wallet = none)
    (hmem : wallet ∈ wallets) : t.iter.length < wallets.length := by
  have hnodup : (wallet :: t.iter.map Prod.fst).Nodup := by
    refine List.nodup_cons.mpr ⟨fun hin => ?_, t.keys_nodup⟩
    obtain ⟨⟨k, v⟩, hkv, hk⟩ := List.mem_map.mp hin
    rw [← hk, Tree.mem_iter.mp hkv] at hnone
    cases hnone
  have hsub : wallet :: t.iter.map Prod.fst ⊆ wallets := by
    intro w hw
    rcases List.mem_cons.mp hw with rfl | hw
    · exact hmem
    · obtain ⟨⟨k, v⟩, hkv, hk⟩ := List.mem_map.mp hw
      exact hk ▸ hknown k v (Tree.mem_iter.mp hkv)
  have hle := (List.subperm_of_subset hnodup hsub).length_le
  rw [List.length_cons, List.length_map] at hle
  exact hle

theorem Ready.register {x : AnonDelivery} {wallets : List Str} (h : Ready E wallets (x :: d) s)
    (hmem : x.reg.wallet ∈ wallets)
    (hapart : ∀ y ∈ d, x.reg.wallet = y.reg.wallet → x.atMs + E.updateCooldownMs ≤ y.atMs) :
    Ready E wallets d (registerAnon E x.atMs x.reg s).2 := by
  constructor
  · intro w row hrow
    rcases get_registerAnon E x.atMs x.reg s w with heq | ⟨rfl, -⟩
    · exact h.known w row (heq ▸ hrow)
    · exact hmem
  · intro w row hrow y hy hyw
    rcases get_registerAnon E x.atMs x.reg s w with heq | ⟨hw, heq⟩
    · exact h.cool w row (heq ▸ hrow) y (List.mem_cons_of_mem _ hy) hyw
    · rw [heq] at hrow
      cases hrow
      exact hapart y hy (hw.symm.trans hyw.symm)

/-- A wallet's registrations. -/
def ofWallet (regs : List TmailAnonRegistrationV1) (wallet : Str) : List TmailAnonRegistrationV1 :=
  regs.filter fun r => r.wallet = wallet

theorem mem_ofWallet : reg ∈ ofWallet regs wallet ↔ reg ∈ regs ∧ reg.wallet = wallet := by
  unfold ofWallet
  rw [List.mem_filter, decide_eq_true_iff]

theorem ofWallet_cons_self : ofWallet (reg :: regs) reg.wallet = reg :: ofWallet regs reg.wallet :=
  List.filter_cons_of_pos (decide_eq_true rfl)

theorem ofWallet_cons_ne (h : reg.wallet ≠ wallet) :
    ofWallet (reg :: regs) wallet = ofWallet regs wallet :=
  List.filter_cons_of_neg fun hw => h (of_decide_eq_true hw)

/-- A wallet's row is settled by its registrations, in the order of their arrival. -/
theorem row_deliverAll {wallets : List Str} (hfit : wallets.length ≤ E.maxMembers) :
    ∀ (d : List AnonDelivery) {s : AnonStore}, Ready E wallets d s →
    (∀ x ∈ d, isHex64 x.reg.wallet = true ∧ x.reg.wallet ∈ wallets) →
    (d.Pairwise fun x y => x.reg.wallet = y.reg.wallet → x.atMs + E.updateCooldownMs ≤ y.atMs) →
    ∀ wallet, (deliverAll E d s).row wallet =
      (ofWallet (d.map AnonDelivery.reg) wallet).foldl settleReg (s.row wallet) := by
  intro d
  induction d with
  | nil =>
    intro s _ _ _ wallet
    rfl
  | cons x d ih =>
    intro s hready hd hapart wallet
    obtain ⟨hx, hapart⟩ := List.pairwise_cons.mp hapart
    obtain ⟨hhex, hmem⟩ := hd x List.mem_cons_self
    have hrest := ih (hready.register hmem hx) (fun y hy => hd y (List.mem_cons_of_mem _ hy))
      hapart wallet
    show (deliverAll E d (registerAnon E x.atMs x.reg s).2).row wallet = _
    rw [hrest, List.map_cons]
    by_cases hw : x.reg.wallet = wallet
    · subst hw
      rw [ofWallet_cons_self, List.foldl_cons, row_registerAnon_self hhex
        (fun hnone => (iter_length_lt hready.known hnone hmem).trans_le hfit)
        (fun prev hprev => hready.cool _ prev hprev x List.mem_cons_self rfl)]
    · rw [ofWallet_cons_ne hw, row_registerAnon_ne hw]

/-- What a row was admitted at is when a registration arrived. -/
theorem admitted_deliverAll : ∀ (d : List AnonDelivery) {s : AnonStore} {w : Str}
    {row : StoredAnonRegistration}, (deliverAll E d s).anonRegistry.get w = some row →
    s.anonRegistry.get w = some row ∨ ∃ x ∈ d, row.admittedAtMs = x.atMs := by
  intro d
  induction d with
  | nil =>
    intro s w row h
    exact Or.inl h
  | cons x d ih =>
    intro s w row h
    rcases ih (s := (registerAnon E x.atMs x.reg s).2) h with hrow | ⟨y, hy, hat⟩
    · rcases get_registerAnon E x.atMs x.reg s w with heq | ⟨-, heq⟩
      · exact Or.inl (heq ▸ hrow)
      · rw [heq] at hrow
        cases hrow
        exact Or.inr ⟨x, List.mem_cons_self, rfl⟩
    · exact Or.inr ⟨y, List.mem_cons_of_mem _ hy, hat⟩

theorem get_new (wallet : Str) : AnonStore.new.anonRegistry.get wallet = none :=
  Tree.get_empty wallet

theorem ready_new (wallets : List Str) (d : List AnonDelivery) :
    Ready E wallets d AnonStore.new := by
  constructor
  · intro w row h
    rw [get_new] at h
    cases h
  · intro w row h
    rw [get_new] at h
    cases h

/-- What deliveries of registrations leave in a wallet's row. -/
theorem row_of_delivers (hregs : ∀ reg ∈ regs, Admissible reg) (hfit : Fit E regs)
    (hd : Delivers E regs d) (wallet : Str) :
    (deliverAll E d AnonStore.new).row wallet =
      (ofWallet (d.map AnonDelivery.reg) wallet).foldl settleReg none := by
  have hmem : ∀ x ∈ d, x.reg ∈ regs := fun x hx =>
    (hd.covers x.reg).mp (List.mem_map_of_mem hx)
  have hrow := row_deliverAll hfit d (ready_new _ d)
    (fun x hx => ⟨(hregs _ (hmem x hx)).1,
      List.mem_dedup.mpr (List.mem_map_of_mem (hmem x hx))⟩) hd.apart wallet
  rw [hrow, show AnonStore.new.row wallet = none from congrArg (Option.map _) (get_new wallet)]

theorem registered_eq (s : AnonStore) (wallet : Str) :
    s.registered wallet = (s.row wallet).map TmailAnonRegistrationV1.commitment := by
  unfold AnonStore.registered AnonStore.row
  rw [Option.map_map]
  rfl

theorem covers_ofWallet {l : List TmailAnonRegistrationV1} (h : Covers regs l) (wallet : Str) :
    Covers (ofWallet regs wallet) (ofWallet l wallet) := by
  intro x
  rw [mem_ofWallet, mem_ofWallet, h x]

/-! ## An order for every list -/

/-- Deliveries of a list in its order, the cooldown apart. -/
def stamp (E : Vars) : Nat → List TmailAnonRegistrationV1 → List AnonDelivery
  | _, [] => []
  | t, r :: l => ⟨t, r⟩ :: stamp E (t + E.updateCooldownMs) l

theorem map_reg_stamp : ∀ (l : List TmailAnonRegistrationV1) (t : Nat),
    (stamp E t l).map AnonDelivery.reg = l := by
  intro l
  induction l with
  | nil =>
    intro t
    rfl
  | cons r l ih =>
    intro t
    exact congrArg (r :: ·) (ih _)

theorem stamp_apart : ∀ (l : List TmailAnonRegistrationV1) (t : Nat),
    (∀ x ∈ stamp E t l, t ≤ x.atMs) ∧
      (stamp E t l).Pairwise fun x y => x.atMs + E.updateCooldownMs ≤ y.atMs := by
  intro l
  induction l with
  | nil =>
    intro t
    exact ⟨fun x hx => absurd hx List.not_mem_nil, List.Pairwise.nil⟩
  | cons r l ih =>
    intro t
    obtain ⟨hle, hpair⟩ := ih (t + E.updateCooldownMs)
    refine ⟨fun x hx => ?_, List.pairwise_cons.mpr ⟨hle, hpair⟩⟩
    rcases List.mem_cons.mp hx with rfl | hx
    · exact Nat.le_refl _
    · exact Nat.le_trans (Nat.le_add_right _ _) (hle x hx)

/-- Every order of a wallet's registrations is part of an order of all. -/
theorem exists_delivers {l : List TmailAnonRegistrationV1} (h : Covers (ofWallet regs wallet) l) :
    ∃ d, Delivers E regs d ∧ ofWallet (d.map AnonDelivery.reg) wallet = l := by
  have hother : ∀ x, x ∈ regs.filter (fun r => r.wallet ≠ wallet) ↔ x ∈ regs ∧ x.wallet ≠ wallet := by
    intro x
    rw [List.mem_filter, decide_eq_true_iff]
  refine ⟨stamp E 0 (l ++ regs.filter fun r => r.wallet ≠ wallet), ⟨fun x => ?_, ?_⟩, ?_⟩
  · rw [map_reg_stamp, List.mem_append, h x, mem_ofWallet, hother]
    constructor
    · rintro (hx | hx)
      · exact hx.1
      · exact hx.1
    · intro hx
      by_cases hw : x.wallet = wallet
      · exact Or.inl ⟨hx, hw⟩
      · exact Or.inr ⟨hx, hw⟩
  · refine (stamp_apart _ 0).2.imp ?_
    intro x y hxy _
    exact hxy
  · rw [map_reg_stamp]
    unfold ofWallet
    rw [List.filter_append, List.filter_eq_self.mpr, List.filter_eq_nil_iff.mpr, List.append_nil]
    · intro x hx
      rw [decide_eq_true_iff]
      exact ((hother x).mp hx).2
    · intro x hx
      exact decide_eq_true (mem_ofWallet.mp ((h x).mp hx)).2

/-! ## Convergence -/

/-- The same commitments give the same leaves of an epoch after every delivery. -/
theorem leaves_of_registered {d₁ d₂ : List AnonDelivery} {epoch : Nat}
    (hsame : ∀ w, (deliverAll E d₁ AnonStore.new).registered w =
      (deliverAll E d₂ AnonStore.new).registered w)
    (hafter : ∀ x ∈ d₁ ++ d₂, E.anonEpochIndex x.atMs < epoch) :
    anonLeavesForEpoch E epoch (deliverAll E d₁ AnonStore.new) =
      anonLeavesForEpoch E epoch (deliverAll E d₂ AnonStore.new) := by
  -- every row was admitted in an epoch before
  have hleaf : ∀ d, (∀ x ∈ d, E.anonEpochIndex x.atMs < epoch) → ∀ w,
      ((deliverAll E d AnonStore.new).anonRegistry.get w).bind (leafForEpoch E epoch) =
        ((deliverAll E d AnonStore.new).registered w).bind id := by
    intro d hd w
    unfold AnonStore.registered
    cases hrow : (deliverAll E d AnonStore.new).anonRegistry.get w with
    | none => rfl
    | some row =>
      rcases admitted_deliverAll d hrow with hnew | ⟨x, hx, hat⟩
      · rw [get_new] at hnew
        cases hnew
      · show leafForEpoch E epoch row = row.leaf
        unfold leafForEpoch
        rw [if_neg (Nat.not_le.mpr (hat ▸ hd x hx))]
  unfold anonLeavesForEpoch
  refine Tree.filterMap_iter_congr (f := fun _ r => leafForEpoch E epoch r) fun w => ?_
  show Option.bind _ (leafForEpoch E epoch) = Option.bind _ (leafForEpoch E epoch)
  rw [hleaf d₁ (fun x hx => hafter x (List.mem_append_left _ hx)) w,
    hleaf d₂ (fun x hx => hafter x (List.mem_append_right _ hx)) w, hsame w]

/-- The rows of a wallet with a registration agree in all orders iff the wallet is decided. -/
theorem decided_iff (hregs : ∀ reg ∈ regs, Admissible reg) (hfit : Fit E regs)
    (hmem : reg ∈ regs) :
    (∀ d₁ d₂, Delivers E regs d₁ → Delivers E regs d₂ →
      (deliverAll E d₁ AnonStore.new).registered reg.wallet =
        (deliverAll E d₂ AnonStore.new).registered reg.wallet) ↔ Decided regs reg.wallet := by
  have hne : ofWallet regs reg.wallet ≠ [] :=
    List.ne_nil_of_mem (mem_ofWallet.mpr ⟨hmem, rfl⟩)
  have hend : ∀ d, Delivers E regs d →
      (deliverAll E d AnonStore.new).registered reg.wallet =
        ((ofWallet (d.map AnonDelivery.reg) reg.wallet).foldl settleReg none).map
          TmailAnonRegistrationV1.commitment := fun d hd => by
    rw [registered_eq, row_of_delivers hregs hfit hd]
  have hdecided : Decided regs reg.wallet ↔ ∃ x,
      EarliestOfClass TmailAnonRegistrationV1.class TmailAnonRegistrationV1.registeredAtMs
        (ofWallet regs reg.wallet) x ∧ ∀ y ∈ ofWallet regs reg.wallet,
          x.registeredAtMs ≤ y.registeredAtMs → y.commitment = x.commitment := by
    constructor
    · rintro ⟨x, hx, hw, hearliest, hagree⟩
      refine ⟨x, ⟨mem_ofWallet.mpr ⟨hx, hw⟩, fun y hy => ?_⟩, fun y hy => ?_⟩
      · exact hearliest y (mem_ofWallet.mp hy).1 (mem_ofWallet.mp hy).2
      · exact hagree y (mem_ofWallet.mp hy).1 (mem_ofWallet.mp hy).2
    · rintro ⟨x, ⟨hx, hearliest⟩, hagree⟩
      refine ⟨x, (mem_ofWallet.mp hx).1, (mem_ofWallet.mp hx).2, fun y hy hw => ?_,
        fun y hy hw => ?_⟩
      · exact hearliest y (mem_ofWallet.mpr ⟨hy, hw⟩)
      · exact hagree y (mem_ofWallet.mpr ⟨hy, hw⟩)
  rw [hdecided, ← converges_iff hne]
  constructor
  · intro h l₁ l₂ hl₁ hl₂
    obtain ⟨d₁, hd₁, rfl⟩ := exists_delivers hl₁
    obtain ⟨d₂, hd₂, rfl⟩ := exists_delivers hl₂
    have hsame := h d₁ d₂ hd₁ hd₂
    rw [hend d₁ hd₁, hend d₂ hd₂] at hsame
    exact hsame
  · intro h d₁ d₂ hd₁ hd₂
    rw [hend d₁ hd₁, hend d₂ hd₂]
    exact h _ _ (covers_ofWallet hd₁.covers _) (covers_ofWallet hd₂.covers _)

end Steps

end TetCore.Tmail

namespace TetCore.Sample

open TetCore.Lib TetCore.Tmail

/-- The registration of a commitment at a time. -/
def announced (c : Char) (atMs : Nat) : TmailAnonRegistrationV1 :=
  { registration 'a' c with registeredAtMs := atMs }

/-- A wallet moves to another commitment and back. -/
def announcedAgain : List TmailAnonRegistrationV1 :=
  [announced '1' 1000, announced '2' 2000, announced '1' 3000]

/-- The deliveries in this order. -/
def inOrder : List AnonDelivery := stamp {} 0 announcedAgain

/-- The deliveries with the second commitment last. -/
def outOfOrder : List AnonDelivery :=
  stamp {} 0 [announced '1' 1000, announced '1' 3000, announced '2' 2000]

end TetCore.Sample

namespace TetCore.Tmail

/-- **The registry converges exactly when the times decide.** For verified registrations within the
member cap: any two nodes that received all of them, in any orders, with repeats, a wallet's at least
the update cooldown apart, hold the same commitment for every wallet and compute the same root of
every epoch after the last delivery, iff every registered wallet has a registration, the earliest of
its commitment, that agrees with every registration of the wallet that is not older. -/
theorem anon_converges_iff {E : Vars} (W : World) {regs : List TmailAnonRegistrationV1}
    (hregs : ∀ reg ∈ regs, Admissible reg) (hfit : Fit E regs) :
    Converges E W regs ↔ ∀ reg ∈ regs, Decided regs reg.wallet := by
  constructor
  · intro h reg hmem
    exact (decided_iff hregs hfit hmem).mp fun d₁ d₂ hd₁ hd₂ => (h d₁ d₂ hd₁ hd₂).1 reg.wallet
  · intro h d₁ d₂ hd₁ hd₂
    have hsame : ∀ wallet, (deliverAll E d₁ AnonStore.new).registered wallet =
        (deliverAll E d₂ AnonStore.new).registered wallet := by
      intro wallet
      by_cases hw : ∃ reg ∈ regs, reg.wallet = wallet
      · obtain ⟨reg, hmem, rfl⟩ := hw
        exact (decided_iff hregs hfit hmem).mpr (h reg hmem) d₁ d₂ hd₁ hd₂
      · -- no registration is of the wallet
        have hnone : ∀ d, Delivers E regs d →
            (deliverAll E d AnonStore.new).registered wallet = none := by
          intro d hd
          have hempty : ofWallet (d.map AnonDelivery.reg) wallet = [] :=
            List.eq_nil_iff_forall_not_mem.mpr fun x hx =>
              hw ⟨x, (hd.covers x).mp (mem_ofWallet.mp hx).1, (mem_ofWallet.mp hx).2⟩
          rw [registered_eq, row_of_delivers hregs hfit hd, hempty]
          rfl
        rw [hnone d₁ hd₁, hnone d₂ hd₂]
    refine ⟨hsame, fun epoch hafter => ?_⟩
    unfold anonTreeRoot
    rw [leaves_of_registered hsame hafter]

/-- A wallet with two commitments, another with one: the later commitment decides. -/
theorem anon_converges_twoWallets :
    Converges {} (World.sample 0)
      [Sample.announced '1' 1000, Sample.announced '2' 2000, Sample.registration 'b' '3'] := by
  refine (anon_converges_iff (World.sample 0) ?_ ?_).mpr ?_
  · unfold Admissible
    decide +kernel
  · unfold Fit
    decide +kernel
  · unfold Decided
    decide +kernel

/-- A commitment announced again: in order the row keeps it, out of order the other one stays. -/
theorem anon_diverges :
    ¬ ∀ (E : Vars) (W : World) (regs : List TmailAnonRegistrationV1),
      (∀ reg ∈ regs, Admissible reg) → Fit E regs → Converges E W regs := by
  intro h
  have hregs : ∀ reg ∈ Sample.announcedAgain, Admissible reg := by
    unfold Admissible
    decide +kernel
  have hfit : Fit {} Sample.announcedAgain := by
    unfold Fit
    decide +kernel
  have hcovers : ∀ x, x ∈ Sample.outOfOrder.map AnonDelivery.reg ↔ x ∈ Sample.announcedAgain := by
    intro x
    show x ∈ [_, _, _] ↔ x ∈ [_, _, _]
    simp only [List.mem_cons, List.not_mem_nil, or_false]
    constructor
    · rintro (h | h | h)
      · exact Or.inl h
      · exact Or.inr (Or.inr h)
      · exact Or.inr (Or.inl h)
    · rintro (h | h | h)
      · exact Or.inl h
      · exact Or.inr (Or.inr h)
      · exact Or.inr (Or.inl h)
  have hin : Delivers {} Sample.announcedAgain Sample.inOrder :=
    ⟨fun _ => Iff.rfl, by decide +kernel⟩
  have hout : Delivers {} Sample.announcedAgain Sample.outOfOrder := ⟨hcovers, by decide +kernel⟩
  have hsame := (h {} (World.sample 0) _ hregs hfit _ _ hin hout).1 (List.replicate 64 'a')
  have hdiff : (deliverAll {} Sample.inOrder AnonStore.new).registered (List.replicate 64 'a') ≠
      (deliverAll {} Sample.outOfOrder AnonStore.new).registered (List.replicate 64 'a') := by
    decide +kernel
  exact hdiff hsame

end TetCore.Tmail
