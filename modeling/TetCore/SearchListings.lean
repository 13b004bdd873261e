import TetCore.AuthMessages
import TetCore.Lib.Along
import TetCore.Tmail.Members

/-!
# Search listings

Model of `SearchStore` (`search.rs`): the listing of each site, and how many listings each member made on
each UTC day. A listing is signed by the member and by the site's key, over the site, the member and the
time; it may be sent by anybody, any number of times, while its time is within the skew.

The calls are one after the other, as the lock is held from the count to the writes. The listings tree
holds a listing for its JSON text. Left out: failures of the database.

* `list_cases`: what a call does.
* `Lawful`: a listing that was accepted before changes nothing, the latest one of a site is stored, and a
  member has at most five a day. `Tidy`: a call that passes is of no listing accepted before, and of none
  older than the stored one.
* `listings_lawful_iff`: along a run every call is lawful exactly if every call is tidy.
* `Inv.served`: so what is served of a site is the latest.
* `listing_replayed`: a copy of a listing takes one of the member's five, and takes a renewal back.
-/

namespace TetCore.Search

open TetCore.Lib TetCore.Tmail

/-! ## Listings -/

/-- `LISTING_KIND`. -/
def listingKind : Str := "tet search list".toList

/-- `LISTING_SKEW_MS`. -/
def listingSkewMs : Nat := 5 * 60000

/-- `LISTINGS_PER_MEMBER_PER_DAY`. -/
def listingsPerMemberPerDay : Nat := 5

inductive ListingRefusal where
  | off
  | badRequest (reason : Str)
  | clockOff
  | badSignature (who : Str)
  | noSuchSite
  | notAMember
  | dailyCap
  deriving DecidableEq

namespace ListingRefusal

def status : ListingRefusal → Nat
  | .off | .noSuchSite => 404
  | .badRequest _ | .clockOff => 400
  | .badSignature _ => 401
  | .notAMember => 403
  | .dailyCap => 429

def reason : ListingRefusal → Str
  | .off => "TetSearch is not open on this node (it needs Shelter)".toList
  | .badRequest r => r
  | .clockOff => "your device clock is off: set it to the right time and try again".toList
  | .badSignature who => "the ".toList ++ who ++ "'s signature doesn't verify".toList
  | .noSuchSite => "this node has no such site".toList
  | .notAMember => ("only vouched members can publish to TetSearch: keys without a human vouch " ++
      "can't publish").toList
  | .dailyCap => "that's today's ".toList ++ Json.decimal listingsPerMemberPerDay ++
      " listings; try again tomorrow".toList

end ListingRefusal

/-- The site a listing is of. -/
def site (l : SearchListingV1) : Str := trimLower l.siteWalletId

/-- The member who lists it. -/
def member (l : SearchListingV1) : Str := trimLower l.memberWalletId

/-- The listing as it is stored. -/
def stored (l : SearchListingV1) : SearchListingV1 :=
  { l with siteWalletId := site l, memberWalletId := member l }

/-- What both signatures of a listing are over, but for the keys. -/
def signedPart (l : SearchListingV1) : Str × Str × Nat := (site l, member l, l.listedAtMs)

/-- A call of `list`: the listing, the node's clock, and the node's view of members and sites. -/
structure ListCall where
  listing : SearchListingV1
  nowMs : Nat
  isMember : Str → Bool
  siteExists : Str → Bool

/-- The UTC day of a call. -/
def ListCall.day (c : ListCall) : Nat := c.nowMs / 86400000

section Checks

variable (A : Auth)

/-- One round of the loop over the signatures. -/
def checkSignature (l : SearchListingV1) (who : Str) (sig : TmailHybridSig) (wallet : Str) :
    Except ListingRefusal Unit :=
  if trimLower sig.ed25519PubkeyHex ≠ wallet then .error (.badSignature who)
  else match verifyHybrid A wallet sig (listingAuthMessageBytes A l sig.mldsaPubkeyB64) with
    | .error _ => .error (.badSignature who)
    | .ok () => .ok ()

/-- The checks of `list` before the lock. -/
def checkListing (c : ListCall) : Except ListingRefusal Unit :=
  let l := c.listing
  if l.v ≠ 1 ∨ l.kind ≠ listingKind then .error (.badRequest "unsupported listing".toList)
  else if !isHex64 (site l) || !isHex64 (member l) then
    .error (.badRequest "site and member are 64 hex".toList)
  else if listingSkewMs < max l.listedAtMs c.nowMs - min l.listedAtMs c.nowMs then .error .clockOff
  else match checkSignature A l "member".toList l.memberSig (member l) with
    | .error e => .error e
    | .ok () =>
      match checkSignature A l "site".toList l.siteSig (site l) with
      | .error e => .error e
      | .ok () =>
        if !c.siteExists (site l) then .error .noSuchSite
        else if !c.isMember (member l) then .error .notAMember
        else .ok ()

end Checks

/-! ## The store -/

/-- `SearchStore`. -/
structure SearchStore where
  listings : Tree Str SearchListingV1
  daily : Tree Str Nat

namespace SearchStore

/-- `SearchStore::open`, of a new database. -/
def empty : SearchStore := ⟨.empty, .empty⟩

/-- `format!("{member}|{day}")`. -/
def dailyKey (member : Str) (day : Nat) : Str := member ++ '|' :: Json.decimal day

/-- The listings the member made on the day. -/
def used (s : SearchStore) (member : Str) (day : Nat) : Nat :=
  (s.daily.get (dailyKey member day)).getD 0

/-- `list`. -/
def list (A : Auth) (s : SearchStore) (c : ListCall) : Except ListingRefusal Unit × SearchStore :=
  match checkListing A c with
  | .error e => (.error e, s)
  | .ok () =>
    let used := s.used (member c.listing) c.day
    if listingsPerMemberPerDay ≤ used then (.error .dailyCap, s)
    else (.ok (),
      { listings := s.listings.insert (site c.listing) (stored c.listing)
        daily := s.daily.insert (dailyKey (member c.listing) c.day) (used + 1) })

/-- `current`: what is served, newest first. -/
def current (s : SearchStore) (isMember siteExists : Str → Bool) : List SearchListingV1 :=
  ((s.listings.iter.map Prod.snd).filter fun l =>
    isMember l.memberWalletId && siteExists l.siteWalletId).insertionSort
      fun a b => b.listedAtMs ≤ a.listedAtMs

end SearchStore

/-! ## Runs -/

/-- The store after a run of calls, and the listings accepted in it, each with its day. -/
structure ListTrace where
  store : SearchStore
  accepted : List (SearchListingV1 × Nat)

namespace ListTrace

def start : ListTrace := ⟨.empty, []⟩

variable (A : Auth)

/-- One call. -/
def step (s : ListTrace) (c : ListCall) : ListTrace where
  store := (s.store.list A c).2
  accepted := match (s.store.list A c).1 with
    | .ok () => s.accepted ++ [(stored c.listing, c.day)]
    | .error _ => s.accepted

/-- The listing was accepted before, under whatever spelling. -/
def Known (s : ListTrace) (l : SearchListingV1) : Prop :=
  ∃ a ∈ s.accepted, signedPart a.1 = signedPart l

/-- A site has the latest of its accepted listings stored, and none if it has none. -/
def StoresLatest (s : ListTrace) : Prop :=
  ∀ w, (s.store.listings.get w = none → ∀ a ∈ s.accepted, site a.1 ≠ w) ∧
    ∀ x, s.store.listings.get w = some x → (∃ day, (x, day) ∈ s.accepted) ∧ site x = w ∧
      ∀ a ∈ s.accepted, site a.1 = w → a.1.listedAtMs ≤ x.listedAtMs

/-- The accepted listings of a member on a day. -/
def acceptedOf (s : ListTrace) (w : Str) (day : Nat) : List (SearchListingV1 × Nat) :=
  s.accepted.filter fun a => member a.1 == w && a.2 == day

/-- **What a call must do.** -/
structure Lawful (s : ListTrace) (c : ListCall) : Prop where
  replayed : s.Known c.listing → (s.step A c).store = s.store
  latest : (s.step A c).StoresLatest
  perDay : ∀ w day, (((s.step A c).acceptedOf w day).map fun a => signedPart a.1).dedup.length ≤
    listingsPerMemberPerDay
  refused : ∀ e, (s.store.list A c).1 = .error e → (s.step A c).store = s.store

/-- The checks of `list`, one by one. -/
structure Passes (c : ListCall) : Prop where
  version : c.listing.v = 1 ∧ c.listing.kind = listingKind
  siteHex : isHex64 (site c.listing) = true
  memberHex : isHex64 (member c.listing) = true
  clock : max c.listing.listedAtMs c.nowMs - min c.listing.listedAtMs c.nowMs ≤ listingSkewMs
  memberKey : trimLower c.listing.memberSig.ed25519PubkeyHex = member c.listing
  memberSig : verifyHybrid A (member c.listing) c.listing.memberSig
    (listingAuthMessageBytes A c.listing c.listing.memberSig.mldsaPubkeyB64) = .ok ()
  siteKey : trimLower c.listing.siteSig.ed25519PubkeyHex = site c.listing
  siteSig : verifyHybrid A (site c.listing) c.listing.siteSig
    (listingAuthMessageBytes A c.listing c.listing.siteSig.mldsaPubkeyB64) = .ok ()
  siteExists : c.siteExists (site c.listing) = true
  isMember : c.isMember (member c.listing) = true

/-- A call that passes, of a member with listings left, is of no listing accepted before and of none
older than the one that is stored. -/
def Tidy (s : ListTrace) (c : ListCall) : Prop :=
  Passes A c → s.store.used (member c.listing) c.day < listingsPerMemberPerDay →
    ¬ s.Known c.listing ∧ ∀ x, s.store.listings.get (site c.listing) = some x →
      x.listedAtMs ≤ c.listing.listedAtMs

end ListTrace

/-! ## One call -/

section Call

open ListTrace

variable {A : Auth} {c : ListCall}

theorem checkSignature_ok_iff {l : SearchListingV1} {who : Str} {sig : TmailHybridSig} {wallet : Str} :
    checkSignature A l who sig wallet = .ok () ↔ trimLower sig.ed25519PubkeyHex = wallet ∧
      verifyHybrid A wallet sig (listingAuthMessageBytes A l sig.mldsaPubkeyB64) = .ok () := by
  unfold checkSignature
  by_cases hkey : trimLower sig.ed25519PubkeyHex = wallet
  · rw [if_neg (not_not.mpr hkey)]
    cases verifyHybrid A wallet sig (listingAuthMessageBytes A l sig.mldsaPubkeyB64) with
    | error e => exact iff_of_false (fun h => by cases h) (fun h => by cases h.2)
    | ok u => exact iff_of_true rfl ⟨hkey, rfl⟩
  · rw [if_pos hkey]
    exact iff_of_false (fun h => by cases h) (fun h => hkey h.1)

/-- The checks let a call through exactly if it passes each. -/
theorem checkListing_ok_iff : checkListing A c = .ok () ↔ Passes A c := by
  unfold checkListing
  dsimp only
  constructor
  · intro h
    by_cases hversion : c.listing.v ≠ 1 ∨ c.listing.kind ≠ listingKind
    · rw [if_pos hversion] at h
      cases h
    rw [if_neg hversion] at h
    by_cases hhex : (!isHex64 (site c.listing) || !isHex64 (member c.listing)) = true
    · rw [if_pos hhex] at h
      cases h
    rw [if_neg hhex] at h
    simp only [Bool.or_eq_true, Bool.not_eq_true', not_or, Bool.not_eq_false] at hhex
    obtain ⟨hv, hkind⟩ := not_or.mp hversion
    split at h
    · cases h
    rename_i hclock
    split at h
    · cases h
    rename_i hmember
    split at h
    · cases h
    rename_i hsite
    obtain ⟨hmkey, hmsig⟩ := checkSignature_ok_iff.mp hmember
    obtain ⟨hskey, hssig⟩ := checkSignature_ok_iff.mp hsite
    split at h
    · cases h
    rename_i hexists
    split at h
    · cases h
    rename_i hin
    exact ⟨⟨not_not.mp hv, not_not.mp hkind⟩, hhex.1, hhex.2, Nat.le_of_not_lt hclock, hmkey, hmsig,
      hskey, hssig, by simpa using hexists, by simpa using hin⟩
  · intro h
    have hversion : ¬ (c.listing.v ≠ 1 ∨ c.listing.kind ≠ listingKind) := by
      rintro (hv | hkind)
      · exact hv h.version.1
      · exact hkind h.version.2
    rw [if_neg hversion, h.siteHex, h.memberHex, if_neg (by decide), if_neg (Nat.not_lt.mpr h.clock),
      checkSignature_ok_iff.mpr ⟨h.memberKey, h.memberSig⟩]
    dsimp only
    rw [checkSignature_ok_iff.mpr ⟨h.siteKey, h.siteSig⟩]
    dsimp only
    rw [h.siteExists, h.isMember]
    rfl

/-- **What a call does**: one that passes, of a member with listings left, stores its listing and counts
it; any other one is refused and changes nothing. -/
theorem list_cases (A : Auth) (s : SearchStore) (c : ListCall) :
    (Passes A c ∧ s.used (member c.listing) c.day < listingsPerMemberPerDay ∧
      s.list A c = (.ok (),
        { listings := s.listings.insert (site c.listing) (stored c.listing)
          daily := s.daily.insert (SearchStore.dailyKey (member c.listing) c.day)
            (s.used (member c.listing) c.day + 1) })) ∨
      (¬ (Passes A c ∧ s.used (member c.listing) c.day < listingsPerMemberPerDay) ∧
        ∃ e, s.list A c = (.error e, s)) := by
  unfold SearchStore.list
  cases hcheck : checkListing A c with
  | error e =>
    refine Or.inr ⟨fun h => ?_, e, rfl⟩
    rw [checkListing_ok_iff.mpr h.1] at hcheck
    cases hcheck
  | ok u =>
    dsimp only
    by_cases hcap : listingsPerMemberPerDay ≤ s.used (member c.listing) c.day
    · rw [if_pos hcap]
      exact Or.inr ⟨fun h => absurd hcap (Nat.not_le_of_lt h.2), _, rfl⟩
    · rw [if_neg hcap]
      exact Or.inl ⟨checkListing_ok_iff.mp hcheck, Nat.lt_of_not_le hcap, rfl⟩

end Call

/-! ## The accepted listings -/

theorem site_stored (l : SearchListingV1) : site (stored l) = site l := trimLower_trimLower _

theorem member_stored (l : SearchListingV1) : member (stored l) = member l := trimLower_trimLower _

theorem dailyKey_injective {w w' : Str} {day day' : Nat} (hw : isHex64 w = true)
    (hw' : isHex64 w' = true) (h : SearchStore.dailyKey w day = SearchStore.dailyKey w' day') :
    w = w' ∧ day = day' := by
  have hbar : ∀ {v : Str}, isHex64 v = true → '|' ∉ v := by
    intro v hv
    rw [isHex64, Bool.and_eq_true] at hv
    exact notMem_of_hexdigit (by decide) hv.2
  obtain ⟨hmember, hday⟩ := cut_unique (hbar hw) (hbar hw') h
  exact ⟨hmember, Json.decimal_injective hday⟩

namespace ListTrace

variable {A : Auth} {s : ListTrace} {c : ListCall}

/-- The counts are those of the accepted listings, and the latest of them are stored. -/
structure Inv (s : ListTrace) : Prop where
  hex : ∀ a ∈ s.accepted, isHex64 (member a.1) = true
  used : ∀ w day, isHex64 w = true → s.store.used w day = (s.acceptedOf w day).length
  cap : ∀ w day, isHex64 w = true → s.store.used w day ≤ listingsPerMemberPerDay
  latest : s.StoresLatest

theorem inv_start : Inv start where
  hex _ ha := absurd ha List.not_mem_nil
  used w day _ := by
    show ((Tree.empty : Tree Str Nat).get _).getD 0 = _
    rw [Tree.get_empty]
    rfl
  cap w day _ := by
    show ((Tree.empty : Tree Str Nat).get _).getD 0 ≤ _
    rw [Tree.get_empty]
    exact Nat.zero_le _
  latest w := by
    refine ⟨fun _ a ha => absurd ha List.not_mem_nil, fun x hx => ?_⟩
    exact absurd ((Tree.get_empty w).symm.trans hx) (by simp)

/-- No more distinct listings of a member are accepted on a day than it may make. -/
theorem Inv.perDay (h : s.Inv) (w : Str) (day : Nat) :
    ((s.acceptedOf w day).map fun a => signedPart a.1).dedup.length ≤ listingsPerMemberPerDay := by
  by_cases hw : isHex64 w = true
  · have hcount := h.cap w day hw
    rw [h.used w day hw] at hcount
    refine le_trans ?_ hcount
    have hle := (List.dedup_sublist ((s.acceptedOf w day).map fun a => signedPart a.1)).length_le
    rwa [List.length_map] at hle
  · have hnone : s.acceptedOf w day = [] := by
      refine List.filter_eq_nil_iff.mpr fun a ha heq => hw ?_
      rw [Bool.and_eq_true, beq_iff_eq] at heq
      rw [← heq.1]
      exact h.hex a ha
    rw [hnone]
    exact Nat.zero_le _

/-- What an accepted call leaves. -/
structure Stored (s : ListTrace) (c : ListCall) (s' : ListTrace) : Prop where
  listings : s'.store.listings = s.store.listings.insert (site c.listing) (stored c.listing)
  daily : s'.store.daily = s.store.daily.insert (SearchStore.dailyKey (member c.listing) c.day)
    (s.store.used (member c.listing) c.day + 1)
  accepted : s'.accepted = s.accepted ++ [(stored c.listing, c.day)]

theorem step_cases (A : Auth) (s : ListTrace) (c : ListCall) :
    (Passes A c ∧ s.store.used (member c.listing) c.day < listingsPerMemberPerDay ∧
      (s.store.list A c).1 = .ok () ∧ Stored s c (s.step A c)) ∨
      (¬ (Passes A c ∧ s.store.used (member c.listing) c.day < listingsPerMemberPerDay) ∧
        s.step A c = s) := by
  unfold step
  rcases list_cases A s.store c with ⟨hpasses, hused, heq⟩ | ⟨hnot, e, heq⟩
  · rw [heq]
    exact Or.inl ⟨hpasses, hused, rfl, rfl, rfl, rfl⟩
  · rw [heq]
    exact Or.inr ⟨hnot, rfl⟩

/-- The member's count goes up by one. -/
theorem Stored.used_self {s' : ListTrace} (h : Stored s c s') :
    s'.store.used (member c.listing) c.day = s.store.used (member c.listing) c.day + 1 := by
  show (s'.store.daily.get _).getD 0 = _
  rw [h.daily, Tree.get_insert_self, Option.getD_some]

theorem Stored.used_other {s' : ListTrace} (h : Stored s c s') (hc : isHex64 (member c.listing) = true)
    {w : Str} {day : Nat} (hw : isHex64 w = true) (hne : ¬ (member c.listing = w ∧ c.day = day)) :
    s'.store.used w day = s.store.used w day := by
  show (s'.store.daily.get _).getD 0 = _
  rw [h.daily, Tree.get_insert_ne fun heq => hne (dailyKey_injective hc hw heq)]
  rfl

/-- The newest listing of a site is the latest. -/
theorem Stored.latest {s' : ListTrace} (h : Stored s c s') (hlatest : s.StoresLatest)
    (hnewer : ∀ x, s.store.listings.get (site c.listing) = some x →
      x.listedAtMs ≤ c.listing.listedAtMs) : s'.StoresLatest := by
  intro w
  rw [h.listings, h.accepted]
  by_cases hsite : site c.listing = w
  · subst hsite
    rw [Tree.get_insert_self]
    refine ⟨fun hnone => absurd hnone (by simp), fun x hx => ?_⟩
    obtain rfl := Option.some.inj hx
    refine ⟨⟨c.day, List.mem_append_right _ (List.mem_singleton_self _)⟩, site_stored _, ?_⟩
    intro a ha hasite
    rcases List.mem_append.mp ha with ha | ha
    · show a.1.listedAtMs ≤ c.listing.listedAtMs
      cases hget : s.store.listings.get (site c.listing) with
      | none => exact absurd hasite ((hlatest _).1 hget a ha)
      | some x => exact (((hlatest _).2 x hget).2.2 a ha hasite).trans (hnewer x hget)
    · rw [List.mem_singleton.mp ha]
  · rw [Tree.get_insert_ne hsite]
    have hother : ∀ a ∈ s.accepted ++ [(stored c.listing, c.day)], site a.1 = w → a ∈ s.accepted := by
      intro a ha hasite
      rcases List.mem_append.mp ha with ha | ha
      · exact ha
      · rw [List.mem_singleton.mp ha, site_stored] at hasite
        exact absurd hasite hsite
    refine ⟨fun hnone a ha hasite => ?_, fun x hx => ?_⟩
    · exact (hlatest w).1 hnone a (hother a ha hasite) hasite
    · obtain ⟨⟨day, hmem⟩, hxsite, hmax⟩ := (hlatest w).2 x hx
      exact ⟨⟨day, List.mem_append_left _ hmem⟩, hxsite,
        fun a ha hasite => hmax a (hother a ha hasite) hasite⟩

/-- **A tidy call** keeps the counts and the stored listings. -/
theorem Inv.step (h : s.Inv) (ht : s.Tidy A c) : (s.step A c).Inv := by
  rcases step_cases A s c with ⟨hpasses, hleft, -, hstored⟩ | ⟨-, heq⟩
  · have hc := hpasses.memberHex
    refine ⟨fun a ha => ?_, fun w day hw => ?_, fun w day hw => ?_, ?_⟩
    · rw [hstored.accepted] at ha
      rcases List.mem_append.mp ha with ha | ha
      · exact h.hex a ha
      · rw [List.mem_singleton.mp ha, member_stored]
        exact hc
    · unfold acceptedOf
      rw [hstored.accepted, List.filter_append, List.length_append, List.filter_cons,
        List.filter_nil]
      by_cases hsame : member c.listing = w ∧ c.day = day
      · obtain ⟨rfl, rfl⟩ := hsame
        rw [hstored.used_self, h.used _ _ hw, if_pos (by rw [member_stored]; simp)]
        rfl
      · rw [hstored.used_other hc hw hsame, h.used _ _ hw, if_neg]
        · rfl
        · intro heq
          rw [Bool.and_eq_true, beq_iff_eq, beq_iff_eq, member_stored] at heq
          exact hsame heq
    · by_cases hsame : member c.listing = w ∧ c.day = day
      · obtain ⟨rfl, rfl⟩ := hsame
        rw [hstored.used_self]
        exact hleft
      · rw [hstored.used_other hc hw hsame]
        exact h.cap w day hw
    · exact hstored.latest h.latest (ht hpasses hleft).2
  · rw [heq]
    exact h

/-- **A lawful call is a tidy one**, and the other way round. -/
theorem Inv.lawful_iff (h : s.Inv) : s.Lawful A c ↔ s.Tidy A c := by
  constructor
  · intro hlaw hpasses hleft
    rcases step_cases A s c with ⟨-, -, -, hstored⟩ | ⟨hnot, -⟩
    · refine ⟨fun hknown => ?_, fun x hx => ?_⟩
      · -- the copy is counted
        have hused := hstored.used_self
        rw [hlaw.replayed hknown] at hused
        omega
      · obtain ⟨⟨day, hmem⟩, hxsite, -⟩ := (h.latest _).2 x hx
        have hrow : (s.step A c).store.listings.get (site c.listing) = some (stored c.listing) := by
          rw [hstored.listings, Tree.get_insert_self]
        refine ((hlaw.latest _).2 _ hrow).2.2 (x, day) ?_ hxsite
        rw [hstored.accepted]
        exact List.mem_append_left _ hmem
    · exact absurd ⟨hpasses, hleft⟩ hnot
  · intro ht
    have hnext := h.step ht
    rcases step_cases A s c with ⟨hpasses, hleft, hok, -⟩ | ⟨-, heq⟩
    · refine ⟨fun hknown => absurd hknown (ht hpasses hleft).1, hnext.latest, hnext.perDay, ?_⟩
      intro e he
      rw [hok] at he
      cases he
    · exact ⟨fun _ => congrArg ListTrace.store heq, hnext.latest, hnext.perDay,
        fun _ _ => congrArg ListTrace.store heq⟩

/-- What is served is stored, of a member and a site there are now. -/
theorem mem_current {store : SearchStore} {isMember siteExists : Str → Bool} {l : SearchListingV1} :
    l ∈ store.current isMember siteExists ↔ (∃ w, store.listings.get w = some l) ∧
      isMember l.memberWalletId = true ∧ siteExists l.siteWalletId = true := by
  unfold SearchStore.current
  rw [List.mem_insertionSort, List.mem_filter, Bool.and_eq_true, List.mem_map]
  refine and_congr_left fun _ => ?_
  constructor
  · rintro ⟨⟨w, x⟩, hrow, rfl⟩
    exact ⟨w, Tree.mem_iter.mp hrow⟩
  · rintro ⟨w, hget⟩
    exact ⟨(w, l), Tree.mem_iter.mpr hget, rfl⟩

/-- **What is served** of a site is the latest listing accepted of it. -/
theorem Inv.served (h : s.Inv) {isMember siteExists : Str → Bool} {l : SearchListingV1}
    (hl : l ∈ s.store.current isMember siteExists) :
    (∃ day, (l, day) ∈ s.accepted) ∧
      ∀ a ∈ s.accepted, site a.1 = site l → a.1.listedAtMs ≤ l.listedAtMs := by
  obtain ⟨⟨w, hget⟩, -⟩ := mem_current.mp hl
  obtain ⟨hfrom, hsite, hmax⟩ := (h.latest w).2 l hget
  exact ⟨hfrom, fun a ha hasite => hmax a ha (hasite.trans hsite)⟩

end ListTrace

/-- **Search listings along a run**: a listing accepted before changes nothing, the latest listing of
each site is stored, a member has no more than its listings a day, and a refused call changes nothing,
exactly when every call that passes is of a listing not accepted before and not older than the stored
one. -/
theorem listings_lawful_iff (A : Auth) (calls : List ListCall) :
    Along (ListTrace.step A) (ListTrace.Lawful A) ListTrace.start calls ↔
      Along (ListTrace.step A) (ListTrace.Tidy A) ListTrace.start calls := by
  have hiff : ∀ s c, ListTrace.Inv s → (s.Lawful A c ↔ s.Tidy A c) := fun _ _ h => h.lawful_iff
  have hkeep : ∀ s c, ListTrace.Inv s → s.Tidy A c → (s.step A c).Inv := fun _ _ h ht => h.step ht
  exact along_iff hiff hkeep calls ListTrace.inv_start

end TetCore.Search

namespace TetCore.Sample

open TetCore.Lib TetCore.Tmail TetCore.Search

/-- A listing signed with the keys of its member and its site. -/
def signListing (l : SearchListingV1) : SearchListingV1 :=
  let msg := listingAuthMessageBytes auth l mldsaKey
  { l with
    memberSig := ⟨member l, sign (member l) msg, mldsaKey, sign mldsaKey msg⟩
    siteSig := ⟨site l, sign (site l) msg, mldsaKey, sign mldsaKey msg⟩ }

/-- A member's listing of a site, at a time. -/
def listingAt (listedAtMs : Nat) : SearchListingV1 :=
  signListing ⟨1, listingKind, wallet '5', wallet '6', listedAtMs, ⟨[], [], [], []⟩, ⟨[], [], [], []⟩⟩

def listCall (listedAtMs nowMs : Nat) : ListCall :=
  ⟨listingAt listedAtMs, nowMs, fun _ => true, fun _ => true⟩

/-- The store after a listing and its renewal. -/
def renewedListing : ListTrace :=
  [listCall 1000000 1000000, listCall 1001000 1001000].foldl (ListTrace.step auth) ListTrace.start

theorem renewed_replayed :
    ((renewedListing.step auth (listCall 1000000 1002000)).store.listings.get (wallet '5')).map
        SearchListingV1.listedAtMs = some 1000000 ∧
      renewedListing.store.used (wallet '6') 0 = 2 ∧
      (renewedListing.step auth (listCall 1000000 1002000)).store.used (wallet '6') 0 = 3 ∧
      renewedListing.accepted.head?.map (fun a => signedPart a.1) =
        some (signedPart (listingAt 1000000)) := by
  decide +kernel

end TetCore.Sample

namespace TetCore.Search

open TetCore.Lib

/-- A copy of a listing is counted for its member, and stored in place of the renewal. -/
theorem listing_replayed :
    ((Sample.renewedListing.step Sample.auth (Sample.listCall 1000000 1002000)).store.listings.get
        (Sample.wallet '5')).map SearchListingV1.listedAtMs = some 1000000 ∧
      ¬ Along (ListTrace.step Sample.auth) (ListTrace.Lawful Sample.auth) ListTrace.start
        ([Sample.listCall 1000000 1000000, Sample.listCall 1001000 1001000] ++
          [Sample.listCall 1000000 1002000]) := by
  obtain ⟨hrow, hbefore, hafter, hfirst⟩ := Sample.renewed_replayed
  refine ⟨hrow, fun hlaw => ?_⟩
  obtain ⟨a, ha, hsigned⟩ := Option.map_eq_some_iff.mp hfirst
  have hknown : Sample.renewedListing.Known (Sample.listCall 1000000 1002000).listing :=
    ⟨a, List.mem_of_head? ha, hsigned⟩
  have hsame : (Sample.renewedListing.step Sample.auth (Sample.listCall 1000000 1002000)).store =
      Sample.renewedListing.store := hlaw.last.replayed hknown
  rw [hsame, hbefore] at hafter
  exact absurd hafter (by decide)

end TetCore.Search
