import Mathlib.Data.Bool.AllAny
import Mathlib.Data.List.Chain
import TetCore.Lib.Utf16

/-!
# The text of a thread's post

`board_threads.mjs`: a post is a header line, a title's line and a name's line where there are ones, an
empty line and the body. The encoder takes any title of one line, that is without `\r` and `\n`; the
parser's `.` stops at two line separators more.

* `cleanName_spec`: a name that was cleaned is of allowed characters and stays as it is.
* `readTitle_tagged`, `readName_tagged`: what is read of a title's line and of a name's.
* `thread_post_iff`: a post is read as it was meant exactly when its title has no `U+2028` and no
  `U+2029` inside.
-/

namespace TetCore.Page.Threads

open TetCore.Lib

/-- `THREAD_TITLE_MAX`. -/
def threadTitleMax : Nat := 80

/-- `NAME_MAX`. -/
def nameMax : Nat := 32

/-- `THREAD_HEADER`. -/
def threadHeader : Units := utf16 "tet-thread v1".toList

def titleTag : Units := utf16 "title: ".toList

def nameTag : Units := utf16 "name: ".toList

def sageTag : Units := utf16 " sage".toList

/-- `\n`. -/
def newline : UInt16 := 10

/-! ## Patterns -/

/-- `[0-9a-f]`. -/
def isLowerHexUnit (u : UInt16) : Bool :=
  let n := u.toNat
  (48 ≤ n && n ≤ 57) || (97 ≤ n && n ≤ 102)

/-- `/^[0-9a-f]{16}$/`. -/
def isThreadId (s : Units) : Bool := s.length == 16 && s.all isLowerHexUnit

/-- `HEADER_RE`: the id, and whether ` sage` follows. -/
def headerRe (line : Units) : Option (Units × Bool) :=
  let tag := threadHeader ++ [32]
  let id := (line.drop tag.length).take 16
  let rest := line.drop (tag.length + 16)
  if tag.isPrefixOf line ∧ isThreadId id = true then
    if rest = [] then some (id, false) else if rest = sageTag then some (id, true) else none
  else none

/-- A line that starts with `tag` and goes on with what `p` allows. -/
def lineRe (tag : Units) (p : UInt16 → Bool) (line : Units) : Option Units :=
  if tag.isPrefixOf line ∧ (line.drop tag.length).all p = true then some (line.drop tag.length)
  else none

/-- `.`. -/
def isDot (u : UInt16) : Bool := u != 10 && u != 13 && u != 0x2028 && u != 0x2029

/-- `TITLE_RE`. -/
def titleRe : Units → Option Units := lineRe titleTag isDot

/-- `NAME_RE`. -/
def nameRe : Units → Option Units := lineRe nameTag (· != newline)

/-! ## Titles and names -/

/-- `checkThreadTitle`: the reason it can't be one, or the title. -/
def checkThreadTitle (title : Option Units) : Except Str Units :=
  let t := trimUnits (title.getD [])
  if t = [] then .error "A thread needs a title.".toList
  else if t.any (fun u => u == 13 || u == 10) then .error "A title is one line.".toList
  else if (points t).length > threadTitleMax then
    .error "A title is at most 80 characters.".toList
  else .ok t

def isAsciiAlnumUnit (u : UInt16) : Bool :=
  let n := u.toNat
  (65 ≤ n && n ≤ 90) || (97 ≤ n && n ≤ 122) || (48 ≤ n && n ≤ 57)

/-- What `NOT_ALLOWED` does not match: a letter, a digit, a blank, one of `._'!?&-`, or a character of
one of its ranges. None is a surrogate. -/
def isAllowed (u : UInt16) : Bool :=
  let n := u.toNat
  isAsciiAlnumUnit u || [32, 46, 95, 39, 33, 63, 38, 45].contains n || n == 0x3005 ||
    (0x3041 ≤ n && n ≤ 0x3096) || n == 0x309D || n == 0x309E || (0x30A1 ≤ n && n ≤ 0x30FA) ||
    n == 0x30FB || (0x30FC ≤ n && n ≤ 0x30FE) || (0x3400 ≤ n && n ≤ 0x4DBF) ||
    (0x4E00 ≤ n && n ≤ 0x9FFF) || (0xAC00 ≤ n && n ≤ 0xD7A3)

/-- A combining accent. -/
def isAccent (u : UInt16) : Bool := 0x300 ≤ u.toNat && u.toNat ≤ 0x36F

/-- What is kept in a name's skeleton. -/
def isSkeletal (u : UInt16) : Bool :=
  let n := u.toNat
  isAsciiAlnumUnit u || n == 0x3005 || (0x3041 ≤ n && n ≤ 0x30FF) || (0x3400 ≤ n && n ≤ 0x9FFF) ||
    (0xAC00 ≤ n && n ≤ 0xD7A3)

/-- `replace(/ +/g, " ")`. -/
def collapseBlanks : Units → Units
  | [] => []
  | u :: s => if u = 32 ∧ s.head? = some 32 then collapseBlanks s else u :: collapseBlanks s

/-- `replace(/ab/g, c)`. -/
def replacePair (a b c : UInt16) : Units → Units
  | [] => []
  | [u] => [u]
  | u :: v :: s =>
    if u = a ∧ v = b then c :: replacePair a b c s else u :: replacePair a b c (v :: s)

/-- `toLowerCase`, of allowed characters: only the ASCII letters among them have a case. -/
def lowerUnit (u : UInt16) : UInt16 := if 65 ≤ u.toNat ∧ u.toNat ≤ 90 then u + 32 else u

/-- `\w`. -/
def isWordUnit (u : UInt16) : Bool := isAsciiAlnumUnit u || u == 95

/-- `/\bw\b/`, after `before`. -/
def hasWord (w : Units) (before : Option UInt16) : Units → Bool
  | [] => false
  | u :: s =>
    (w.isPrefixOf (u :: s) && !before.any isWordUnit &&
        !(((u :: s).drop w.length).head?.any isWordUnit)) || hasWord w (some u) s

/-- The words of `RESERVED` after `\bid\b`. -/
def reservedWords : List Units :=
  (["anonymous", "verified", "named", "noname", "no name", "proof", "名無し", "匿名", "記名", "検証", "無名",
    "具名", "證明", "証明"].map String.toList).map utf16

/-- `w` is somewhere in `x`. -/
def includesUnits (x w : Units) : Bool := x.tails.any w.isPrefixOf

/-- `RESERVED.test`. -/
def reservedTest (x : Units) : Bool :=
  let low := x.map lowerUnit
  hasWord (utf16 "id".toList) none low || reservedWords.any (includesUnits low)

/-- `/[0-9a-f]{6,}/i.test`. -/
def hexTest (x : Units) : Bool :=
  x.tails.any fun t => (t.take 6).length == 6 && ((t.take 6).map lowerUnit).all isLowerHexUnit

/-- `skeleton` read as hex digits. -/
def asHexUnit (u : UInt16) : UInt16 :=
  if u = 79 ∨ u = 111 then 48 else if u = 108 ∨ u = 73 ∨ u = 124 then 49 else u

/-- The three readings of `x` as words. -/
def asWords (x : Units) : List Units :=
  let w := replacePair 118 118 119
    (replacePair 114 110 109 ((x.map lowerUnit).map fun u => if u = 48 then 111 else u))
  [w, w.map fun u => if u = 49 ∨ u = 108 then 105 else u,
    w.map fun u => if u = 49 ∨ u = 105 then 108 else u]

/-- A name that could pass for an id or a status label. -/
def looksReserved (name : Units) : Bool :=
  let skeleton := name.filter isSkeletal
  hexTest (skeleton.map asHexUnit) || ([skeleton, name].flatMap asWords).any reservedTest

/-- `String.prototype.normalize`. -/
structure Normalizer where
  nfkc : Units → Units
  nfd : Units → Units
  nfc : Units → Units

variable (N : Normalizer)

/-- The normalisation of `cleanName`. -/
def Normalizer.plain (s : Units) : Units := N.nfc ((N.nfd (N.nfkc s)).filter fun u => !isAccent u)

/-- Normalisation leaves strings of allowed characters as they are. -/
def Normalizer.KeepsAllowed : Prop := ∀ s : Units, (∀ u ∈ s, isAllowed u = true) → N.plain s = s

/-- `cleanName`. Nothing given is `none`. -/
def cleanName (raw : Option Units) : Units :=
  let s := trimUnits (collapseBlanks ((N.plain (raw.getD [])).filter isAllowed))
  let name := trimUnits ((points s).take nameMax).flatten
  if looksReserved name then [] else name

/-! ## Posts -/

/-- What `encodeThreadPost` is given. `null` and `undefined` are `none`. -/
structure ThreadPost where
  threadId : Option Units
  title : Option Units
  sage : Bool
  name : Option Units
  body : Option Units

/-- What `parseThreadPost` returns. -/
structure ParsedPost where
  threadId : Option Units
  title : Option Units
  sage : Bool
  name : Units
  body : Units
  deriving DecidableEq

/-- `encodeThreadPost`. -/
def encodeThreadPost (o : ThreadPost) : Except Str Units := do
  let id := o.threadId.getD []
  if isThreadId id = false then throw "bad thread id".toList
  let header := threadHeader ++ 32 :: (id ++ if o.sage && o.title.isNone then sageTag else [])
  let titleLine ← match o.title with
    | none => pure []
    | some title => do
      let t ← checkThreadTitle (some title)
      pure [titleTag ++ t]
  let name := cleanName N o.name
  let nameLine := if name = [] then [] else [nameTag ++ name]
  return List.intercalate [newline] (header :: (titleLine ++ nameLine)) ++
    newline :: newline :: o.body.getD []

/-- The text before the first `\n`, and after it. -/
def cutLine (s : Units) : Units × Units :=
  (s.takeWhile (· != newline), (s.dropWhile (· != newline)).drop 1)

/-- The title's line, if there is one. -/
def readTitle (rest : Units) : Option Units × Units :=
  match titleRe (cutLine rest).1 with
  | some t => ((checkThreadTitle (some t)).toOption, (cutLine rest).2)
  | none => (none, rest)

/-- The name's line, if there is one. -/
def readName (rest : Units) : Units × Units :=
  match nameRe (cutLine rest).1 with
  | some raw => (cleanName N (some raw), (cutLine rest).2)
  | none => ([], rest)

/-- `parseThreadPost`. -/
def parseThreadPost (text : Option Units) : ParsedPost :=
  let s := text.getD []
  match headerRe (cutLine s).1 with
  | none => ⟨none, none, false, [], s⟩
  | some (id, sage) =>
    let title := readTitle (cutLine s).2
    let name := readName N title.2
    ⟨some id, title.1, sage && title.1.isNone, name.1,
      if name.2.head? = some newline then name.2.drop 1 else name.2⟩

/-- A post is read as it was meant. -/
def RoundTrips (o : ThreadPost) (text : Units) : Prop :=
  parseThreadPost N (some text) =
    ⟨o.threadId, o.title.map trimUnits, o.sage && o.title.isNone, cleanName N o.name,
      o.body.getD []⟩

/-! ## Names -/

variable {N}

theorem collapseBlanks_sublist : ∀ s : Units, (collapseBlanks s).Sublist s
  | [] => List.Sublist.refl _
  | u :: s => by
    rw [collapseBlanks]
    split
    · exact (collapseBlanks_sublist s).cons u
    · exact (collapseBlanks_sublist s).cons_cons u

theorem head?_collapseBlanks : ∀ s : Units, (collapseBlanks s).head? = s.head?
  | [] => rfl
  | u :: s => by
    rw [collapseBlanks]
    split
    · rename_i h
      rw [head?_collapseBlanks s, h.2, h.1]
      rfl
    · rfl

/-- No blank follows a blank. -/
def Spaced (s : Units) : Prop := s.IsChain fun u v => ¬(u = 32 ∧ v = 32)

theorem spaced_collapseBlanks : ∀ s : Units, Spaced (collapseBlanks s)
  | [] => List.isChain_nil
  | u :: s => by
    rw [collapseBlanks]
    split
    · exact spaced_collapseBlanks s
    · rename_i h
      refine List.isChain_cons.mpr ⟨fun v hv => ?_, spaced_collapseBlanks s⟩
      rintro ⟨rfl, rfl⟩
      rw [head?_collapseBlanks] at hv
      exact h ⟨rfl, hv⟩

theorem collapseBlanks_of_spaced : ∀ {s : Units}, Spaced s → collapseBlanks s = s
  | [], _ => rfl
  | u :: s, h => by
    obtain ⟨hhead, htail⟩ := List.isChain_cons.mp h
    rw [collapseBlanks, if_neg, collapseBlanks_of_spaced htail]
    rintro ⟨rfl, h32⟩
    exact hhead 32 h32 ⟨rfl, rfl⟩

/-- An allowed unit is half of no pair. -/
theorem not_surrogate_of_allowed {u : UInt16} (h : isAllowed u = true) :
    isHighSurrogate u = false := by
  simp [isAllowed, isAsciiAlnumUnit, isHighSurrogate] at h ⊢
  omega

theorem ne_newline_of_allowed {u : UInt16} (h : isAllowed u = true) : u ≠ newline := by
  rintro rfl
  revert h
  decide

/-- What a name is before the last check: allowed, spaced, trimmed and short. -/
structure Tidy (name : Units) : Prop where
  allowed : ∀ u ∈ name, isAllowed u = true
  spaced : Spaced name
  trimmed : trimUnits name = name
  short : name.length ≤ nameMax

theorem tidy_nil : Tidy [] := ⟨fun u hu => absurd hu List.not_mem_nil, List.isChain_nil, rfl, by decide⟩

/-- Cleaning makes a name tidy, or takes it away. -/
theorem cleanName_tidy (N : Normalizer) (raw : Option Units) :
    Tidy (cleanName N raw) ∧ (cleanName N raw = [] ∨ looksReserved (cleanName N raw) = false) := by
  unfold cleanName
  generalize hs : trimUnits (collapseBlanks ((N.plain (raw.getD [])).filter isAllowed)) = s
  have hallowed : ∀ u ∈ s, isAllowed u = true := by
    intro u hu
    subst hs
    exact List.of_mem_filter ((collapseBlanks_sublist _).subset (mem_of_mem_trimUnits hu))
  have hspaced : Spaced s := by
    subst hs
    exact List.IsChain.infix (spaced_collapseBlanks _) (trimUnits_within _)
  simp only
  rw [flatten_take_points fun u hu => not_surrogate_of_allowed (hallowed u hu)]
  have htidy : Tidy (trimUnits (s.take nameMax)) := by
    refine ⟨fun u hu => ?_, ?_, trimUnits_trimUnits _, ?_⟩
    · exact hallowed u (List.mem_of_mem_take (mem_of_mem_trimUnits hu))
    · exact List.IsChain.infix hspaced ((trimUnits_within _).trans (List.take_prefix _ _).isInfix)
    · exact (trimUnits_within _).length_le.trans (List.length_take_le _ _)
  by_cases hreserved : looksReserved (trimUnits (s.take nameMax)) = true
  · rw [if_pos hreserved]
    exact ⟨tidy_nil, Or.inl rfl⟩
  · rw [if_neg hreserved]
    exact ⟨htidy, Or.inr (Bool.not_eq_true _ ▸ hreserved)⟩

/-- A tidy name is only checked. -/
theorem cleanName_of_tidy (hN : N.KeepsAllowed) {name : Units} (h : Tidy name) :
    cleanName N (some name) = if looksReserved name then [] else name := by
  unfold cleanName
  simp only
  rw [Option.getD_some, hN name h.allowed, List.filter_eq_self.mpr h.allowed,
    collapseBlanks_of_spaced h.spaced, h.trimmed,
    flatten_take_points fun u hu => not_surrogate_of_allowed (h.allowed u hu),
    List.take_of_length_le h.short, h.trimmed]

/-- **A name that was cleaned** is of allowed characters, and cleaning it changes nothing. -/
theorem cleanName_spec (hN : N.KeepsAllowed) (raw : Option Units) :
    cleanName N (some (cleanName N raw)) = cleanName N raw ∧
      ∀ u ∈ cleanName N raw, isAllowed u = true := by
  obtain ⟨htidy, hkept⟩ := cleanName_tidy N raw
  refine ⟨?_, htidy.allowed⟩
  rw [cleanName_of_tidy hN htidy]
  rcases hkept with hnil | hplain
  · rw [hnil, ite_self]
  · rw [hplain, if_neg Bool.false_ne_true]

/-! ## Lines -/

theorem cutLine_append {line : Units} (h : newline ∉ line) (rest : Units) :
    cutLine (line ++ newline :: rest) = (line, rest) := by
  have hkeep : ∀ u ∈ line, (u != newline) = true := by
    rintro u hu
    rw [bne_iff_ne]
    rintro rfl
    exact h hu
  have hstop : (newline != newline) = false := bne_self_eq_false newline
  rw [cutLine, List.takeWhile_append_of_pos hkeep, List.dropWhile_append_of_pos hkeep,
    List.takeWhile_cons_of_neg (by rw [hstop]; decide),
    List.dropWhile_cons_of_neg (by rw [hstop]; decide), List.append_nil, List.drop_one,
    List.tail_cons]

/-- The units that the lines' fixed parts are told apart by. -/
theorem tagFacts : (newline ∉ threadHeader ∧ newline ∉ sageTag) ∧
    (newline ∉ titleTag ∧ titleTag.head? = some 116) ∧
    (newline ∉ nameTag ∧ nameTag.head? = some 110) ∧ sageTag ≠ [] := by
  decide +kernel

theorem lineRe_tag (tag s : Units) (p : UInt16 → Bool) :
    lineRe tag p (tag ++ s) = if s.all p = true then some s else none := by
  have hstart : tag.isPrefixOf (tag ++ s) = true :=
    List.isPrefixOf_iff_prefix.mpr (List.prefix_append _ _)
  rw [lineRe, hstart, List.drop_left]
  simp only [true_and]

/-- A line that starts with another unit is no such line. -/
theorem lineRe_other {tag line : Units} {u : UInt16} (htag : tag.head? = some u)
    (hline : line.head? ≠ some u) (p : UInt16 → Bool) : lineRe tag p line = none := by
  rw [lineRe, if_neg]
  rintro ⟨hstart, -⟩
  obtain ⟨rest, rfl⟩ := List.isPrefixOf_iff_prefix.mp hstart
  rw [List.head?_append, htag] at hline
  exact hline rfl

theorem length_of_isThreadId {id : Units} (h : isThreadId id = true) : id.length = 16 := by
  rw [isThreadId, Bool.and_eq_true, beq_iff_eq] at h
  exact h.1

theorem newline_notMem_threadId {id : Units} (h : isThreadId id = true) : newline ∉ id := by
  rw [isThreadId, Bool.and_eq_true, List.all_eq_true] at h
  intro hmem
  have hdigit := h.2 newline hmem
  revert hdigit
  decide

/-- A header is read as it was written. -/
theorem headerRe_header {id : Units} (hid : isThreadId id = true) (sage : Bool) :
    headerRe (threadHeader ++ 32 :: (id ++ if sage = true then sageTag else [])) = some (id, sage) := by
  have hlen := length_of_isThreadId hid
  have hline : ∀ tail : Units, threadHeader ++ 32 :: (id ++ tail) = (threadHeader ++ [32]) ++ (id ++ tail) := by
    intro tail
    rw [List.append_assoc]
    rfl
  have htake : ∀ tail : Units,
      (((threadHeader ++ [32]) ++ (id ++ tail)).drop (threadHeader ++ [32]).length).take 16 = id := by
    intro tail
    rw [List.drop_left, ← hlen, List.take_left]
  have hdrop : ∀ tail : Units,
      ((threadHeader ++ [32]) ++ (id ++ tail)).drop ((threadHeader ++ [32]).length + 16) = tail := by
    intro tail
    rw [← List.drop_drop, List.drop_left, ← hlen, List.drop_left]
  have hstart : ∀ rest : Units, (threadHeader ++ [32]).isPrefixOf ((threadHeader ++ [32]) ++ rest) = true :=
    fun rest => List.isPrefixOf_iff_prefix.mpr (List.prefix_append _ _)
  rw [hline, headerRe]
  simp only [htake, hdrop, hstart, hid, true_and, if_true]
  cases sage with
  | false => rfl
  | true =>
    rw [if_pos rfl, if_neg tagFacts.2.2.2, if_pos rfl]

/-! ## What is written -/

theorem checkThreadTitle_ok {title : Option Units} {t : Units} :
    checkThreadTitle title = .ok t ↔ t = trimUnits (title.getD []) ∧ t ≠ [] ∧
      (t.any fun u => u == 13 || u == 10) = false ∧ (points t).length ≤ threadTitleMax := by
  unfold checkThreadTitle
  simp only
  generalize trimUnits (title.getD []) = s
  constructor
  · intro h
    split at h
    · cases h
    split at h
    · cases h
    split at h
    · cases h
    cases h
    exact ⟨rfl, ‹_›, Bool.not_eq_true _ ▸ ‹_›, Nat.le_of_not_gt ‹_›⟩
  · rintro ⟨rfl, hne, hline, hlen⟩
    rw [if_neg hne, hline, if_neg Bool.false_ne_true, if_neg (Nat.not_lt_of_le hlen)]

theorem intercalate_newline (header : Units) (lines : List Units) (rest : Units) :
    List.intercalate [newline] (header :: lines) ++ newline :: rest =
      header ++ newline :: (lines.flatMap (· ++ [newline]) ++ rest) := by
  induction lines generalizing header with
  | nil => rw [List.intercalate_singleton, List.flatMap_nil, List.nil_append]
  | cons line lines ih =>
    rw [List.intercalate_cons_cons, List.append_assoc, List.append_assoc, ih, List.flatMap_cons]
    simp only [List.append_assoc, List.cons_append, List.nil_append]

/-- The lines between the header and the empty one. -/
def tagged (tag s : Units) : Units := if s = [] then [] else tag ++ s ++ [newline]

theorem tagged_nil (tag : Units) : tagged tag [] = [] := if_pos rfl

theorem tagged_of_ne (tag : Units) {s : Units} (h : s ≠ []) : tagged tag s = tag ++ s ++ [newline] :=
  if_neg h

/-- **What is written**: the header, the title's line and the name's, an empty line and the body. -/
theorem encodeThreadPost_ok {o : ThreadPost} {text : Units} (h : encodeThreadPost N o = .ok text) :
    ∃ id, o.threadId = some id ∧ isThreadId id = true ∧
      (∀ title, o.title = some title → checkThreadTitle (some title) = .ok (trimUnits title)) ∧
      text = threadHeader ++ 32 :: (id ++ if (o.sage && o.title.isNone) = true then sageTag else []) ++
        newline :: (tagged titleTag ((o.title.map trimUnits).getD []) ++
          (tagged nameTag (cleanName N o.name) ++ newline :: o.body.getD [])) := by
  unfold encodeThreadPost at h
  simp only at h
  have hname : (if cleanName N o.name = [] then [] else [nameTag ++ cleanName N o.name]).flatMap
      (· ++ [newline]) = tagged nameTag (cleanName N o.name) := by
    by_cases hnil : cleanName N o.name = []
    · rw [if_pos hnil, hnil, tagged_nil]
      rfl
    · rw [if_neg hnil, tagged_of_ne _ hnil, List.flatMap_singleton]
  cases hid : isThreadId (o.threadId.getD []) with
  | false =>
    rw [hid] at h
    cases h
  | true =>
    obtain ⟨id, hsome⟩ : ∃ id, o.threadId = some id := by
      cases hnone : o.threadId with
      | none =>
        rw [hnone] at hid
        cases hid
      | some id => exact ⟨id, rfl⟩
    rw [hsome, Option.getD_some] at hid h
    rw [hid, if_neg (by decide)] at h
    refine ⟨id, hsome, hid, ?_⟩
    cases htitle : o.title with
    | none =>
      rw [htitle] at h
      simp only [pure, Except.pure, bind, Except.bind, Except.ok.injEq] at h
      subst h
      constructor
      · intro title htitle'
        cases htitle'
      · rw [intercalate_newline, List.nil_append, hname, Option.map_none, Option.getD_none,
          tagged_nil, List.nil_append]
    | some title =>
      rw [htitle] at h
      cases hcheck : checkThreadTitle (some title) with
      | error e =>
        simp only [hcheck, bind, Except.bind, reduceCtorEq] at h
      | ok t =>
        obtain ⟨rfl, hne, -, -⟩ := checkThreadTitle_ok.mp hcheck
        rw [Option.getD_some] at hne hcheck
        simp only [hcheck, pure, Except.pure, bind, Except.bind, Except.ok.injEq] at h
        subst h
        refine ⟨fun title' htitle' => ?_, ?_⟩
        · rw [Option.some.injEq] at htitle'
          rw [← htitle']
          exact hcheck
        · rw [intercalate_newline, List.flatMap_append, hname, List.flatMap_singleton, Option.map_some,
              Option.getD_some, tagged_of_ne _ hne,
            List.append_assoc (titleTag ++ trimUnits title ++ [newline])]

/-! ## What is read -/

theorem newline_notMem_name (N : Normalizer) (raw : Option Units) : newline ∉ cleanName N raw :=
  fun hmem => ne_newline_of_allowed ((cleanName_tidy N raw).1.allowed _ hmem) rfl

/-- The name's line is read, and the empty line is no such line. -/
theorem readName_tagged (hN : N.KeepsAllowed) (raw : Option Units) (body : Units) :
    readName N (tagged nameTag (cleanName N raw) ++ newline :: body) =
      (cleanName N raw, newline :: body) := by
  have hnewline := newline_notMem_name N raw
  have hclean := (cleanName_spec hN raw).1
  generalize cleanName N raw = name at hnewline hclean
  by_cases hnil : name = []
  · subst hnil
    have hcut : cutLine (newline :: body) = ([], body) := cutLine_append List.not_mem_nil body
    rw [tagged_nil, List.nil_append, readName, hcut, nameRe,
      lineRe_other tagFacts.2.2.1.2 (show ([] : Units).head? ≠ some 110 by decide)]
  · have hline : newline ∉ nameTag ++ name := by
      rw [List.mem_append, not_or]
      exact ⟨tagFacts.2.2.1.1, hnewline⟩
    have hall : name.all (· != newline) = true := by
      rw [List.all_eq_true]
      intro u hu
      rw [bne_iff_ne]
      rintro rfl
      exact hnewline hu
    rw [tagged_of_ne _ hnil, List.append_assoc, List.singleton_append, readName, cutLine_append hline,
      nameRe, lineRe_tag, if_pos hall]
    simp only [hclean]

/-- The title's line is read where its title is of `.` only. -/
theorem readTitle_tagged {t : Units} (hcheck : checkThreadTitle (some t) = .ok t) (rest : Units) :
    readTitle (tagged titleTag t ++ rest) =
      if t.all isDot = true then (some t, rest) else (none, tagged titleTag t ++ rest) := by
  obtain ⟨-, hne, hbreak, -⟩ := checkThreadTitle_ok.mp hcheck
  have hline : newline ∉ titleTag ++ t := by
    rw [List.mem_append, not_or]
    refine ⟨tagFacts.2.1.1, fun hmem => ?_⟩
    exact Bool.false_ne_true (hbreak.symm.trans (List.any_eq_true.mpr ⟨newline, hmem, rfl⟩))
  rw [tagged_of_ne _ hne, List.append_assoc, List.singleton_append, readTitle, cutLine_append hline,
    titleRe, lineRe_tag]
  by_cases hdot : t.all isDot = true
  · rw [if_pos hdot, if_pos hdot]
    simp only [hcheck]
    rfl
  · rw [if_neg hdot, if_neg hdot]

/-- Neither the name's line nor the empty one is a title's. -/
theorem readTitle_untitled (name body : Units) (hname : newline ∉ name) :
    readTitle (tagged nameTag name ++ newline :: body) =
      (none, tagged nameTag name ++ newline :: body) := by
  have hfirst : (cutLine (tagged nameTag name ++ newline :: body)).1.head? ≠ some 116 := by
    by_cases hnil : name = []
    · rw [hnil, tagged_nil, List.nil_append,
        show cutLine (newline :: body) = ([], body) from cutLine_append List.not_mem_nil body]
      exact (Option.some_ne_none _).symm
    · have hline : newline ∉ nameTag ++ name := by
        rw [List.mem_append, not_or]
        exact ⟨tagFacts.2.2.1.1, hname⟩
      rw [tagged_of_ne _ hnil, List.append_assoc, List.singleton_append, cutLine_append hline,
        List.head?_append, tagFacts.2.2.1.2, Option.some_or]
      decide
  rw [readTitle, titleRe, lineRe_other tagFacts.2.1.2 hfirst]

/-- A title has no line separator of Unicode inside. -/
def OneLine (title : Option Units) : Prop :=
  ∀ t, title = some t → ∀ u ∈ trimUnits t, u ≠ 0x2028 ∧ u ≠ 0x2029

/-- A title that was taken is of `.` exactly when it has none. -/
theorem all_isDot_iff {t : Units} (hcheck : checkThreadTitle (some t) = .ok t) :
    t.all isDot = true ↔ ∀ u ∈ t, u ≠ 0x2028 ∧ u ≠ 0x2029 := by
  obtain ⟨-, -, hbreak, -⟩ := checkThreadTitle_ok.mp hcheck
  rw [List.any_eq_false] at hbreak
  rw [List.all_eq_true]
  refine forall₂_congr fun u hu => ?_
  have hu := hbreak u hu
  simp only [Bool.or_eq_true, beq_iff_eq, not_or] at hu
  simp only [isDot, Bool.and_eq_true, bne_iff_ne]
  constructor
  · rintro ⟨⟨-, h28⟩, h29⟩
    exact ⟨h28, h29⟩
  · rintro ⟨h28, h29⟩
    exact ⟨⟨⟨hu.2, hu.1⟩, h28⟩, h29⟩

/-- The header is read first, whatever follows. -/
theorem parse_header {id : Units} (hid : isThreadId id = true) (sage : Bool) (rest : Units) :
    parseThreadPost N (some (threadHeader ++ 32 :: (id ++ if sage = true then sageTag else []) ++
        newline :: rest)) =
      ⟨some id, (readTitle rest).1, sage && (readTitle rest).1.isNone,
        (readName N (readTitle rest).2).1,
        if (readName N (readTitle rest).2).2.head? = some newline
          then (readName N (readTitle rest).2).2.drop 1 else (readName N (readTitle rest).2).2⟩ := by
  have hline : newline ∉ threadHeader ++ 32 :: (id ++ if sage = true then sageTag else []) := by
    rw [List.mem_append, List.mem_cons, List.mem_append, not_or, not_or, not_or]
    refine ⟨tagFacts.1.1, by decide, newline_notMem_threadId hid, ?_⟩
    cases sage with
    | false => exact List.not_mem_nil
    | true => exact tagFacts.1.2
  rw [parseThreadPost]
  simp only [Option.getD_some]
  rw [cutLine_append hline, headerRe_header hid]

/-- **A post is read as it was meant** exactly when its title has no line separator inside. A name that
was cleaned is of allowed characters and stays as it is. -/
theorem thread_post_iff (hN : N.KeepsAllowed) :
    (∀ raw, cleanName N (some (cleanName N raw)) = cleanName N raw ∧
      ∀ u ∈ cleanName N raw, isAllowed u = true) ∧
    ∀ o text, encodeThreadPost N o = .ok text → (RoundTrips N o text ↔ OneLine o.title) := by
  refine ⟨cleanName_spec hN, fun o text htext => ?_⟩
  obtain ⟨id, hid, hisId, hchecked, rfl⟩ := encodeThreadPost_ok htext
  have hname := readName_tagged hN o.name (o.body.getD [])
  rw [RoundTrips, parse_header hisId, hid]
  cases htitle : o.title with
  | none =>
    rw [Option.map_none, Option.getD_none, tagged_nil, List.nil_append,
      readTitle_untitled _ _ (newline_notMem_name N o.name)]
    simp only [hname, List.head?_cons, if_true, List.drop_one, List.tail_cons, Option.isNone_none,
      Bool.and_true]
    refine iff_of_true trivial ?_
    intro t ht
    cases ht
  | some title =>
    have hcheck : checkThreadTitle (some (trimUnits title)) = .ok (trimUnits title) := by
      obtain ⟨-, hrest⟩ := checkThreadTitle_ok.mp (hchecked title htitle)
      refine checkThreadTitle_ok.mpr ⟨?_, hrest⟩
      rw [Option.getD_some, trimUnits_trimUnits]
    have hdots : OneLine (some title) ↔ (trimUnits title).all isDot = true := by
      rw [all_isDot_iff hcheck]
      constructor
      · intro h
        exact h title rfl
      · rintro h t ht
        cases ht
        exact h
    rw [Option.map_some, Option.getD_some, readTitle_tagged hcheck, hdots]
    by_cases hdot : (trimUnits title).all isDot = true
    · rw [if_pos hdot]
      simp only [hname, List.head?_cons, if_true, List.drop_one, List.tail_cons, Option.isNone_some,
        Bool.and_false]
      exact iff_of_true trivial hdot
    · rw [if_neg hdot]
      refine iff_of_false ?_ hdot
      intro h
      cases congrArg ParsedPost.title h

end TetCore.Page.Threads

namespace TetCore.Sample

open TetCore.Lib TetCore.Page.Threads

/-- Normalisation of text that is composed already. -/
def composed : Normalizer := ⟨id, id, id⟩

theorem composed_keepsAllowed : composed.KeepsAllowed := by
  intro s hs
  refine List.filter_eq_self.mpr fun u hu => ?_
  have hallowed := hs u hu
  simp [isAllowed, isAsciiAlnumUnit, isAccent] at hallowed ⊢
  omega

/-- The post that opens a thread. -/
def opener (title : Units) : ThreadPost :=
  ⟨some (utf16 "0123456789abcdef".toList), some title, false, some (utf16 "Ada".toList),
    some (utf16 "title: x".toList)⟩

end TetCore.Sample

namespace TetCore.Page.Threads

/-- `a` and `b` as a title, without and with `U+2028` between them. -/
theorem openerFacts :
    (encodeThreadPost Sample.composed (Sample.opener [97, 98])).toOption.isSome = true ∧
    (encodeThreadPost Sample.composed (Sample.opener [97, 0x2028, 98])).toOption.any
      (fun text => (parseThreadPost Sample.composed (some text)).title == none) = true := by
  decide +kernel

/-- A title of two letters is read, whatever the body starts with. -/
theorem thread_post_iff_opener : ∃ text,
    encodeThreadPost Sample.composed (Sample.opener [97, 98]) = .ok text ∧
      RoundTrips Sample.composed (Sample.opener [97, 98]) text := by
  have hfacts := openerFacts.1
  cases htext : encodeThreadPost Sample.composed (Sample.opener [97, 98]) with
  | error e =>
    rw [htext] at hfacts
    cases hfacts
  | ok text =>
    refine ⟨text, rfl, ((thread_post_iff Sample.composed_keepsAllowed).2 _ text htext).mpr ?_⟩
    intro t ht
    cases ht
    exact List.all_iff_forall_prop.mp (by decide)

/-- A title with a line separator inside is not read. -/
theorem separator_in_title : ∃ text,
    encodeThreadPost Sample.composed (Sample.opener [97, 0x2028, 98]) = .ok text ∧
      ¬RoundTrips Sample.composed (Sample.opener [97, 0x2028, 98]) text := by
  have hfacts := openerFacts.2
  cases htext : encodeThreadPost Sample.composed (Sample.opener [97, 0x2028, 98]) with
  | error e =>
    rw [htext] at hfacts
    cases hfacts
  | ok text =>
    rw [htext] at hfacts
    have htitle : (parseThreadPost Sample.composed (some text)).title = none := eq_of_beq hfacts
    refine ⟨text, rfl, fun h => ?_⟩
    rw [h] at htitle
    cases htitle

end TetCore.Page.Threads
