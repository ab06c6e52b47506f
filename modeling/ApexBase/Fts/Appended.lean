import ApexBase.Fts.Analyzer
import Mathlib.Data.List.Infix
import Mathlib.Data.UInt

/-! Which words of a text are still its words once more text follows. -/
namespace ApexBase.Fts

/-- The white space that word boundaries keep together. -/
def isSegSpace (c : Char) : Bool :=
  let code := c.val
  code == 0x20 || code == 0x1680 || 0x2000 ≤ code && code ≤ 0x2006 || 0x2008 ≤ code && code ≤ 0x200a ||
  code == 0x205f || code == 0x3000

/-- A letter, a digit or an underscore of ASCII. -/
def isWordChar (c : Char) : Bool := c.isAlphanum || c == '_'

/-- What the libraries document: normalization leaves ASCII alone and does not reach over a space, words are the
pieces with an alphanumeric character, and a space is one piece with the white space before it and what
cannot stand alone after it (UAX #15, UAX #29). -/
structure Unicode.Documented (unicode : Unicode) (alphanumeric : Char → Bool) : Prop where
  ascii : ∀ text, isAsciiText text = true → unicode.nfkc text = text
  spaced : ∀ text other, unicode.nfkc (text ++ ' ' :: other) = unicode.nfkc text ++ ' ' :: unicode.nfkc other
  lower : ∀ c : Char, c.val < 128 → unicode.toLowercase c = [c.toLower]
  words : ∀ text, unicode.unicodeWords text = (unicode.splitWordBounds text).filter fun piece => piece.any alphanumeric
  blank : ∀ c, isSegSpace c = true → alphanumeric c = false
  boundary : ∀ text other, ∃ front left right back,
    unicode.splitWordBounds (text ++ ' ' :: other) = front ++ (left ++ ' ' :: right) :: back ∧
    unicode.splitWordBounds text = front ++ [left].filter (!·.isEmpty) ∧
    unicode.splitWordBounds other = [right].filter (!·.isEmpty) ++ back ∧
    (∀ c ∈ left, isSegSpace c = true) ∧ ∀ c ∈ right.head?, isWordChar c = false

def textTerms (unicode : Unicode) (config : FtsConfig) (normalized : Text) : List Text :=
  if isAsciiText normalized then asciiWords config normalized
  else primaryTokens unicode config normalized ++ (cjkRuns [] normalized).flatMap (grams config)

namespace AnalysisBuilder

theorem mem_interned (terms : List String) (term other : String) :
    other ∈ (interned terms term).1 ↔ other ∈ terms ∨ other = term := by
  unfold interned
  split
  · rename_i known
    constructor
    · exact Or.inl
    · rintro (before | rfl)
      · exact before
      · exact known
  · rw [List.mem_append,List.mem_singleton]

theorem mem_addAll (add : AnalysisBuilder → String → AnalysisBuilder)
    (adds : ∀ builder term, (add builder term).terms = (interned builder.terms term).1) (words : List Text)
    (builder : AnalysisBuilder) (term : String) :
    term ∈ (words.foldl (fun builder word => add builder (String.ofList word)) builder).terms ↔
    term ∈ builder.terms ∨ term ∈ words.map String.ofList := by
  induction words generalizing builder with
  | nil => simp
  | cons word rest ih => rw [List.foldl_cons,ih,adds,mem_interned,List.map_cons,List.mem_cons,or_assoc]

theorem mem_finish (builder : AnalysisBuilder) (term : String) : term ∈ builder.finish.terms ↔ term ∈ builder.terms :=
  List.mem_insertionSort _

theorem mem_addText (unicode : Unicode) (config : FtsConfig) (builder : AnalysisBuilder) (text : Text) (term : String) :
    term ∈ (builder.addText unicode config text).terms ↔
      term ∈ builder.terms ∨ term ∈ (textTerms unicode config (normalize unicode text)).map String.ofList := by
  unfold addText textTerms
  simp only
  split
  · exact mem_addAll push (fun _ _ => rfl) _ _ _
  · rw [mem_addAll intern fun _ _ => rfl,mem_addAll push fun _ _ => rfl,List.map_append,List.mem_append,or_assoc]

end AnalysisBuilder

open AnalysisBuilder in
theorem mem_analyzeDocument (unicode : Unicode) (config : FtsConfig) (text : Text) (term : String) :
    term ∈ (analyzeDocument unicode config text).terms ↔
    term ∈ (textTerms unicode config (normalize unicode text)).map String.ofList := by
  rw [analyzeDocument,mem_finish,mem_addText]
  exact or_iff_right (by simp [AnalysisBuilder.empty])

open AnalysisBuilder in
theorem mem_addValue (unicode : Unicode) (config : FtsConfig) (builder : AnalysisBuilder) (value : Text)
    (term : String) :
    term ∈ (addValue unicode config builder value).terms ↔
      term ∈ builder.terms ∨ term ∈ (textTerms unicode config (normalize unicode value)).map String.ofList := by
  have bounded : (if 0 < builder.tokens.length then builder.pushBoundary else builder).terms = builder.terms := by
    split
    · rfl
    · rfl
  rw [← bounded,← mem_addText]
  unfold addValue
  simp only
  generalize (if 0 < builder.tokens.length then builder.pushBoundary else builder) = from_
  split
  · rfl
  · rfl

open AnalysisBuilder in
theorem mem_analyzeValues (unicode : Unicode) (config : FtsConfig) (values : List Text) (term : String) :
    term ∈ (analyzeValues unicode config values).terms ↔
      ∃ value ∈ values, term ∈ (analyzeDocument unicode config value).terms := by
  have added : ∀ builder : AnalysisBuilder, term ∈ (values.foldl (addValue unicode config) builder).terms ↔
      term ∈ builder.terms ∨ ∃ value ∈ values, term ∈ (analyzeDocument unicode config value).terms := by
    induction values with
    | nil => simp
    | cons value rest ih =>
      intro builder
      rw [List.foldl_cons,ih,mem_addValue,← mem_analyzeDocument,List.exists_mem_cons_iff,or_assoc]
  rw [analyzeValues,mem_finish,added]
  exact or_iff_right (by simp [AnalysisBuilder.empty])

section Texts
variable {unicode : Unicode} {alphanumeric : Char → Bool} (documented : unicode.Documented alphanumeric)
    (config : FtsConfig)

theorem space_wordChar : isWordChar ' ' = false := by decide

theorem wordChar_code {c : Char} (char : isWordChar c = true) : 0x30 ≤ c.toNat ∧ c.toNat < 0x80 := by
  have ranges : (decide (c.val ≥ 'A'.val ∧ c.val ≤ 'Z'.val) || (decide (c.val ≥ 'a'.val) && decide (c.val ≤ 'z'.val)) ||
      (decide (c.val ≥ '0'.val) && decide (c.val ≤ '9'.val)) || c == '_') = true := char
  simp only [Bool.or_eq_true, Bool.and_eq_true, decide_eq_true_eq, ge_iff_le, UInt32.le_iff_toNat_le,
    beq_iff_eq] at ranges
  rcases ranges with (((⟨_,_⟩ | ⟨_,_⟩) | ⟨_,_⟩) | rfl)
  all_goals first | decide | (simp at *; omega)

theorem segSpace_code {c : Char} (space : isSegSpace c = true) :
    c.toNat = 0x20 ∨ 0x1680 ≤ c.toNat ∧ c.toNat ≤ 0x3000 := by
  simp only [isSegSpace,Bool.or_eq_true,Bool.and_eq_true,decide_eq_true_eq,UInt32.le_iff_toNat_le,beq_iff_eq,
    ← UInt32.toNat_inj] at space
  simp at space
  omega

theorem cjk_code {c : Char} (cjk : isCjk c = true) : 0x3040 ≤ c.toNat := by
  simp only [isCjk,Bool.or_eq_true,Bool.and_eq_true,decide_eq_true_eq,UInt32.le_iff_toNat_le] at cjk
  simp at cjk
  omega

theorem segSpace_wordChar {c : Char} (space : isSegSpace c = true) : isWordChar c = false := by
  by_contra char
  have code := wordChar_code (Bool.eq_true_of_not_eq_false char)
  have spaces := segSpace_code space
  omega

theorem segSpace_cjk {c : Char} (space : isSegSpace c = true) : isCjk c = false := by
  by_contra cjk
  have code := cjk_code (Bool.eq_true_of_not_eq_false cjk)
  have spaces := segSpace_code space
  omega

theorem wordChar_cjk {c : Char} (char : isWordChar c = true) : isCjk c = false := by
  by_contra cjk
  have code := cjk_code (Bool.eq_true_of_not_eq_false cjk)
  have small := wordChar_code char
  omega

include documented in
theorem normalize_appended (text other : Text) :
    normalize unicode (text ++ ' ' :: other) = normalize unicode text ++ ' ' :: normalize unicode other := by
  have lower : ∀ text : Text, isAsciiText text = true → (unicode.nfkc text).flatMap unicode.toLowercase =
    text.map Char.toLower := by
    intro text ascii
    rw [documented.ascii text ascii,← List.flatMap_pure_eq_map]
    refine List.flatMap_congr fun c member => documented.lower c ?_
    exact of_decide_eq_true (List.all_eq_true.mp ascii c member)
  have normalized : ∀ text, normalize unicode text = (unicode.nfkc text).flatMap unicode.toLowercase := by
    intro text
    unfold normalize
    split
    · rename_i ascii
      exact (lower text ascii).symm
    · rfl
  have space : unicode.toLowercase ' ' = [' '] := documented.lower ' ' (by decide)
  rw [normalized,normalized,normalized,documented.spaced,List.flatMap_append,List.flatMap_cons,space,
    List.singleton_append]

theorem isAsciiText_appended (text other : Text) :
    isAsciiText (text ++ ' ' :: other) = (isAsciiText text && isAsciiText other) := by
  unfold isAsciiText
  rw [List.all_append,List.all_cons]
  simp

theorem asciiWords_appended (text other : Text) :
    asciiWords config (text ++ ' ' :: other) = asciiWords config text ++ asciiWords config other := by
  unfold asciiWords
  rw [List.splitOnP_append_cons text other (by decide),List.filter_append]

theorem cjkRuns_appended (run text other : Text) :
    cjkRuns run (text ++ ' ' :: other) = cjkRuns run text ++ cjkRuns [] other := by
  induction text generalizing run with
  | nil =>
    rw [List.nil_append,cjkRuns,cjkRuns,if_neg (by decide)]
    split
    · rfl
    · rfl
  | cons c rest ih =>
    rw [List.cons_append,cjkRuns,cjkRuns]
    split
    · exact ih _
    · split
      · exact ih _
      · rw [ih,List.cons_append]

theorem cjkRuns_spec {run : Text} (text : Text) (cjk : ∀ c ∈ run, isCjk c = true) {found : Text}
    (member : found ∈ cjkRuns run text) :
    ∀ c ∈ found, isCjk c = true := by
  induction text generalizing run with
  | nil =>
    unfold cjkRuns at member
    split at member
    · cases member
    · rw [List.mem_singleton.mp member]
      exact cjk
  | cons c rest ih =>
    unfold cjkRuns at member
    split at member
    · rename_i here
      refine ih (fun other among => ?_) member
      rcases List.mem_append.mp among with before | this
      · exact cjk other before
      · rw [List.mem_singleton.mp this]
        exact here
    · split at member
      · exact ih (by simp) member
      · rcases List.mem_cons.mp member with rfl | later
        · exact cjk
        · exact ih (by simp) later

theorem grams_spec {run gram : Text} (member : gram ∈ grams config run) : gram ≠ [] ∧ ∀ c ∈ gram, c ∈ run := by
  obtain ⟨n,small,member⟩ := List.mem_flatMap.mp member
  obtain ⟨offset,within,rfl⟩ := List.mem_map.mp member
  have size := List.mem_range.mp small
  have place := List.mem_range.mp within
  constructor
  · intro none_
    have length := congrArg List.length none_
    rw [List.length_take,List.length_drop,List.length_nil] at length
    omega
  · intro c among
    exact List.mem_of_mem_drop (List.mem_of_mem_take among)

theorem gram_spec {text gram : Text} (member : gram ∈ (cjkRuns [] text).flatMap (grams config)) :
    ∃ c ∈ gram, isCjk c = true := by
  obtain ⟨run,among,member⟩ := List.mem_flatMap.mp member
  obtain ⟨some_,inside⟩ := grams_spec config member
  obtain ⟨c,rest,rfl⟩ := List.exists_cons_of_ne_nil some_
  exact ⟨c,List.mem_cons_self,cjkRuns_spec text (by simp) among c (inside c List.mem_cons_self)⟩

include documented in
theorem mem_unicodeWords_after {left text word : Text} (spaces : ∀ c ∈ left, isSegSpace c = true)
    (chars : ∀ c ∈ word, isWordChar c = true) :
    word ∈ unicode.unicodeWords (left ++ ' ' :: text) ↔ word ∈ unicode.unicodeWords text := by
  obtain ⟨front,before,right,back,whole,ahead,behind,blanks,first⟩ := documented.boundary left text
  rw [documented.words,documented.words,List.mem_filter,List.mem_filter]
  refine and_congr_left fun letters => ?_
  obtain ⟨c,member,_⟩ := List.any_eq_true.mp letters
  -- the white space has no word character, and neither begins nor is the piece with the space
  have outside : word ∉ front := by
    intro among
    have inside : c ∈ (unicode.splitWordBounds left).flatten := by
      rw [ahead]
      exact List.mem_flatten.mpr ⟨word,List.mem_append_left _ among,member⟩
    rw [unicode.bounds] at inside
    exact Bool.false_ne_true ((segSpace_wordChar (spaces c inside)).symm.trans (chars c member))
  have joined : word ≠ before ++ ' ' :: right := by
    rintro rfl
    exact Bool.false_ne_true (space_wordChar.symm.trans (chars ' ' (by simp)))
  have other : word ∉ [right].filter (!·.isEmpty) := by
    intro among
    obtain ⟨among,_⟩ := List.mem_filter.mp among
    obtain rfl := List.mem_singleton.mp among
    cases word with
    | nil => cases member
    | cons head tail => exact Bool.false_ne_true ((first head rfl).symm.trans (chars head List.mem_cons_self))
  rw [whole,behind,List.mem_append,List.mem_cons,List.mem_append]
  tauto

theorem mem_segmentTokens_congr {word first second : Text}
    (same : ∀ free, word ∈ flushNonCjk unicode config (first ++ free) ↔
      word ∈ flushNonCjk unicode config (second ++ free)) (text : Text) :
    word ∈ segmentTokens unicode config first text ↔ word ∈ segmentTokens unicode config second text := by
  induction text generalizing first second with
  | nil =>
    have alone := same []
    rw [List.append_nil,List.append_nil] at alone
    exact alone
  | cons c rest ih =>
    unfold segmentTokens
    split
    · have alone := same []
      rw [List.append_nil,List.append_nil] at alone
      rw [List.mem_append,List.mem_append,alone]
    · refine ih fun free => ?_
      have longer := same (c :: free)
      rw [List.append_assoc,List.append_assoc]
      exact longer

theorem segmentTokens_free (buffer : Text) {free : Text} (rest : Text) (plain : ∀ c ∈ free, isCjk c = false) :
    segmentTokens unicode config buffer (free ++ rest) = segmentTokens unicode config (buffer ++ free) rest := by
  induction free generalizing buffer with
  | nil => rw [List.nil_append,List.append_nil]
  | cons c others ih =>
    rw [List.cons_append,segmentTokens,plain c List.mem_cons_self,if_neg Bool.false_ne_true,
      ih _ fun other among => plain other (List.mem_cons_of_mem _ among),List.append_assoc,List.singleton_append]

include documented in
theorem flush_spaces {left : Text} (spaces : ∀ c ∈ left, isSegSpace c = true) :
    flushNonCjk unicode config left = [] := by
  refine List.eq_nil_iff_forall_not_mem.mpr fun word member => ?_
  have member := (List.mem_filter.mp member).1
  rw [documented.words] at member
  obtain ⟨piece,letters⟩ := List.mem_filter.mp member
  obtain ⟨c,inside,letter⟩ := List.any_eq_true.mp letters
  have among : c ∈ left := by
    rw [← unicode.bounds left]
    exact List.mem_flatten.mpr ⟨word,piece,inside⟩
  exact Bool.false_ne_true ((documented.blank c (spaces c among)).symm.trans letter)

include documented in
theorem segmentTokens_spaces {left : Text} (spaces : ∀ c ∈ left, isSegSpace c = true) :
    segmentTokens unicode config [] left = [] := by
  have free : segmentTokens unicode config [] (left ++ []) = segmentTokens unicode config ([] ++ left) [] :=
    segmentTokens_free config [] [] fun c among => segSpace_cjk (spaces c among)
  rw [List.append_nil] at free
  rw [free,List.nil_append,segmentTokens,flush_spaces documented config spaces]

private theorem flatMap_nonempty (segment : Text) (empty_ : segmentTokens unicode config [] [] = []) :
    ([segment].filter (!·.isEmpty)).flatMap (segmentTokens unicode config []) =
    segmentTokens unicode config [] segment := by
  cases segment with
  | nil => exact empty_.symm
  | cons c rest => exact List.flatMap_singleton _ _

include documented in
/-- The tokens before a space stay, and of the tokens made of word characters no others than those
of the two sides are there. -/
theorem primaryTokens_appended (text other : Text) :
    (∀ word ∈ primaryTokens unicode config text, word ∈ primaryTokens unicode config (text ++ ' ' :: other)) ∧
    ∀ word, (∀ c ∈ word, isWordChar c = true) →
      (word ∈ primaryTokens unicode config (text ++ ' ' :: other) ↔ word ∈ primaryTokens unicode config text ∨
        word ∈ primaryTokens unicode config other) := by
  obtain ⟨front,left,right,back,whole,ahead,behind,spaces,first⟩ := documented.boundary text other
  have empty_ : segmentTokens unicode config [] [] = [] := segmentTokens_spaces documented config (by simp)
  unfold primaryTokens
  rw [whole,ahead,behind,List.flatMap_append,List.flatMap_append,List.flatMap_append,List.flatMap_cons,
    flatMap_nonempty config _ empty_,
    flatMap_nonempty config _ empty_,segmentTokens_spaces documented config spaces,List.append_nil]
  refine ⟨fun word member => List.mem_append_left _ member,fun word chars => ?_⟩
  have middle : word ∈ segmentTokens unicode config [] (left ++ ' ' :: right) ↔
    word ∈ segmentTokens unicode config [] right := by
    have free : ∀ c ∈ left ++ [' '], isCjk c = false := by
      intro c among
      rcases List.mem_append.mp among with inside | here
      · exact segSpace_cjk (spaces c inside)
      · rw [List.mem_singleton.mp here]
        decide
    have split_ : segmentTokens unicode config [] (left ++ [' '] ++ right) =
      segmentTokens unicode config ([] ++ (left ++ [' '])) right :=
      segmentTokens_free config [] right free
    rw [List.append_assoc,List.singleton_append,List.nil_append] at split_
    rw [split_]
    refine mem_segmentTokens_congr config (fun free => ?_) right
    unfold flushNonCjk
    rw [List.mem_filter,List.mem_filter,List.append_assoc,List.singleton_append,
      mem_unicodeWords_after documented spaces chars,List.nil_append]
  rw [List.mem_append,List.mem_append,List.mem_append,middle]

private theorem splitOnP_apart (separator : Char → Bool) (text : Text) {piece : Text}
    (member : piece ∈ text.splitOnP separator) :
    ∀ c ∈ piece, separator c = false := by
  induction text generalizing piece with
  | nil =>
    rw [List.splitOnP_nil,List.mem_singleton] at member
    simp [member]
  | cons first rest ih =>
    rw [List.splitOnP_cons_eq_if_modifyHead] at member
    split at member
    · rcases List.mem_cons.mp member with rfl | later
      · simp
      · exact ih later
    · rename_i inside
      obtain ⟨head,tail,pieces⟩ := List.exists_cons_of_ne_nil (List.splitOnP_ne_nil separator rest)
      rw [pieces,List.modifyHead_cons] at member
      rcases List.mem_cons.mp member with rfl | later
      · intro c among
        rcases List.mem_cons.mp among with rfl | after
        · exact Bool.eq_false_of_not_eq_true inside
        · exact ih (pieces ▸ List.mem_cons_self) c after
      · exact ih (pieces ▸ List.mem_cons_of_mem _ later)

theorem asciiWords_chars {text word : Text} (member : word ∈ asciiWords config text) :
    ∀ c ∈ word, isWordChar c = true := by
  obtain ⟨piece,_⟩ := List.mem_filter.mp member
  have apart := splitOnP_apart _ text piece
  exact fun c among => (Bool.not_eq_false' _).mp (apart c among)

theorem mem_map_ofList {words : List Text} {word : Text} :
    String.ofList word ∈ words.map String.ofList ↔ word ∈ words :=
  List.mem_map_of_injective fun _ _ same => String.ofList_injective same

include documented in
/-- The terms of a text are terms of the text with more behind it, unless only the longer text is taken apart by
the Unicode rules and these find a word of ASCII in neither side. -/
theorem textTerms_appended_iff (text other : Text) :
    (∀ word ∈ textTerms unicode config text, word ∈ textTerms unicode config (text ++ ' ' :: other)) ↔
      isAsciiText text = false ∨ isAsciiText other = true ∨
        ∀ word ∈ asciiWords config text, word ∈ primaryTokens unicode config text ∨
        word ∈ primaryTokens unicode config other := by
  unfold textTerms
  rw [isAsciiText_appended]
  by_cases ascii : isAsciiText text = true
  · by_cases both : isAsciiText other = true
    · rw [ascii,both,if_pos rfl,Bool.and_true,if_pos rfl,asciiWords_appended]
      exact iff_of_true (fun word member => List.mem_append_left _ member) (Or.inr (Or.inl rfl))
    · rw [ascii,if_pos rfl,Bool.true_and,if_neg both,or_iff_right (by simp),or_iff_right both]
      refine forall₂_congr fun word member => ?_
      have chars := asciiWords_chars config member
      have gram : word ∉ (cjkRuns [] (text ++ ' ' :: other)).flatMap (grams config) := by
        intro among
        obtain ⟨c,inside,cjk⟩ := gram_spec config among
        exact Bool.false_ne_true ((wordChar_cjk (chars c inside)).symm.trans cjk)
      rw [List.mem_append,or_iff_left gram]
      exact (primaryTokens_appended documented config text other).2 word chars
  · rw [Bool.eq_false_of_not_eq_true ascii,Bool.false_and,if_neg Bool.false_ne_true,if_neg Bool.false_ne_true,
      cjkRuns_appended,List.flatMap_append]
    refine iff_of_true (fun word member => ?_) (Or.inl rfl)
    rcases List.mem_append.mp member with token | gram
    · exact List.mem_append_left _ ((primaryTokens_appended documented config text other).1 word token)
    · exact List.mem_append_right _ (List.mem_append_left _ gram)

end Texts

/-- Every term of a text is still a term once another text stands beside it or behind it. -/
def KeepsTerms (unicode : Unicode) (config : FtsConfig) (text other : Text) : Prop :=
  ∀ term ∈ (analyzeDocument unicode config text).terms,
    term ∈ (analyzeValues unicode config [text,other]).terms ∧
    term ∈ (analyzeDocument unicode config (text ++ ' ' :: other)).terms

/-- Another value always keeps the terms; text behind a space does unless it brings the first
character beyond ASCII and a word of ASCII is then no word by the Unicode rules. -/
theorem keepsTerms_iff {unicode : Unicode} {alphanumeric : Char → Bool} (documented : unicode.Documented alphanumeric)
    (config : FtsConfig)
    (text other : Text) :
    KeepsTerms unicode config text other ↔
      isAsciiText (normalize unicode text) = false ∨ isAsciiText (normalize unicode other) = true ∨
        ∀ word ∈ asciiWords config (normalize unicode text),
          word ∈ primaryTokens unicode config (normalize unicode text) ∨
          word ∈ primaryTokens unicode config (normalize unicode other) := by
  rw [← textTerms_appended_iff documented,← normalize_appended documented]
  have beside : ∀ term ∈ (analyzeDocument unicode config text).terms,
    term ∈ (analyzeValues unicode config [text,other]).terms :=
    fun term member => (mem_analyzeValues unicode config _ term).mpr ⟨text,List.mem_cons_self,member⟩
  constructor
  · intro keeps word member
    have term := (keeps (String.ofList word) ((mem_analyzeDocument unicode config text _).mpr
      (mem_map_ofList.mpr member))).2
    exact mem_map_ofList.mp ((mem_analyzeDocument unicode config _ _).mp term)
  · intro keeps term member
    refine ⟨beside term member,?_⟩
    obtain ⟨word,among,rfl⟩ := List.mem_map.mp ((mem_analyzeDocument unicode config text term).mp member)
    exact (mem_analyzeDocument unicode config _ _).mpr (mem_map_ofList.mpr (keeps word among))

def spacedPieces (run : Text) : Text → List Text
  | [] => [run].filter (!·.isEmpty)
  | c :: rest => if c = ' ' then [run].filter (!·.isEmpty) ++ [' '] :: spacedPieces [] rest
    else spacedPieces (run ++ [c]) rest

theorem flatten_filter (run : Text) : ([run].filter (!·.isEmpty)).flatten = run := by
  cases run with
  | nil => rfl
  | cons c rest => exact List.append_nil _

theorem spacedPieces_flatten (run text : Text) : (spacedPieces run text).flatten = run ++ text := by
  induction text generalizing run with
  | nil => rw [spacedPieces,flatten_filter,List.append_nil]
  | cons c rest ih =>
    unfold spacedPieces
    split
    · rename_i space
      rw [space,List.flatten_append,List.flatten_cons,ih,flatten_filter]
      simp
    · rw [ih,List.append_assoc,List.singleton_append]

theorem spacedPieces_appended (run text other : Text) :
    spacedPieces run (text ++ ' ' :: other) = spacedPieces run text ++ [' '] :: spacedPieces [] other := by
  induction text generalizing run with
  | nil =>
    rw [List.nil_append,spacedPieces]
    exact if_pos rfl
  | cons c rest ih =>
    rw [List.cons_append,spacedPieces,spacedPieces]
    split
    · rw [ih,List.append_assoc,List.cons_append]
    · exact ih _

def isLetter (c : Char) : Bool := c.isAlphanum || decide (128 ≤ c.val) && !isSegSpace c

def spacedUnicode : Unicode :=
  ⟨id,fun c => [c.toLower],spacedPieces [],fun text => (spacedPieces [] text).filter fun piece => piece.any isLetter,
    spacedPieces_flatten []⟩

theorem spacedUnicode_documented : spacedUnicode.Documented isLetter where
  ascii _ _ := rfl
  spaced _ _ := rfl
  lower _ _ := rfl
  words _ := rfl
  blank c space := by
    have plain : c.isAlphanum = false := by
      have char := segSpace_wordChar space
      unfold isWordChar at char
      exact (Bool.or_eq_false_iff.mp char).1
    rw [isLetter,plain,space,Bool.not_true,Bool.and_false,Bool.or_false]
  boundary text other := by
    refine ⟨spacedPieces [] text,[],[],spacedPieces [] other,spacedPieces_appended [] text other,?_,rfl,by simp,by simp⟩
    exact (List.append_nil _).symm

theorem keepsTerms_iff_accents : KeepsTerms spacedUnicode ⟨3,2⟩ "quick fox".toList "été".toList :=
  (keepsTerms_iff spacedUnicode_documented ⟨3,2⟩ _ _).mpr (by decide +kernel)

/-- An apostrophe keeps a word whole once a letter beyond ASCII is there. -/
theorem apostrophe_hides_word : ¬ KeepsTerms spacedUnicode ⟨3,2⟩ "don't".toList "é".toList := by
  intro keeps
  have term : "don" ∈ (analyzeDocument spacedUnicode ⟨3,2⟩ "don't".toList).terms := by decide +kernel
  have hidden : "don" ∉ (analyzeDocument spacedUnicode ⟨3,2⟩ ("don't".toList ++
    ' ' :: "é".toList)).terms := by decide +kernel
  exact hidden (keeps "don" term).2

end ApexBase.Fts
