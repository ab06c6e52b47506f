import ApexBase.Fts.State
import Mathlib.Data.String.Basic

/-! Taking a text apart into terms and tokens (`fts/analyzer.rs`). A text is the list of
its characters. -/
namespace ApexBase.Fts

abbrev Text := List Char

structure Unicode where
  nfkc : Text → Text
  toLowercase : Char → Text
  splitWordBounds : Text → List Text
  unicodeWords : Text → List Text
  /-- The pieces between word boundaries make up the text. -/
  bounds : ∀ text, (splitWordBounds text).flatten = text

structure FtsConfig where
  maxChineseLength : Nat
  minTermLength : Nat

def isAsciiText (text : Text) : Bool := text.all fun c => decide (c.val < 128)

def isCjk (c : Char) : Bool :=
  let code := c.val
  0x3400 ≤ code && code ≤ 0x4dbf || 0x4e00 ≤ code && code ≤ 0x9fff || 0xf900 ≤ code && code ≤ 0xfaff ||
    0x3040 ≤ code && code ≤ 0x309f || 0x30a0 ≤ code && code ≤ 0x30ff || 0x31f0 ≤ code && code ≤ 0x31ff ||
    0xac00 ≤ code && code ≤ 0xd7af

/-- The terms in the order of their ids, which start at one, and the ids of the tokens. -/
structure AnalysisBuilder where
  terms : List String
  tokens : List Nat
  inside : ∀ token ∈ tokens, token ≤ terms.length

namespace AnalysisBuilder

def empty : AnalysisBuilder := ⟨[],[],nofun⟩

/-- The terms once this one is among them, and its id. -/
def interned (terms : List String) (term : String) : List String × Nat :=
  if term ∈ terms then (terms,terms.idxOf term + 1) else (terms ++ [term],terms.length + 1)

theorem le_interned (terms : List String) (term : String) :
    terms.length ≤ (interned terms term).1.length ∧ (interned terms term).2 ≤ (interned terms term).1.length := by
  unfold interned
  split
  · rename_i member
    exact ⟨Nat.le_refl _,List.idxOf_lt_length_iff.mpr member⟩
  · simp

def intern (builder : AnalysisBuilder) (term : String) : AnalysisBuilder :=
  ⟨(interned builder.terms term).1,builder.tokens,fun token member =>
    (builder.inside token member).trans (le_interned _ _).1⟩

def push (builder : AnalysisBuilder) (term : String) : AnalysisBuilder :=
  ⟨(interned builder.terms term).1,builder.tokens ++ [(interned builder.terms term).2],fun token member => by
    rcases List.mem_append.mp member with before | here
    · exact (builder.inside token before).trans (le_interned _ _).1
    · rw [List.mem_singleton.mp here]
      exact (le_interned _ _).2⟩

def pushBoundary (builder : AnalysisBuilder) : AnalysisBuilder :=
  ⟨builder.terms,builder.tokens ++ [0],fun token member => by
    rcases List.mem_append.mp member with before | here
    · exact builder.inside token before
    · rw [List.mem_singleton.mp here]
      exact Nat.zero_le _⟩

def popToken (builder : AnalysisBuilder) : AnalysisBuilder :=
  ⟨builder.terms,builder.tokens.dropLast,fun token member => builder.inside token (List.mem_of_mem_dropLast member)⟩

/-- The terms sorted, and the tokens as indexes into them. -/
def finish (builder : AnalysisBuilder) : AnalyzedDocument :=
  let sorted := builder.terms.insertionSort (· ≤ ·)
  ⟨sorted,builder.tokens.map fun token =>
      if token = 0 then 0 else .ofNat (sorted.idxOf ((builder.terms[token - 1]?).getD "") + 1),fun token member => by
    obtain ⟨id,among,rfl⟩ := List.mem_map.mp member
    split
    · exact Nat.zero_le _
    · rename_i word
      have within : id - 1 < builder.terms.length := by
        have least := builder.inside id among
        omega
      rw [List.getElem?_eq_getElem within,Option.getD_some]
      have known : builder.terms[id - 1] ∈ builder.terms.insertionSort (· ≤ ·) :=
        (List.mem_insertionSort _).mpr (List.getElem_mem within)
      have index := List.idxOf_lt_length_iff.mpr known
      exact (Nat.mod_le _ _).trans index⟩

end AnalysisBuilder

section Analyze
variable (unicode : Unicode) (config : FtsConfig)

def normalize (text : Text) : Text :=
  if isAsciiText text then text.map Char.toLower else (unicode.nfkc text).flatMap unicode.toLowercase

def flushNonCjk (buffer : Text) : List Text := (unicode.unicodeWords buffer).filter fun word =>
    decide (config.minTermLength ≤ word.length)

/-- Every CJK character is a token, and so is every word between them. -/
def segmentTokens (buffer : Text) : Text → List Text
  | [] => flushNonCjk unicode config buffer
  | c :: rest =>
    if isCjk c then flushNonCjk unicode config buffer ++ [c] :: segmentTokens [] rest
    else segmentTokens (buffer ++ [c]) rest

def primaryTokens (normalized : Text) : List Text :=
  (unicode.splitWordBounds normalized).flatMap (segmentTokens unicode config [])

def cjkRuns (run : Text) : Text → List Text
  | [] => if run.isEmpty then [] else [run]
  | c :: rest =>
    if isCjk c then cjkRuns (run ++ [c]) rest
    else if run.isEmpty then cjkRuns [] rest else run :: cjkRuns [] rest

def grams (run : Text) : List Text :=
  (List.range (min (max config.maxChineseLength 1) run.length)).flatMap fun n =>
    (List.range (run.length - (n + 1) + 1)).map fun offset => (run.drop offset).take (n + 1)

def asciiWords (normalized : Text) : List Text :=
  (normalized.splitOnP fun c => !(c.isAlphanum || c == '_')).filter fun word =>
    decide (config.minTermLength ≤ word.length)

def AnalysisBuilder.addText (builder : AnalysisBuilder) (text : Text) : AnalysisBuilder :=
  let normalized := normalize unicode text
  if isAsciiText normalized then
    (asciiWords config normalized).foldl (fun builder word => builder.push (String.ofList word)) builder
  else
    let pushed := (primaryTokens unicode config normalized).foldl (fun builder token =>
      builder.push (String.ofList token)) builder
    ((cjkRuns [] normalized).flatMap (grams config)).foldl (fun builder gram =>
      builder.intern (String.ofList gram)) pushed

def analyzeDocument (text : Text) : AnalyzedDocument := (AnalysisBuilder.empty.addText unicode config text).finish

/-- One more field: a boundary before it, unless it adds nothing. -/
def addValue (builder : AnalysisBuilder) (value : Text) : AnalysisBuilder :=
  let bounded := if 0 < builder.tokens.length then builder.pushBoundary else builder
  let added := bounded.addText unicode config value
  if added.tokens.length = bounded.tokens.length ∧ 0 < builder.tokens.length then added.popToken else added

def analyzeValues (values : List Text) : AnalyzedDocument := (values.foldl (addValue unicode config) .empty).finish

end Analyze

example : (analyzeDocument ⟨id,fun c => [c],fun text => [text],fun text => [text],by simp⟩ ⟨3,
    2⟩ "Quick, quick fox".toList).terms = ["fox","quick"] := by
  decide +kernel

end ApexBase.Fts
