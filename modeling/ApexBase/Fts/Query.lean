import ApexBase.Fts.Analyzer

/-! Taking a query apart and matching documents (`fts/query.rs`). -/
namespace ApexBase.Fts

def isWhitespace (c : Char) : Bool :=
  let code := c.val
  0x9 ≤ code && code ≤ 0xd || code == 0x20 || code == 0x85 || code == 0xa0 || code == 0x1680 || 0x2000 ≤ code &&
  code ≤ 0x200a ||
    code == 0x2028 || code == 0x2029 || code == 0x202f || code == 0x205f || code == 0x3000

def trim (text : Text) : Text := ((text.dropWhile isWhitespace).reverse.dropWhile isWhitespace).reverse

def splitWhitespace (text : Text) : List Text := (text.splitOnP isWhitespace).filter fun word => !word.isEmpty

def eqIgnoreAsciiCase (token word : Text) : Bool := token.map Char.toLower == word.map Char.toLower

inductive FtsError
  | corruptIndex (message : String)
  deriving DecidableEq, Repr

def phraseQuery (query : Text) : Text × Bool :=
  let query := trim query
  if 2 ≤ query.length && query.head? == some '"' && query.getLast? == some '"' then ((query.drop 1).dropLast,true)
  else (query,false)

section Match
variable (state : IndexState)

/-- The postings one after the other, as long as documents are left. -/
def intersectAll (result : DocSet) : List DocSet → DocSet
  | [] => result
  | docs :: rest => if result ∩ docs = ∅ then result ∩ docs else intersectAll (result ∩ docs) rest

/-- The documents in all postings, the smallest posting first. -/
def intersectPostings (postings : List DocSet) : DocSet :=
  match (List.range postings.length).insertionSort (fun a b => ((postings[a]?).getD ∅).card ≤
      ((postings[b]?).getD ∅).card) with
  | [] => ∅
  | smallest :: rest =>
    let result := (postings[smallest]?).getD ∅
    if result = ∅ then result else intersectAll result (rest.map fun index => (postings[index]?).getD ∅)

def queryTokens (analyzed : AnalyzedDocument) : List UInt32 :=
  analyzed.tokens.filterMap fun localId => if localId = 0 then none
    else (analyzed.terms[localId.toNat - 1]?).bind state.termId

def windows (size : Nat) (tokens : List UInt32) : List (List UInt32) :=
  (List.range (tokens.length + 1 - size)).map fun start => (tokens.drop start).take size

def matchingDocsFromPostings (postings : List DocSet) (analyzed : AnalyzedDocument) (phrase : Bool) : DocSet :=
  let result := intersectPostings postings
  if result = ∅ || !phrase then result
  else
    let tokens := queryTokens state analyzed
    if tokens.isEmpty then ∅
    else result.filter fun docId => ((state.tokensForDoc docId).any fun list =>
      (windows tokens.length list).any (· == tokens)) = true

def matchingDocs (analyzed : AnalyzedDocument) (phrase : Bool) : DocSet :=
  matchingDocsFromPostings state (analyzed.terms.map state.posting) analyzed phrase

end Match

def isOperator (token : Text) : Bool :=
  eqIgnoreAsciiCase token "OR".toList || eqIgnoreAsciiCase token "AND".toList || eqIgnoreAsciiCase token "NOT".toList ||
    token.head? == some '-'

def hasOperators (query : Text) : Bool := (splitWhitespace query).any isOperator

/-- The terms of one alternative, each forbidden or required. -/
abbrev Group := List (Bool × Text)

/-- The alternatives so far, the last of them, and whether the next term is negated. -/
def parseGroups (done : List Group) (last : Group) (negateNext : Bool) : List Text → Except FtsError (List Group)
  | [] =>
    if negateNext || last.isEmpty then .error (.corruptIndex "FTS query ends with an operator")
    else .ok (done ++ [last])
  | token :: rest =>
    if eqIgnoreAsciiCase token "OR".toList then
      if last.isEmpty then .error (.corruptIndex "FTS query has OR without a left operand")
      else parseGroups (done ++ [last]) [] false rest
    else if eqIgnoreAsciiCase token "AND".toList then parseGroups done last negateNext rest
    else if eqIgnoreAsciiCase token "NOT".toList then parseGroups done last true rest
    else if '*' ∈ token ∨ '?' ∈ token ∨ ':' ∈ token then
      .error (.corruptIndex ("Unsupported FTS query operator in '" ++ String.ofList token ++ "'"))
    else
      let prefixedNegative := token.head? == some '-' && decide (1 < token.length)
      let term := if token.head? == some '-' || token.head? == some '+' then token.drop 1 else token
      if term.isEmpty then .error (.corruptIndex "Empty FTS query term")
      else parseGroups done (last ++ [(negateNext || prefixedNegative,term)]) false rest

section Boolean
variable (unicode : Unicode) (config : FtsConfig) (state : IndexState)

def termDocs (term : Text) : DocSet := matchingDocs state (analyzeDocument unicode config term) false

/-- The documents with every required term and no forbidden one; none, if no term is required. -/
def groupDocs (group : Group) : DocSet :=
  let positives := group.foldl (fun (positives : Option DocSet) term =>
    if term.1 then positives
    else
      match positives with
      | some current => some (current ∩ termDocs unicode config state term.2)
      | none => some (termDocs unicode config state term.2)) none
  let negatives := (group.filter (·.1)).map fun term => termDocs unicode config state term.2
  negatives.foldl (· \ ·) (positives.getD ∅)

def matchingBooleanQuery (query : Text) : Except FtsError (Option DocSet) :=
  if !hasOperators query then .ok none
  else
    match parseGroups [] [] false (splitWhitespace query) with
    | .error error => .error error
    | .ok groups => .ok (some (groups.foldl (fun union group => union ∪ groupDocs unicode config state group) ∅))

end Boolean

end ApexBase.Fts
