import ApexBase.Fts.Query
import ApexBase.Library.Assoc
import ApexBase.Library.Binary64
import ApexBase.Library.Bytewise

/-! Sorting statements by their text (`query/query_signature.rs`). The outer `none` of a result is a
panic, the inner one `None`. -/
namespace ApexBase.Query.Signature
open Library Library.Bytewise Fts

structure StandardText where
  /-- `char::to_uppercase`; `str::to_uppercase` goes character by character. -/
  toUppercase : Char → Text
  /-- `str::to_lowercase`. -/
  toLowercase : Text → Text
  /-- `str::parse::<f64>`, as bits. -/
  parseF64 : Text → Option UInt64
  ascii : ∀ c : Char, c.val < 128 → toUppercase c = [c.toUpper]
  whitespace : ∀ c, isWhitespace c = true → toUppercase c = [c]

def startsWith (text : Text) (start : String) : Bool := start.toList.isPrefixOf text

def endsWith (text : Text) (ending : String) : Bool := ending.toList.isSuffixOf text

def has (text : Text) (part : String) : Bool := contains part.toList text

def toAsciiUppercase (text : Text) : Text := text.map Char.toUpper

def trimStart (text : Text) : Text := text.dropWhile isWhitespace

def trimEndMatches (c : Char) (text : Text) : Text := (text.reverse.dropWhile (· == c)).reverse

def trimMatches (p : Char → Bool) (text : Text) : Text := ((text.dropWhile p).reverse.dropWhile p).reverse

def isDigit (c : Char) : Bool := 48 ≤ c.val && c.val ≤ 57

/-- `parse::<u64>`: digits, after a plus sign or none. -/
def parseU64 (text : Text) : Option UInt64 :=
  let digits := if text.head? = some '+' then text.drop 1 else text
  if digits = [] ∨ ¬ digits.all isDigit then none
  else
    let value := digits.foldl (fun total c => total * 10 + (c.toNat - 48)) 0
    if value < 2^64 then some (UInt64.ofNat value) else none

def isZero (bits : UInt64) : Bool := Binary64.magnitude bits = 0

def infinity : UInt64 := 0x7FF0000000000000

def negInfinity : UInt64 := 0xFFF0000000000000

def nextUpF64 (value : UInt64) : UInt64 :=
  if Binary64.isNan value ∨ value = infinity then value
  else if isZero value then 1
  else if ¬ Binary64.negative value then value + 1 else value - 1

def nextDownF64 (value : UInt64) : UInt64 :=
  if Binary64.isNan value ∨ value = negInfinity then value
  else if isZero value then 0x8000000000000001
  else if ¬ Binary64.negative value then value - 1 else value + 1

inductive DdlKind
  | createTable (name : Text)
  | dropTable (name : Text)
  | other
  deriving DecidableEq

inductive QuerySignature
  | countStar (table : Text)
  | pointLookup (id : UInt64) (table : Option Text)
  | projectedPointLookup (id : UInt64) (table : Option Text) (columns : List Text)
  | idBatchLookup (ids : List UInt64) (table : Option Text)
  | projectedIdBatchLookup (ids : List UInt64) (table : Option Text) (columns : List Text)
  | fullScan (table : Option Text)
  | projectedFullScan (table : Option Text) (columns : List Text)
  | simpleScanLimit (limit offset : UInt64) (table : Option Text)
  | projectedScanLimit (limit offset : UInt64) (table : Option Text) (columns : List Text)
  | stringEqualityFilter (table : Option Text) (column value : Text)
  | stringEqualityFilterLimit (table : Option Text) (column value : Text) (limit offset : UInt64)
  | projectedStringEqualityFilter (table : Option Text) (columns : List Text) (column value : Text)
  | projectedStringEqualityFilterLimit (table : Option Text) (columns : List Text) (column value : Text)
    (limit offset : UInt64)
  | numericRangeFilterLimit (table : Option Text) (column : Text) (low high : UInt64) (limit offset : UInt64)
  | projectedNumericRangeFilterLimit (table : Option Text) (columns : List Text) (column : Text) (low high : UInt64)
    (limit offset : UInt64)
  | likeFilter (table : Option Text) (column pattern : Text)
  | tableFunction
  | directFileRead
  | ddl (kind : DdlKind)
  | dmlWrite
  | transaction
  | multiStatement
  | sessionCommand
  | explain
  | cte
  | filteredStringAgg (table : Option Text) (filterColumn filterValue : Text)
  | complex
  deriving DecidableEq

def parseLimitOffsetClause (clause : Text) : Option (UInt64 × UInt64) :=
  match splitWhitespace clause with
  | [] => none
  | first :: rest =>
    (parseU64 first).bind fun limit =>
      match rest with
      | [] => some (limit,0)
      | [_] => none
      | keyword :: value :: others =>
        if eqIgnoreAsciiCase keyword "OFFSET".toList then
          (parseU64 value).bind fun parsed => if others.isEmpty then some (limit,parsed) else none
        else none

def parseStringEqualityClause (clause : Text) : Option (Option (Text × Text)) :=
  let afterWhere := trim clause
  match find ['='] afterWhere with
  | none => some none
  | some eqPos => do
    let col := trimMatches (· == '"') (trim (← upTo afterWhere eqPos))
    if col.contains ' ' || col.contains '(' then return none
    else
      let rhs := trim (← onFrom afterWhere (eqPos + 1))
      if rhs.head? ≠ some '\'' then return none
      else
        match find ['\''] (← onFrom rhs 1) with
        | none => return none
        | some valEnd =>
          let val ← between rhs 1 (1 + valEnd)
          -- an empty string is left to the general evaluator
          if val.isEmpty then return none
          else
            let rest := trim (← onFrom rhs (1 + valEnd + 1))
            return if rest.isEmpty then some (col,val) else none

variable (standard : StandardText)

def operators : List Text := [">=".toList,"<=".toList,">".toList,"<".toList,"=".toList]

/-- The bounds that a comparison with a number leaves, both included. -/
def comparisonBounds (op : Text) (value : UInt64) : Option (UInt64 × UInt64) :=
  if op = "=".toList then some (value,value)
  else if op = ">".toList then some (nextUpF64 value,infinity)
  else if op = ">=".toList then some (value,infinity)
  else if op = "<".toList then some (negInfinity,nextDownF64 value)
  else if op = "<=".toList then some (negInfinity,value)
  else none

def parseNumericComparisonClause (clause : Text) : Option (Option (Text × UInt64 × UInt64)) :=
  let clause := trim clause
  match operators.findSome? fun op => (find op clause).map fun pos => (op,pos) with
  | none => some none
  | some (op,opPos) => do
    let col := trimMatches (· == '"') (trim (← upTo clause opPos))
    if col.isEmpty || col.contains ' ' || col.contains '(' then return none
    else
      let rhs := trim (← onFrom clause (opPos + bytesLen op))
      return (standard.parseF64 rhs).bind fun value => (comparisonBounds op value).map fun bounds =>
        (col,bounds.1,bounds.2)

def extractFromTable (sql su : Text) : Option (Option Text) :=
  match find " FROM ".toList su with
  | none => some none
  | some fp => do
    let afterFrom := trimStart (← onFrom sql (fp + 6))
    let tnEnd := (findChar (fun c => isWhitespace c || c == ';') afterFrom).getD (bytesLen afterFrom)
    let tname := standard.toLowercase (trimMatches (· == '"') (← upTo afterFrom tnEnd))
    return if tname.isEmpty then none else some tname

/-- What stands behind the first WHERE, without the semicolons at the end. -/
def afterWhereTrimmed (sql : Text) (wherePos : Nat) : Option Text := do
  return trim (trimEndMatches ';' (trim (← onFrom sql (wherePos + 5))))

def idEqualityPrefixes : List Text := ["_ID =".toList,"_ID=".toList,"\"_ID\" =".toList,"\"_ID\"=".toList]

def extractSimpleIdEquality (sql su : Text) : Option (Option UInt64) :=
  match find "WHERE".toList su with
  | none => some none
  | some wherePos => do
    let afterWhere ← afterWhereTrimmed sql wherePos
    match idEqualityPrefixes.find? (·.isPrefixOf (toAsciiUppercase afterWhere)) with
    | none => return none
    | some idPrefix =>
      let rhs := trimStart (← onFrom afterWhere (bytesLen idPrefix))
      let numEnd := (findChar (!isDigit ·) rhs).getD (bytesLen rhs)
      if numEnd = 0 then return none
      else
        let rest := trim (← onFrom rhs numEnd)
        let digits ← upTo rhs numEnd
        return if rest.isEmpty then parseU64 digits else none

def idListPrefixes : List Text := ["_ID IN".toList,"\"_ID\" IN".toList]

def extractSimpleIdInList (sql su : Text) : Option (Option (List UInt64)) :=
  match find "WHERE".toList su with
  | none => some none
  | some wherePos => do
    let afterWhere ← afterWhereTrimmed sql wherePos
    match idListPrefixes.find? (·.isPrefixOf (toAsciiUppercase afterWhere)) with
    | none => return none
    | some idPrefix =>
      let rhs := trimStart (← onFrom afterWhere (bytesLen idPrefix))
      if rhs.head? ≠ some '(' then return none
      else
        match find [')'] rhs with
        | none => return none
        | some endPos =>
          let list := trim (← between rhs 1 endPos)
          let rest := trim (← onFrom rhs (endPos + 1))
          if ¬ rest.isEmpty ∨ list.isEmpty then return none
          else return ((list.splitOn ',').mapM fun part => parseU64 (trim part)).filter (¬ ·.isEmpty)

def extractLimitOffsetFromUpper (su : Text) : Option (UInt64 × UInt64) :=
  let afterLimit := ((splitLast "LIMIT".toList su).map (·.2)).getD su
  parseLimitOffsetClause (trimEndMatches ';' (trim afterLimit))

def lastPart (text : Text) : Text := ((text.splitOn '.').getLast?).getD text

/-- The names of a projection without expressions, each once. -/
def projectionColumns : List Text → List Text → Option (List Text)
  | [],columns => some columns
  | rawPart :: rest,columns =>
    let raw := trim rawPart
    let rawUpper := toAsciiUppercase raw
    if raw.isEmpty || raw == ['*'] || endsWith raw ".*" || raw.any (fun c => c ∈ ['(',')','+','-','/','\'']) ||
      has rawUpper " AS " ||
        raw.any isWhitespace then none
    else
      let normalized := trimMatches (fun c => c == '"' || c == '`') (lastPart raw)
      if normalized.isEmpty || normalized == ['*'] || columns.contains normalized then none
      else projectionColumns rest (columns ++ [normalized])

def extractSimpleProjectionColumns (sql su : Text) : Option (Option (List Text)) :=
  if ¬ startsWith su "SELECT" then some none
  else
    match find " FROM ".toList su with
    | none => some none
    | some fromPos => do
      let projection := trim (← between sql 6 fromPos)
      if projection.isEmpty || projection == ['*'] then return none
      else return (projectionColumns (projection.splitOn ',') []).filter (¬ ·.isEmpty)

def hasExactStarProjection (sql su : Text) : Option Bool :=
  if ¬ startsWith su "SELECT" then some false
  else
    match find " FROM ".toList su with
    | none => some false
    | some fromPos => do return trim (← between sql 6 fromPos) == ['*']

def extractStringEquality (sql su : Text) : Option (Option (Text × Text)) :=
  match find "WHERE".toList su with
  | none => some none
  | some wherePos => do parseStringEqualityClause (trimEndMatches ';' (trim (← onFrom sql (wherePos + 5))))

/-- The texts before and behind the last LIMIT, from the first WHERE on. -/
def whereAndLimit (sql su : Text) : Option (Option (Text × Text)) :=
  match find "WHERE".toList su,rfind "LIMIT".toList su with
  | some wherePos,some limitPos =>
    if limitPos ≤ wherePos then some none
    else do
      let whereClause := trim (← between sql (wherePos + 5) limitPos)
      let afterLimit := trim (trimEndMatches ';' (trim (← onFrom sql (limitPos + 5))))
      return some (whereClause,afterLimit)
  | _,_ => some none

def extractStringEqualityWithLimit (sql su : Text) : Option (Option (Text × Text × UInt64 × UInt64)) := do
  match ← whereAndLimit sql su with
  | none => return none
  | some (whereClause,afterLimit) =>
    match ← parseStringEqualityClause whereClause with
    | none => return none
    | some (column,value) => return (parseLimitOffsetClause afterLimit).map fun limits =>
      (column,value,limits.1,limits.2)

def extractNumericRangeWithLimit (sql su : Text) : Option (Option (Text × UInt64 × UInt64 × UInt64 × UInt64)) := do
  match ← whereAndLimit sql su with
  | none => return none
  | some (whereClause,afterLimit) =>
    match ← parseNumericComparisonClause standard whereClause with
    | none => return none
    | some (column,low,high) => return (parseLimitOffsetClause afterLimit).map fun limits =>
      (column,low,high,limits.1,limits.2)

/-- The keyword is skipped, if it is there, at a fixed number of bytes. -/
def skipKeyword (keyword : String) (rest : Text) : Option Text :=
  let length := bytesLen keyword.toList
  if bytesLen rest ≥ length then do
    if eqIgnoreAsciiCase (← upTo rest length) keyword.toList then return trimStart (← onFrom rest length)
    else return rest
  else some rest

def leadingName (stops : Char → Bool) (rest : Text) : Text :=
  standard.toLowercase (trimMatches (fun c => c == '"' || c == '\'' || c == '`') (rest.takeWhile (!stops ·)))

def extractDdlKind (sql su : Text) : Option DdlKind :=
  if startsWith su "CREATE TABLE" || startsWith su "CREATE TEMP TABLE" || startsWith su "CREATE TEMPORARY TABLE" then do
    let tablePos ← find "TABLE".toList su
    let rest ← skipKeyword "IF NOT EXISTS" (trimStart (← onFrom sql (tablePos + 5)))
    let tbl := leadingName standard (fun c => isWhitespace c || c == '(' || c == ';') rest
    return if tbl.isEmpty then .other else .createTable tbl
  else if startsWith su "DROP TABLE" then do
    let rest ← skipKeyword "IF EXISTS" (trimStart (← onFrom sql 10))
    let tbl := leadingName standard (fun c => isWhitespace c || c == ';') rest
    return if tbl.isEmpty then .other else .dropTable tbl
  else some .other

/-- The position of LIKE is one of the upper case of the clause. -/
def extractLikePattern (sql su : Text) : Option (Option (Text × Text)) :=
  match find "WHERE".toList su with
  | none => some none
  | some wherePos => do
    let afterWhere := trimEndMatches ';' (trim (← onFrom sql (wherePos + 5)))
    match find " LIKE ".toList (afterWhere.flatMap standard.toUppercase) with
    | none => return none
    | some likePos =>
      let col := trimMatches (· == '"') (trim (← upTo afterWhere likePos))
      if col.contains ' ' || col.contains '(' then return none
      else
        let rhs := trim (← onFrom afterWhere (likePos + 6))
        if rhs.head? ≠ some '\'' then return none
        else
          match find ['\''] (← onFrom rhs 1) with
          | none => return none
          | some valEnd =>
            let pattern ← between rhs 1 (1 + valEnd)
            let rest := trim (← onFrom rhs (1 + valEnd + 1))
            return if rest.isEmpty then some (col,pattern) else none

def isIdentByte (b : UInt8) : Bool := 48 ≤ b && b ≤ 57 || 65 ≤ b && b ≤ 90 || 97 ≤ b && b ≤ 122 || b == 95

def lowerByte (b : UInt8) : UInt8 := if 65 ≤ b && b ≤ 90 then b + 32 else b

/-- Whether a keyword stands at the start of the bytes, with no name going on before or behind it. -/
def keywordAt (keyword : List UInt8) (previous : Option UInt8) (bytes : List UInt8) : Bool :=
  bytes.length ≥ keyword.length && (bytes.take keyword.length).map lowerByte == keyword.map lowerByte &&
    !(previous.any isIdentByte) && !((bytes.drop keyword.length).head?.any isIdentByte)

/-- A quote that is doubled inside of quotes does not end them. -/
def unquotedFrom (keyword : List UInt8) : Option UInt8 → Bool → List UInt8 → Bool
  | _,_,[] => false
  | _,true,39 :: 39 :: rest => unquotedFrom keyword (some 39) true rest
  | previous,inSingleQuote,b :: rest =>
    if b = 39 then unquotedFrom keyword (some b) (!inSingleQuote) rest
    else (!inSingleQuote && keywordAt keyword previous (b :: rest)) || unquotedFrom keyword (some b) inSingleQuote rest

def containsUnquotedKeyword (sql : Text) (keyword : String) : Bool :=
  unquotedFrom keyword.toUTF8.toList none false (String.ofList sql).toUTF8.toList

structure Guards where
  hasWhere : Bool
  hasGroup : Bool
  hasHaving : Bool
  hasJoin : Bool
  hasOrder : Bool
  hasLimit : Bool
  hasDistinct : Bool

def Guards.of (su : Text) : Guards where
  hasWhere := has su "WHERE"
  hasGroup := has su "GROUP"
  hasHaving := has su "HAVING"
  hasJoin := has su "JOIN"
  hasOrder := has su "ORDER"
  hasLimit := has su "LIMIT"
  hasDistinct := has su "DISTINCT"

def Guards.plain (guards : Guards) : Bool := !guards.hasOrder && !guards.hasGroup && !guards.hasJoin

/-- A part of the classifier that has a signature, or leaves it to the parts behind it. -/
abbrev Attempt := Option (Option QuerySignature)

def orElse (attempt next : Attempt) : Attempt :=
  attempt.bind fun found => match found with
    | some signature => some (some signature)
    | none => next

def onTable (sql su : Text) (build : Option Text → QuerySignature) :
    Attempt := do return some (build (← extractFromTable standard sql su))

def fileEndings : List String := [".PARQUET",".CSV",".TSV",".TXT",".JSON",".NDJSON",".JSONL",".CSV.GZ",".CSV.GZIP"]

def readsFile (su : Text) : Option Bool :=
  match find "FROM '".toList su with
  | none => some false
  | some fromPos => do
    let afterFrom ← onFrom su (fromPos + 6)
    match find ['\''] afterFrom with
    | none => return false
    | some endQuote =>
      let file ← upTo afterFrom endQuote
      return fileEndings.any (endsWith file)

def countStar (su : Text) (guards : Guards) : Attempt :=
  if startsWith su "SELECT COUNT(*) FROM " && !guards.hasWhere && !guards.hasGroup && !guards.hasHaving &&
    !guards.hasJoin && !guards.hasDistinct then do
    let tname := trim (trimEndMatches ';' (trim (← onFrom su 21)))
    return if !tname.isEmpty && !tname.contains ' ' then some (.countStar (standard.toLowercase tname)) else none
  else some none

def equalityGuard (s su : Text) (guards : Guards) : Bool :=
  guards.hasWhere && guards.plain && !has su "BETWEEN" && !has su " IN " && !has su ">" && !has su "<" &&
    !has su " LIKE " && s.contains '\''

def rangeGuard (s su : Text) (guards : Guards) : Bool :=
  guards.hasWhere && guards.hasLimit && guards.plain && !has su "BETWEEN" && !has su " IN " && !has su " LIKE " &&
    !has su " AND " &&
    !has su " OR " && !s.contains '\''

def byId (s su : Text) (guards : Guards) (one : UInt64 → Option Text → QuerySignature)
    (many : List UInt64 → Option Text → QuerySignature) : Attempt :=
  if !guards.hasLimit && guards.plain then do
    match ← extractSimpleIdEquality s su with
    | some id => onTable standard s su (one id)
    | none =>
      match ← extractSimpleIdInList s su with
      | some ids => onTable standard s su (many ids)
      | none => return none
  else some none

def byLimit (s su : Text) (guards : Guards) (build : UInt64 → UInt64 → Option Text → QuerySignature) : Attempt :=
  if guards.hasLimit && !guards.hasWhere && guards.plain then
    match extractLimitOffsetFromUpper su with
    | some (limit,offset) => onTable standard s su (build limit offset)
    | none => some none
  else some none

def byEquality (s su : Text) (guards : Guards) (limited : Text → Text → UInt64 → UInt64 → Option Text → QuerySignature)
    (all : Text → Text → Option Text → QuerySignature) : Attempt :=
  if equalityGuard s su guards then do
    match ← (if guards.hasLimit then extractStringEqualityWithLimit s su else some none) with
    | some (column,value,limit,offset) => onTable standard s su (limited column value limit offset)
    | none =>
      match ← extractStringEquality s su with
      | some (column,value) => onTable standard s su (all column value)
      | none => return none
  else some none

def byRange (s su : Text) (guards : Guards)
    (build : Text → UInt64 → UInt64 → UInt64 → UInt64 → Option Text → QuerySignature) : Attempt :=
  if rangeGuard s su guards then do
    match ← extractNumericRangeWithLimit standard s su with
    | some (column,low,high,limit,offset) => onTable standard s su (build column low high limit offset)
    | none => return none
  else some none

def wholeTable (s su : Text) (guards : Guards) (build : Option Text → QuerySignature) : Attempt :=
  if !guards.hasWhere && guards.plain && !guards.hasLimit && !guards.hasDistinct then onTable standard s su build
  else some none

def projected (s su : Text) (guards : Guards) (columns : List Text) : Attempt :=
  orElse (byId standard s su guards (fun id table => .projectedPointLookup id table columns) fun ids table =>
    .projectedIdBatchLookup ids table columns) <|
  orElse (byLimit standard s su guards fun limit offset table => .projectedScanLimit limit offset table columns) <|
  orElse (byEquality standard s su guards
    (fun column value limit offset table => .projectedStringEqualityFilterLimit table columns column value limit offset)
    fun column value table => .projectedStringEqualityFilter table columns column value) <|
  orElse (byRange standard s su guards fun column low high limit offset table =>
    .projectedNumericRangeFilterLimit table columns column low high limit offset) <|
  wholeTable standard s su guards fun table => .projectedFullScan table columns

def likeGuard (s su : Text) (guards : Guards) : Bool :=
  has su " LIKE " && guards.hasWhere && !has su "NOT LIKE" && !guards.hasLimit && guards.plain && !has su " AND " &&
    !has su " OR " && s.contains '\''

def byPattern (s su : Text) (guards : Guards) : Attempt :=
  if likeGuard s su guards then do
    match ← extractLikePattern standard s su with
    | some (column,pattern) => onTable standard s su fun table => .likeFilter table column pattern
    | none => return none
  else some none

def starred (s su : Text) (guards : Guards) : Attempt :=
  orElse (byId standard s su guards .pointLookup .idBatchLookup) <|
  orElse (byLimit standard s su guards .simpleScanLimit) <|
  orElse (byEquality standard s su guards
    (fun column value limit offset table => .stringEqualityFilterLimit table column value limit offset)
    fun column value table => .stringEqualityFilter table column value) <|
  orElse (byRange standard s su guards fun column low high limit offset table =>
    .numericRangeFilterLimit table column low high limit offset) <|
  orElse (byPattern standard s su guards) <|
  wholeTable standard s su guards .fullScan

def filteredAgg (s su : Text) (guards : Guards) : Attempt :=
  if guards.hasWhere && guards.plain && !guards.hasLimit && !guards.hasDistinct && !guards.hasHaving &&
      (has su "COUNT(" || has su "AVG(" || has su "SUM(" || has su "MIN(" || has su "MAX(") then do
    match ← extractStringEquality s su with
    | some (column,value) => onTable standard s su fun table => .filteredStringAgg table column value
    | none => return none
  else some none

def needsParser (s su : Text) : Bool :=
  containsUnquotedKeyword s "UNION" || containsUnquotedKeyword s "INTERSECT" || containsUnquotedKeyword s "EXCEPT" ||
    has su "LATERAL VIEW" || has su "DISTRIBUTE BY" || has su "SORT BY"

def readsTableFunction (su : Text) : Bool := has su "FROM READ_CSV(" || has su "FROM READ_PARQUET(" ||
    has su "FROM READ_JSON("

def classifySelect (s su : Text) : Attempt :=
  let guards := Guards.of su
  if needsParser s su then some none
  else if readsTableFunction su then some (some .tableFunction)
  else do
    if ← readsFile su then return some .directFileRead
    else
      orElse (countStar standard su guards) <| do
        let isExactStarSelect ← hasExactStarProjection s su
        let simpleProjection ← extractSimpleProjectionColumns s su
        orElse (match simpleProjection with
          | some columns => projected standard s su guards columns
          | none => some none) <|
        orElse (if isExactStarSelect then starred standard s su guards else some none) <|
        filteredAgg standard s su guards

def boundaryBefore (text : Text) : Nat → Nat
  | 0 => 0
  | position + 1 => if isBoundary text (position + 1) then position + 1 else boundaryBefore text position

/-- The upper case of the text, of 4 KiB at most. -/
def upperBuf (s : Text) : Option Text :=
  if bytesLen s ≤ 4096 then some (toAsciiUppercase s) else (upTo s (boundaryBefore s 4096)).map toAsciiUppercase

def isMultiStatement (s : Text) : Bool := (trim (trimEndMatches ';' s)).contains ';'

def isTransaction (su : Text) : Bool :=
  startsWith su "BEGIN" || su == "COMMIT".toList || su == "COMMIT;".toList || su == "ROLLBACK".toList ||
    su == "ROLLBACK;".toList ||
    startsWith su "SAVEPOINT " || startsWith su "ROLLBACK TO" || startsWith su "RELEASE"

def isDdl (su : Text) : Bool := startsWith su "CREATE " || startsWith su "DROP " || startsWith su "ALTER "

def isDmlWrite (su : Text) : Bool :=
  startsWith su "INSERT" || startsWith su "UPDATE" || startsWith su "DELETE" || startsWith su "TRUNCATE" ||
    startsWith su "COPY "

def classifyImpl (sql : Text) : Option QuerySignature := do
  let s := trim sql
  let su ← upperBuf s
  if isMultiStatement s then return .multiStatement
  else if isTransaction su then return .transaction
  else if startsWith su "SET " || startsWith su "RESET " then return .sessionCommand
  else if isDdl su then return .ddl (← extractDdlKind standard s su)
  else if isDmlWrite su then return .dmlWrite
  else if startsWith su "EXPLAIN" then return .explain
  else if startsWith su "WITH " then return .cte
  else if startsWith su "REINDEX" || startsWith su "PRAGMA" || startsWith su "SHOW " then return .ddl .other
  else if !startsWith su "SELECT" then return .complex
  else return (← classifySelect standard s su).getD .complex

def cacheCap : Nat := 512

structure ClassifyCache where
  signatures : Assoc.Map Text QuerySignature
  classified : ∀ sql signature, signatures.lookup sql = some signature → classifyImpl standard sql = some signature

namespace ClassifyCache

def empty : ClassifyCache standard := ⟨∅,fun _ _ found => by simp at found⟩

def insert (cache : ClassifyCache standard) (sql : Text) (signature : QuerySignature)
    (classified : classifyImpl standard sql = some signature) :
    ClassifyCache standard where
  signatures := cache.signatures.insert sql signature
  classified other found there := by
    by_cases same : other = sql
    · subst same
      rw [AList.lookup_insert] at there
      cases there
      exact classified
    · rw [AList.lookup_insert_ne same] at there
      exact cache.classified other found there

end ClassifyCache

def classify (cache : ClassifyCache standard) (sql : Text) : Option (QuerySignature × ClassifyCache standard) :=
  match cache.signatures.lookup sql with
  | some hit => some (hit,cache)
  | none =>
    match computed : classifyImpl standard sql with
    | none => none
    | some signature =>
      let cache := if cache.signatures.entries.length ≥ cacheCap then .empty standard else cache
      some (signature,cache.insert standard sql signature computed)

end ApexBase.Query.Signature
