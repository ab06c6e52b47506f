import ApexBase.Library.Traverse
import ApexBase.Query.Signature

/-! Which statements are sorted without a panic. -/
namespace ApexBase.Query.Signature
open Library Library.Bytewise Fts

/-! Upper case. -/

theorem utf8Size_toUpper (c : Char) : c.toUpper.utf8Size = c.utf8Size := by
  unfold Char.toUpper
  split
  · rename_i lower
    have narrow : c.utf8Size = 1 := Char.utf8Size_eq_one_iff.mpr (UInt32.le_trans lower.2 (by decide))
    rw [narrow,Char.utf8Size_eq_one_iff,UInt32.le_iff_toNat_le,UInt32.toNat_add]
    have low := UInt32.le_iff_toNat_le.mp lower.1
    have high := UInt32.le_iff_toNat_le.mp lower.2
    have shift : ('A'.val - 'a'.val).toNat = 4294967264 := rfl
    have first : 'a'.val.toNat = 97 := rfl
    have last : 'z'.val.toNat = 122 := rfl
    have bound : (127 : UInt32).toNat = 127 := rfl
    omega
  · rfl

@[simp] theorem bytesLen_upper (text : Text) : bytesLen (toAsciiUppercase text) = bytesLen text := by
  induction text with
  | nil => rfl
  | cons c rest ih =>
    change (c.toUpper).utf8Size + bytesLen (toAsciiUppercase rest) = _
    rw [ih,utf8Size_toUpper,bytesLen_cons]

theorem upper_append {text before behind : Text} (same : toAsciiUppercase text = before ++ behind) :
    ∃ before' behind', text = before' ++ behind' ∧ toAsciiUppercase before' = before ∧
    toAsciiUppercase behind' = behind := by
  obtain ⟨before',behind',rfl,first,second⟩ := List.map_eq_append_iff.mp same
  exact ⟨before',behind',rfl,first,second⟩

def Uppered (s su : Text) : Prop := ∃ front back, s = front ++ back ∧ su = toAsciiUppercase front

theorem Uppered.at {s su before pattern behind : Text} (uppered : Uppered s su)
    (split : su = before ++ (pattern ++ behind)) :
    ∃ before' pattern' behind', s = before' ++ (pattern' ++ behind') ∧
      (bytesLen before' = bytesLen before ∧ before'.length = before.length) ∧
      bytesLen pattern' = bytesLen pattern ∧ pattern'.length = pattern.length := by
  obtain ⟨front,back,rfl,is⟩ := uppered
  obtain ⟨before',rest,rfl,rfl,inner⟩ := upper_append (is.symm.trans split)
  obtain ⟨pattern',behind',rfl,rfl,_⟩ := upper_append inner
  refine ⟨before',pattern',behind' ++ back,by simp only [List.append_assoc],⟨?_,?_⟩,?_,?_⟩
  · exact (bytesLen_upper _).symm
  · exact (List.length_map _).symm
  · exact (bytesLen_upper _).symm
  · exact (List.length_map _).symm

def behind (pattern : String) (s su : Text) : Text :=
  match splitFirst pattern.toList su with
  | some (before,_) => s.drop (before.length + pattern.toList.length)
  | none => []

theorem Uppered.tail {s su : Text} {pattern : String} {position : Nat} (uppered : Uppered s su)
    (found : find pattern.toList su = some position) :
    onFrom s (position + bytesLen pattern.toList) = some (behind pattern s su) := by
  obtain ⟨⟨before,rest⟩,split,rfl⟩ := Option.map_eq_some_iff.mp found
  obtain ⟨before',pattern',behind',rfl,⟨first,long⟩,second,length⟩ := uppered.at (splitFirst_some split)
  rw [behind,split]
  simp only [← first,← second,← long,← length,← bytesLen_append,← List.append_assoc,← List.length_append,List.drop_left]
  exact onFrom_append _ _

theorem apart {before pattern behind before' rest' : Text} {c : Char}
    (same : before ++ (pattern ++ behind) = before' ++ (c :: rest')) (later : bytesLen before ≤ bytesLen before')
    (other : c ∉ pattern) :
    ∃ between, before' = before ++ (pattern ++ between) := by
  have start : before <+: before' := by
    have one : before <+: before ++ (pattern ++ behind) := List.prefix_append _ _
    have two : before' <+: before ++ (pattern ++ behind) := same ▸ List.prefix_append _ _
    rcases List.prefix_or_prefix_of_prefix one two with here | there
    · exact here
    · obtain ⟨more,rfl⟩ := there
      rw [bytesLen_append] at later
      have none_ : more = [] := by
        cases more with
        | nil => rfl
        | cons d more =>
          have positive := d.utf8Size_pos
          rw [bytesLen_cons] at later
          omega
      rw [none_,List.append_nil]
  obtain ⟨more,rfl⟩ := start
  rw [List.append_assoc] at same
  have inner := List.append_cancel_left same
  rcases List.append_eq_append_iff.mp inner with ⟨between,is,_⟩ | ⟨between,is,_⟩
  · exact ⟨between,by rw [is]⟩
  · cases between with
    | nil => exact ⟨[],by rw [List.append_nil,is,List.append_nil]⟩
    | cons d between =>
      rename_i tail
      have first : d = c := by
        have head := congrArg List.head? tail
        simpa using head.symm
      rw [is,first] at other
      exact absurd (List.mem_append_right _ List.mem_cons_self) other

theorem Uppered.between {s su before pattern behind before' rest' : Text} {c : Char} (uppered : Uppered s su)
    (first : su = before ++ (pattern ++ behind)) (second : su = before' ++ (c :: rest'))
    (later : bytesLen before ≤ bytesLen before')
    (other : c ∉ pattern) : between s (bytesLen before + bytesLen pattern) (bytesLen before') =
      some ((s.take before'.length).drop (before.length + pattern.length)) := by
  obtain ⟨middle,rfl⟩ := apart (first.symm.trans second) later other
  obtain ⟨front,back,rfl,is⟩ := uppered
  obtain ⟨start,rest,rfl,parts,_⟩ := upper_append (is.symm.trans second)
  obtain ⟨one,inner,rfl,rfl,inside⟩ := upper_append parts
  obtain ⟨two,three,rfl,rfl,rfl⟩ := upper_append inside
  have cut := between_append (one ++ two) three (rest ++ back)
  have front : one ++ (two ++ three) ++ rest ++ back = one ++ (two ++ three) ++ (rest ++ back) :=
    List.append_assoc _ _ _
  have long : (toAsciiUppercase one ++ (toAsciiUppercase two ++ toAsciiUppercase three)).length =
    (one ++ (two ++ three)).length := by
    simp only [toAsciiUppercase,List.length_append,List.length_map]
  have start : (toAsciiUppercase one).length + (toAsciiUppercase two).length = (one ++ two).length := by
    simp only [toAsciiUppercase,List.length_append,List.length_map]
  rw [long,start,front,List.take_left,← List.append_assoc one,List.drop_left]
  simp only [bytesLen_append,bytesLen_upper,List.append_assoc] at cut ⊢
  rw [← Nat.add_assoc]
  exact cut

theorem Uppered.projection {s su : Text} {fromPos : Nat} (uppered : Uppered s su)
    (select : startsWith su "SELECT" = true)
    (found : find " FROM ".toList su = some fromPos) :
    ∃ before rest, splitFirst " FROM ".toList su = some (before,rest) ∧
      Bytewise.between s 6 fromPos = some ((s.take before.length).drop 6) := by
  obtain ⟨⟨before,behind⟩,first,rfl⟩ := Option.map_eq_some_iff.mp found
  have split := splitFirst_some first
  refine ⟨before,behind,first,?_⟩
  obtain ⟨rest,is⟩ := List.isPrefixOf_iff_prefix.mp select
  -- the blank before FROM is not a letter of SELECT
  have start : su = [] ++ ("SELECT".toList ++ rest) := is.symm
  exact uppered.between start split (Nat.zero_le _) (by decide)

section Total

theorem onFrom_start {text start : Text} (here : start.isPrefixOf (toAsciiUppercase text) = true) :
    ∃ tail, onFrom text (bytesLen start) = some tail := by
  obtain ⟨rest,is⟩ := List.isPrefixOf_iff_prefix.mp here
  obtain ⟨start',tail,rfl,first,_⟩ := upper_append is.symm
  refine ⟨tail,?_⟩
  rw [← first,bytesLen_upper]
  exact onFrom_append _ _

theorem cut_char_or_end (p : Char → Bool) (text : Text) :
    ∃ front back, text = front ++ back ∧ upTo text ((findChar p text).getD (bytesLen text)) = some front ∧
      onFrom text ((findChar p text).getD (bytesLen text)) = some back := by
  cases found : findChar p text with
  | some position =>
    obtain ⟨before,c,behind,rfl,rfl,_⟩ := findChar_some found
    exact ⟨_,_,rfl,upTo_append _ _,onFrom_append _ _⟩
  | none =>
    have whole := upTo_append text []
    have empty := onFrom_append text []
    rw [List.append_nil] at whole empty
    exact ⟨text,[],(List.append_nil text).symm,whole,empty⟩

theorem cut_found {text pattern : Text} {position : Nat} (found : find pattern text = some position) :
    ∃ front back, upTo text position = some front ∧ onFrom text (position + bytesLen pattern) = some back := by
  obtain ⟨before,behind,rfl,rfl⟩ := find_some found
  refine ⟨before,behind,upTo_append _ _,?_⟩
  rw [← bytesLen_append,← List.append_assoc]
  exact onFrom_append _ _

theorem cut_quoted {rhs : Text} {q close : Char} (narrow : q.utf8Size = 1) (narrow' : close.utf8Size = 1)
    (quoted : rhs.head? = some q) :
    ∃ inner, onFrom rhs 1 = some inner ∧ ∀ stop, find [close] inner = some stop →
      ∃ val rest, between rhs 1 (1 + stop) = some val ∧ onFrom rhs (1 + stop + 1) = some rest := by
  obtain ⟨inner,rfl⟩ : ∃ inner, rhs = q :: inner := by
    cases rhs with
    | nil => cases quoted
    | cons c inner =>
      cases quoted
      exact ⟨inner,rfl⟩
  have one : bytesLen [q] = 1 := narrow
  have first : onFrom (q :: inner) 1 = some inner := by
    rw [← one]
    exact onFrom_append [q] inner
  refine ⟨inner,first,fun stop found => ?_⟩
  obtain ⟨before,behind,rfl,rfl⟩ := find_some found
  refine ⟨before,behind,?_,?_⟩
  · rw [← one]
    exact between_append [q] before ([close] ++ behind)
  · have size : 1 + bytesLen before + 1 = bytesLen (q :: (before ++ [close])) := by
      rw [bytesLen_cons,bytesLen_append,bytesLen_cons,bytesLen_nil,narrow,narrow']
      omega
    rw [size]
    have tail := onFrom_append (q :: (before ++ [close])) behind
    rwa [List.cons_append,List.append_assoc] at tail

theorem cut_bracketed {rhs : Text} {stop : Nat} (opened : rhs.head? = some '(') (closed : find [')'] rhs = some stop) :
    ∃ list rest, rhs = '(' :: (list ++ ')' :: rest) ∧ between rhs 1 stop = some list ∧
    onFrom rhs (stop + 1) = some rest := by
  obtain ⟨before,behind,whole,rfl⟩ := find_some closed
  obtain ⟨inner,is⟩ : ∃ inner, rhs = '(' :: inner := by
    cases rhs with
    | nil => cases opened
    | cons c inner =>
      cases opened
      exact ⟨inner,rfl⟩
  obtain ⟨list,rfl⟩ : ∃ list, before = [] ++ (['('] ++ list) :=
    apart (show [] ++ (['('] ++ inner) = before ++ (')' :: behind) from is.symm.trans whole) (Nat.zero_le _) (by decide)
  refine ⟨list,behind,whole,?_,?_⟩
  · rw [whole]
    exact between_append ['('] list ([')'] ++ behind)
  · rw [whole]
    have tail := onFrom_append ((['('] ++ list) ++ [')']) behind
    rw [bytesLen_append,List.append_assoc] at tail
    exact tail

end Total

/-! Computations that return. -/

abbrev Returns {α : Type} (computation : Option α) : Prop := computation.isSome = true

section Returns
variable {α β : Type} {first : Option α} {next : α → Option β} {value : α}

theorem returns_of (is : first = some value) : Returns first := by rw [Returns,is]; rfl

theorem returns_bind (is : first = some value) (then_ : Returns (next value)) : Returns (first >>= next) := by
  rw [is]
  exact then_

theorem returns_then (returns : Returns first) (then_ : ∀ value, first = some value → Returns (next value)) :
    Returns (first >>= next) := by
  obtain ⟨value,is⟩ := Option.isSome_iff_exists.mp returns
  exact returns_bind is (then_ value is)

theorem returns_ite {condition : Prop} [Decidable condition] {yes no : Option α} (one : condition → Returns yes)
    (other : ¬ condition → Returns no) :
    Returns (if condition then yes else no) := by
  split
  · exact one ‹_›
  · exact other ‹_›

end Returns

theorem returns_parseStringEqualityClause (clause : Text) : Returns (parseStringEqualityClause clause) := by
  unfold parseStringEqualityClause
  dsimp only
  split
  · rfl
  · rename_i eqPos found
    obtain ⟨front,back,before,behind⟩ := cut_found found
    refine returns_bind before ?_
    refine returns_ite (fun _ => rfl) fun _ => ?_
    refine returns_bind behind ?_
    refine returns_ite (fun _ => rfl) fun quoted => ?_
    obtain ⟨inner,first,rest⟩ := cut_quoted rfl (show ('\'' : Char).utf8Size = 1 from rfl) (not_not.mp quoted)
    refine returns_bind first ?_
    split
    · rfl
    · rename_i valEnd closed
      obtain ⟨val,tail,middle,after⟩ := rest valEnd closed
      refine returns_bind middle ?_
      refine returns_ite (fun _ => rfl) fun _ => ?_
      exact returns_bind after rfl

section Extraction
variable (standard : StandardText) {s su : Text}

theorem returns_parseNumericComparisonClause (clause : Text) :
    Returns (parseNumericComparisonClause standard clause) := by
  unfold parseNumericComparisonClause
  dsimp only
  split
  · rfl
  · rename_i op opPos found
    obtain ⟨other,_,there⟩ := List.exists_of_findSome?_eq_some found
    obtain ⟨pos,at_,same⟩ := Option.map_eq_some_iff.mp there
    cases same
    obtain ⟨front,back,before,behind⟩ := cut_found at_
    refine returns_bind before ?_
    refine returns_ite (fun _ => rfl) fun _ => ?_
    exact returns_bind behind rfl

section
variable (uppered : Uppered s su)
include uppered

theorem returns_extractFromTable : Returns (extractFromTable standard s su) := by
  unfold extractFromTable
  split
  · rfl
  · rename_i fp found
    refine returns_bind (uppered.tail found) ?_
    obtain ⟨front,back,_,before,_⟩ := cut_char_or_end (fun c => isWhitespace c ||
      c == ';') (trimStart (behind " FROM " s su))
    exact returns_bind before rfl

theorem afterWhereTrimmed_eq {wherePos : Nat} (found : find "WHERE".toList su = some wherePos) :
    afterWhereTrimmed s wherePos = some (trim (trimEndMatches ';' (trim (behind "WHERE" s su)))) := by
  have cut := uppered.tail found
  change onFrom s (wherePos + 5) = _ at cut
  rw [afterWhereTrimmed,cut]
  rfl

theorem returns_extractSimpleIdEquality : Returns (extractSimpleIdEquality s su) := by
  unfold extractSimpleIdEquality
  split
  · rfl
  · rename_i wherePos found
    refine returns_bind (afterWhereTrimmed_eq uppered found) ?_
    split
    · rfl
    · rename_i idPrefix starts
      have here := List.find?_some starts
      obtain ⟨tail,behind⟩ := onFrom_start here
      refine returns_bind behind ?_
      dsimp only
      refine returns_ite (fun _ => rfl) fun _ => ?_
      obtain ⟨front,back,_,before,after⟩ := cut_char_or_end (!isDigit ·) (trimStart tail)
      refine returns_bind after ?_
      exact returns_bind before rfl

theorem returns_extractSimpleIdInList : Returns (extractSimpleIdInList s su) := by
  unfold extractSimpleIdInList
  split
  · rfl
  · rename_i wherePos found
    refine returns_bind (afterWhereTrimmed_eq uppered found) ?_
    split
    · rfl
    · rename_i idPrefix starts
      have here := List.find?_some starts
      obtain ⟨tail,behind⟩ := onFrom_start here
      refine returns_bind behind ?_
      dsimp only
      refine returns_ite (fun _ => rfl) fun opened => ?_
      split
      · rfl
      · rename_i endPos closed
        obtain ⟨list,rest,_,inside,after⟩ := cut_bracketed (not_not.mp opened) closed
        refine returns_bind inside ?_
        refine returns_bind after ?_
        exact returns_ite (fun _ => rfl) fun _ => rfl

theorem returns_extractSimpleProjectionColumns : Returns (extractSimpleProjectionColumns s su) := by
  unfold extractSimpleProjectionColumns
  refine returns_ite (fun _ => rfl) fun select => ?_
  split
  · rfl
  · rename_i fromPos found
    obtain ⟨before,rest,_,inside⟩ := uppered.projection (not_not.mp select) found
    refine returns_bind inside ?_
    exact returns_ite (fun _ => rfl) fun _ => rfl

theorem returns_extractStringEquality : Returns (extractStringEquality s su) := by
  unfold extractStringEquality
  split
  · rfl
  · rename_i wherePos found
    exact returns_bind (uppered.tail found) (returns_parseStringEqualityClause _)

theorem returns_whereAndLimit : Returns (whereAndLimit s su) := by
  unfold whereAndLimit
  split
  · rename_i wherePos limitPos found last
    refine returns_ite (fun _ => rfl) fun later => ?_
    obtain ⟨before,behind,split,rfl⟩ := find_some found
    obtain ⟨before',behind',split',rfl⟩ := rfind_some last
    -- the L of LIMIT is not one of the letters of WHERE
    refine returns_bind (uppered.between split split' (by omega) (by decide)) ?_
    obtain ⟨front,limit,rest,whole,⟨size,_⟩,length,_⟩ := uppered.at split'
    have tail := onFrom_append (front ++ limit) rest
    rw [List.append_assoc,← whole,bytesLen_append,size,length] at tail
    exact returns_bind tail rfl
  · rfl

theorem returns_extractStringEqualityWithLimit : Returns (extractStringEqualityWithLimit s su) := by
  refine returns_then (returns_whereAndLimit uppered) fun found _ => ?_
  rcases found with _ | ⟨whereClause,afterLimit⟩
  · rfl
  · refine returns_then (returns_parseStringEqualityClause whereClause) fun parsed _ => ?_
    rcases parsed with _ | ⟨column,value⟩
    · rfl
    · rfl

theorem returns_extractNumericRangeWithLimit : Returns (extractNumericRangeWithLimit standard s su) := by
  refine returns_then (returns_whereAndLimit uppered) fun found _ => ?_
  rcases found with _ | ⟨whereClause,afterLimit⟩
  · rfl
  · refine returns_then (returns_parseNumericComparisonClause standard whereClause) fun parsed _ => ?_
    rcases parsed with _ | ⟨column,low,high⟩
    · rfl
    · rfl

end

end Extraction

/-! When a statement can be sorted. -/

/-- The start of a text that is compared with a keyword ends with a character. -/
def KeywordFits (keyword : String) (rest : Text) : Prop :=
  bytesLen rest < bytesLen keyword.toList ∨ isBoundary rest (bytesLen keyword.toList) = true

def createsTable (su : Text) : Bool := startsWith su "CREATE TABLE" || startsWith su "CREATE TEMP TABLE" ||
    startsWith su "CREATE TEMPORARY TABLE"

def DdlFits (s su : Text) : Prop :=
  (createsTable su = true → KeywordFits "IF NOT EXISTS" (trimStart (behind "TABLE" s su))) ∧
    (startsWith su "DROP TABLE" = true → KeywordFits "IF EXISTS" (trimStart (s.drop 10)))

def likeClause (s su : Text) : Text := trimEndMatches ';' (trim (behind "WHERE" s su))

def oneName (text : Text) : Bool :=
  let col := trimMatches (· == '"') (trim text)
  !(col.contains ' ' || col.contains '(')

/-- Where LIKE stands in the upper case of the clause, the clause has a boundary, and so it has behind LIKE. -/
def LikeFits (standard : StandardText) (s su : Text) : Prop :=
  ∀ likePos, find " LIKE ".toList ((likeClause s su).flatMap standard.toUppercase) = some likePos →
    ∃ col, upTo (likeClause s su) likePos = some col ∧ (oneName col = true →
      isBoundary (likeClause s su) (likePos + 6) = true)

def namesFile (su : Text) : Bool :=
  (splitFirst "FROM '".toList su).any fun parts => (splitFirst ['\''] parts.2).any fun file =>
    fileEndings.any (endsWith file.1)

def isStar (s su : Text) : Bool :=
  startsWith su "SELECT" && (splitFirst " FROM ".toList su).any fun parts =>
    trim ((s.take parts.1.length).drop 6) == ['*']

def seeksPattern (s su : Text) : Bool :=
  !needsParser s su && !readsTableFunction su && !namesFile su && isStar s su && likeGuard s su (Guards.of su)

def upperStart (s : Text) : Text := toAsciiUppercase (takeBytes 4096 s)

def Sortable (standard : StandardText) (sql : Text) : Prop :=
  let s := trim sql
  let su := upperStart s
  isMultiStatement s = true ∨ (DdlFits s su ∧ (seeksPattern s su = true → LikeFits standard s su))

/-! The start that is looked at. -/

theorem boundaryBefore_eq (text : Text) (budget : Nat) :
    boundaryBefore text budget = bytesLen (takeBytes budget text) := by
  have boundary (budget : Nat) : isBoundary text (bytesLen (takeBytes budget text)) = true := by
    obtain ⟨rest,is⟩ := takeBytes_prefix budget text
    exact isBoundary_iff.mpr ⟨_,rest,is,rfl⟩
  induction budget with
  | zero => exact (Nat.le_zero.mp (takeBytes_le 0 text)).symm
  | succ budget ih =>
    have most := takeBytes_le (budget + 1) text
    rw [boundaryBefore]
    split
    · rename_i here
      exact Nat.le_antisymm (boundary_le here (Nat.le_refl _)) most
    · rename_i inside
      have less : bytesLen (takeBytes (budget + 1) text) ≠ budget + 1 := by
        intro same
        have here := boundary (budget + 1)
        rw [same] at here
        exact inside here
      rw [ih]
      refine Nat.le_antisymm (boundary_le (boundary budget) (Nat.le_succ_of_le (takeBytes_le _ _))) ?_
      exact boundary_le (boundary (budget + 1)) (by omega)

theorem upperBuf_eq (s : Text) : upperBuf s = some (upperStart s) := by
  unfold upperBuf upperStart
  split
  · rename_i short
    rw [takeBytes_all short]
  · obtain ⟨rest,is⟩ := takeBytes_prefix 4096 s
    have cut := upTo_append (takeBytes 4096 s) rest
    rw [← is] at cut
    rw [boundaryBefore_eq,cut]
    rfl

theorem uppered_start (s : Text) : Uppered s (upperStart s) := by
  obtain ⟨rest,is⟩ := takeBytes_prefix 4096 s
  exact ⟨_,rest,is,rfl⟩

section Parts
variable (standard : StandardText) {s su : Text}

private theorem some_then {β γ : Type} (value : β) (next : β → Option γ) : (some value >>= next) = next value := rfl

theorem readsFile_eq (su : Text) : readsFile su = some (namesFile su) := by
  unfold readsFile namesFile
  cases first : splitFirst "FROM '".toList su with
  | none => rw [find,first]; rfl
  | some parts =>
    obtain ⟨before,tail⟩ := parts
    have whole := splitFirst_some first
    have cut := onFrom_append (before ++ "FROM '".toList) tail
    rw [List.append_assoc,← whole,bytesLen_append] at cut
    rw [find,first]
    simp only [Option.map_some,Option.any_some]
    change (onFrom su (bytesLen before + bytesLen "FROM '".toList) >>= _) = _
    rw [cut]
    rw [some_then]
    cases second : splitFirst ['\''] tail with
    | none => rw [find,second]; rfl
    | some file =>
      have inner := splitFirst_some second
      have end_ := upTo_append file.1 (['\''] ++ file.2)
      rw [← inner] at end_
      rw [find,second]
      simp only [Option.map_some,Option.any_some]
      rw [end_]
      rfl

theorem hasExactStarProjection_eq (uppered : Uppered s su) : hasExactStarProjection s su = some (isStar s su) := by
  unfold hasExactStarProjection isStar
  cases select : startsWith su "SELECT" with
  | false => rfl
  | true =>
    rw [if_neg (by decide),Bool.true_and]
    split
    · rename_i missing
      rw [Option.map_eq_none_iff.mp missing]
      rfl
    · rename_i fromPos found
      obtain ⟨before,rest,first,inside⟩ := uppered.projection select found
      rw [inside,first]
      rfl

theorem extractSimpleProjectionColumns_star (uppered : Uppered s su) (star : isStar s su = true) :
    extractSimpleProjectionColumns s su = some none := by
  obtain ⟨select,some_⟩ := (Bool.and_eq_true _ _).mp star
  cases first : splitFirst " FROM ".toList su with
  | none =>
    rw [first] at some_
    cases some_
  | some parts =>
    obtain ⟨before,rest⟩ := parts
    rw [first] at some_
    have projection : (trim ((s.take before.length).drop 6) == ['*']) = true := some_
    have found : find " FROM ".toList su = some (bytesLen before) := by rw [find,first]; rfl
    obtain ⟨before',rest',again,inside⟩ := uppered.projection select found
    rw [first] at again
    cases again
    rw [extractSimpleProjectionColumns,if_neg (by rw [select]; decide),found]
    simp only [inside]
    change (if (_ || trim ((s.take before.length).drop 6) == ['*']) = true then _ else _) = _
    rw [projection,Bool.or_true,if_pos rfl]
    rfl

theorem skipKeyword_isSome (keyword : String) (rest : Text) :
    (skipKeyword keyword rest).isSome = true ↔ KeywordFits keyword rest := by
  unfold skipKeyword KeywordFits
  dsimp only
  split
  · rename_i long
    rw [or_iff_right (by omega)]
    constructor
    · intro some_
      have first : (upTo rest (bytesLen keyword.toList)).isSome = true := by
        cases cut : upTo rest (bytesLen keyword.toList) with
        | none =>
          rw [cut] at some_
          cases some_
        | some front => rfl
      rwa [upTo_isSome] at first
    · intro boundary
      obtain ⟨front,back,rfl,size⟩ := isBoundary_iff.mp boundary
      rw [← size]
      refine returns_bind (upTo_append front back) ?_
      refine returns_ite (fun _ => ?_) fun _ => rfl
      exact returns_bind (onFrom_append front back) rfl
  · rename_i short
    exact ⟨fun _ => Or.inl (by omega),fun _ => rfl⟩

theorem find_table {su : Text} (creates : createsTable su = true) :
    ∃ tablePos, find "TABLE".toList su = some tablePos := by
  unfold createsTable at creates
  rw [Bool.or_eq_true,Bool.or_eq_true] at creates
  rcases creates with (one | two) | three
  · obtain ⟨rest,rfl⟩ := List.isPrefixOf_iff_prefix.mp one
    exact find_append "CREATE ".toList _ rest
  · obtain ⟨rest,rfl⟩ := List.isPrefixOf_iff_prefix.mp two
    exact find_append "CREATE TEMP ".toList _ rest
  · obtain ⟨rest,rfl⟩ := List.isPrefixOf_iff_prefix.mp three
    exact find_append "CREATE TEMPORARY ".toList _ rest

theorem isSome_bind {α β : Type} {first : Option α} {next : α → Option β}
    (always : ∀ value, (next value).isSome = true) :
    (first >>= next).isSome = true ↔ first.isSome = true := by
  cases first with
  | none => exact Iff.rfl
  | some value => exact ⟨fun _ => rfl,fun _ => always value⟩

theorem extractDdlKind_isSome (uppered : Uppered s su) : (extractDdlKind standard s su).isSome = true ↔
    DdlFits s su := by
  unfold extractDdlKind DdlFits
  change (if createsTable su = true then _ else _ : Option DdlKind).isSome = true ↔ _
  by_cases creates : createsTable su = true
  · have drops : ¬ startsWith su "DROP TABLE" = true := by
      intro drops
      obtain ⟨rest,rfl⟩ := List.isPrefixOf_iff_prefix.mp drops
      cases creates
    obtain ⟨tablePos,found⟩ := find_table creates
    rw [if_pos creates,found]
    change (onFrom s (tablePos + bytesLen "TABLE".toList) >>= fun tail =>
      skipKeyword "IF NOT EXISTS" (trimStart tail) >>= _).isSome = true ↔ _
    rw [uppered.tail found]
    change (skipKeyword "IF NOT EXISTS" (trimStart (behind "TABLE" s su)) >>= _).isSome = true ↔ _
    refine (isSome_bind fun _ => rfl).trans ((skipKeyword_isSome _ _).trans ?_)
    exact ⟨fun fits => ⟨fun _ => fits,fun other => absurd other drops⟩,fun fits => fits.1 creates⟩
  · rw [if_neg creates]
    by_cases drops : startsWith su "DROP TABLE" = true
    · obtain ⟨rest,is⟩ := List.isPrefixOf_iff_prefix.mp drops
      have split : su = [] ++ ("DROP TABLE".toList ++ rest) := is.symm
      obtain ⟨before,keyword,tail,rfl,⟨size,long⟩,size',long'⟩ := uppered.at split
      obtain rfl : before = [] := List.eq_nil_of_length_eq_zero long
      have cut := onFrom_append keyword tail
      rw [size'] at cut
      have dropped : ([] ++ (keyword ++ tail)).drop 10 = tail := by
        have ten : keyword.length = 10 := long'
        rw [← ten]
        exact List.drop_left
      rw [if_pos drops,dropped]
      change (onFrom (keyword ++ tail) (bytesLen "DROP TABLE".toList) >>= fun tail =>
        skipKeyword "IF EXISTS" (trimStart tail) >>= _).isSome = true ↔ _
      rw [cut]
      change (skipKeyword "IF EXISTS" (trimStart tail) >>= _).isSome = true ↔ _
      refine (isSome_bind fun _ => rfl).trans ((skipKeyword_isSome _ _).trans ?_)
      exact ⟨fun fits => ⟨fun other => absurd other creates,fun _ => fits⟩,fun fits => fits.2 drops⟩
    · rw [if_neg drops]
      exact ⟨fun _ => ⟨fun other => absurd other creates,fun other => absurd other drops⟩,fun _ => rfl⟩

private theorem isSome_guarded {β : Type} {clause : Text} {likePos : Nat} {others : β} {next : Text → Text → Option β}
    (always : ∀ front rhs, (next front rhs).isSome = true) :
    (upTo clause likePos >>= fun front =>
      if ((trimMatches (· == '"') (trim front)).contains ' ' || (trimMatches (· == '"') (trim front)).contains '(') =
        true then some others
      else onFrom clause (likePos + 6) >>= fun rhs => next front rhs).isSome = true ↔
    ∃ col, upTo clause likePos = some col ∧ (oneName col = true → isBoundary clause (likePos + 6) = true) := by
  cases before : upTo clause likePos with
  | none => exact ⟨nofun,fun ⟨_,none_,_⟩ => nomatch none_⟩
  | some col =>
    have name : oneName col = !((trimMatches (· == '"') (trim col)).contains ' ' ||
      (trimMatches (· == '"') (trim col)).contains '(') := rfl
    simp only [Option.some.injEq,exists_eq_left',name,bind,Option.bind_some]
    split
    · rename_i bad
      rw [bad]
      exact ⟨fun _ => nofun,fun _ => rfl⟩
    · rename_i good
      rw [Bool.not_eq_true] at good
      rw [good,← onFrom_isSome]
      exact (isSome_bind fun rhs => always _ rhs).trans ⟨fun some_ _ => some_,fun some_ => some_ rfl⟩

theorem extractLikePattern_isSome (uppered : Uppered s su) (found : has su "WHERE" = true) :
    (extractLikePattern standard s su).isSome = true ↔ LikeFits standard s su := by
  obtain ⟨parts,first⟩ := Option.isSome_iff_exists.mp found
  have at_ : find "WHERE".toList su = some (bytesLen parts.1) := by rw [find,first]; rfl
  unfold extractLikePattern LikeFits
  rw [at_]
  change (onFrom s (bytesLen parts.1 + bytesLen "WHERE".toList) >>= _).isSome = true ↔ _
  rw [uppered.tail at_]
  rw [some_then]
  dsimp only
  rw [show trimEndMatches ';' (trim (behind "WHERE" s su)) = likeClause s su from rfl]
  cases like : find " LIKE ".toList ((likeClause s su).flatMap standard.toUppercase) with
  | none => exact iff_of_true rfl (by rintro _ ⟨⟩)
  | some likePos =>
    have only : (∀ position, some likePos = some position → ∃ col, upTo (likeClause s su) position = some col ∧
        (oneName col = true → isBoundary (likeClause s su) (position + 6) = true)) ↔
        ∃ col, upTo (likeClause s su) likePos = some col ∧ (oneName col = true →
          isBoundary (likeClause s su) (likePos + 6) = true) :=
      ⟨fun fits => fits likePos rfl,fun fits position same => by cases same; exact fits⟩
    rw [only]
    refine isSome_guarded fun front rhs => ?_
    refine returns_ite (fun _ => rfl) fun quoted => ?_
    obtain ⟨inner,first,rest⟩ := cut_quoted rfl (show ('\'' : Char).utf8Size = 1 from rfl) (not_not.mp quoted)
    refine returns_bind first ?_
    split
    · rfl
    · rename_i valEnd closed
      obtain ⟨val,tail,middle,after⟩ := rest valEnd closed
      refine returns_bind middle ?_
      exact returns_bind after rfl

end Parts

section Lookups

def Plain (c : Char) : Prop := isWhitespace c = true ∨ (c.val < 128 ∧ c ≠ 'L' ∧ c ≠ 'l')

private theorem toUpper_l {c : Char} (upper : c.toUpper = 'L') : c = 'L' ∨ c = 'l' := by
  unfold Char.toUpper at upper
  split at upper
  · rename_i lower
    have low := UInt32.le_iff_toNat_le.mp lower.1
    have high := UInt32.le_iff_toNat_le.mp lower.2
    have same := congrArg (fun c : Char => c.val.toNat) upper
    simp only [UInt32.toNat_add] at same
    have shift : ('A'.val - 'a'.val).toNat = 4294967264 := rfl
    have first : 'a'.val.toNat = 97 := rfl
    have last : 'z'.val.toNat = 122 := rfl
    have big : 'L'.val.toNat = 76 := rfl
    have small : 'l'.val.toNat = 108 := rfl
    exact Or.inr (Char.ext (UInt32.toNat_inj.mp (by omega)))
  · exact Or.inl upper

theorem find_like_plain (standard : StandardText) {clause : Text} (plain : ∀ c ∈ clause, Plain c) :
    find " LIKE ".toList (clause.flatMap standard.toUppercase) = none := by
  rw [Option.eq_none_iff_forall_not_mem]
  intro position found
  obtain ⟨before,behind,whole,_⟩ := find_some found
  have member : 'L' ∈ clause.flatMap standard.toUppercase := by
    rw [whole]
    exact List.mem_append_right _ (List.mem_append_left _ (by decide))
  obtain ⟨c,inside,upper⟩ := List.mem_flatMap.mp member
  rcases plain c inside with white | ⟨ascii,large,small⟩
  · rw [standard.whitespace c white] at upper
    rw [← List.mem_singleton.mp upper] at white
    cases white
  · rw [standard.ascii c ascii] at upper
    exact (toUpper_l (List.mem_singleton.mp upper).symm).elim large small

private theorem mem_dropWhile {p : Char → Bool} {text : Text} {c : Char} (member : c ∈ text) :
    p c = true ∨ c ∈ text.dropWhile p := by
  induction text with
  | nil => cases member
  | cons d rest ih =>
    rw [List.dropWhile_cons]
    split
    · rename_i dropped
      rcases List.mem_cons.mp member with rfl | later
      · exact Or.inl dropped
      · exact ih later
    · exact Or.inr member

private theorem plain_trimStart {text : Text} (plain : ∀ c ∈ trimStart text, Plain c) : ∀ c ∈ text, Plain c :=
  fun c member => (mem_dropWhile member).elim Or.inl (plain c)

private theorem plain_trim {text : Text} (plain : ∀ c ∈ trim text, Plain c) : ∀ c ∈ text, Plain c := by
  refine plain_trimStart fun c member => ?_
  rcases mem_dropWhile (p := isWhitespace) (List.mem_reverse.mpr member) with white | inside
  · exact Or.inl white
  · exact plain c (List.mem_reverse.mpr inside)

theorem ascii_iff (c : Char) : c.val < 128 ↔ c.utf8Size = 1 := by
  rw [Char.utf8Size_eq_one_iff,UInt32.lt_iff_toNat_lt,UInt32.le_iff_toNat_le]
  have limit : (128 : UInt32).toNat = 128 := rfl
  have last : (127 : UInt32).toNat = 127 := rfl
  omega

private theorem plain_of_upper {start : Text} (plain : ∀ d ∈ toAsciiUppercase start, d.val < 128 ∧ d ≠ 'L') :
    ∀ c ∈ start, Plain c := by
  intro c member
  obtain ⟨ascii,other⟩ := plain c.toUpper (List.mem_map_of_mem member)
  rw [ascii_iff,utf8Size_toUpper,← ascii_iff] at ascii
  refine Or.inr ⟨ascii,?_,?_⟩
  · rintro rfl
    exact other rfl
  · rintro rfl
    exact other rfl

private theorem plain_digit {c : Char} (digit : isDigit c = true) : Plain c := by
  obtain ⟨low,high⟩ := (Bool.and_eq_true _ _).mp digit
  have limit := UInt32.le_iff_toNat_le.mp (of_decide_eq_true high)
  have nine : (57 : UInt32).toNat = 57 := rfl
  refine Or.inr ⟨UInt32.lt_iff_toNat_lt.mpr ?_,?_,?_⟩
  · have end_ : (128 : UInt32).toNat = 128 := rfl
    omega
  · rintro rfl
    cases digit
  · rintro rfl
    cases digit

private theorem plain_number {text : Text} {value : UInt64} (parsed : parseU64 text = some value) :
    ∀ c ∈ text, Plain c := by
  have digits : ∀ c ∈ (if text.head? = some '+' then text.drop 1 else text), isDigit c = true := by
    unfold parseU64 at parsed
    dsimp only at parsed
    generalize (if text.head? = some '+' then text.drop 1 else text) = digits at parsed
    by_cases good : digits = [] ∨ ¬ digits.all isDigit = true
    · rw [if_pos good] at parsed
      cases parsed
    · exact fun c member => List.all_eq_true.mp (not_not.mp (not_or.mp good).2) c member
  intro c member
  split at digits
  · rename_i plus
    cases text with
    | nil => cases member
    | cons d rest =>
      cases plus
      rcases List.mem_cons.mp member with rfl | later
      · exact Or.inr ⟨by decide,by decide,by decide⟩
      · exact plain_digit (digits c later)
  · exact plain_digit (digits c member)

private theorem mem_splitOn (separator : Char) {text : Text} {c : Char} (member : c ∈ text) :
    c = separator ∨ ∃ part ∈ text.splitOn separator, c ∈ part := by
  rw [List.splitOn]
  induction text with
  | nil => cases member
  | cons d rest ih =>
    rw [List.splitOnP_cons_eq_if_modifyHead]
    split
    · rename_i here
      rcases List.mem_cons.mp member with rfl | later
      · exact Or.inl (beq_iff_eq.mp here)
      · exact (ih later).imp id fun ⟨part,inside,has_⟩ => ⟨part,List.mem_cons_of_mem _ inside,has_⟩
    · cases parts : rest.splitOnP (· == separator) with
      | nil => exact absurd parts (List.splitOnP_ne_nil _ _)
      | cons first others =>
        rw [parts] at ih
        rcases List.mem_cons.mp member with rfl | later
        · exact Or.inr ⟨_,List.mem_cons_self,List.mem_cons_self⟩
        · rcases ih later with here | ⟨part,inside,has_⟩
          · exact Or.inl here
          · rcases List.mem_cons.mp inside with rfl | behind_
            · exact Or.inr ⟨_,List.mem_cons_self,List.mem_cons_of_mem _ has_⟩
            · exact Or.inr ⟨part,List.mem_cons_of_mem _ behind_,has_⟩

variable {s su : Text}

private theorem plain_lookup {starts : List Text} {afterWhere start tail : Text}
    (known : starts.all (fun start => start.all fun d => decide (d.val < 128) && d != 'L') = true)
    (found : starts.find? (fun start => start.isPrefixOf (toAsciiUppercase afterWhere)) = some start)
    (behind_ : onFrom afterWhere (bytesLen start) = some tail) (plain : ∀ c ∈ tail, Plain c) :
    ∀ c ∈ afterWhere, Plain c := by
  have here : start.isPrefixOf (toAsciiUppercase afterWhere) = true :=
    List.find?_some (p := fun start : Text => start.isPrefixOf (toAsciiUppercase afterWhere)) found
  obtain ⟨rest,is⟩ := List.isPrefixOf_iff_prefix.mp here
  obtain ⟨before,tail',rfl,first,_⟩ := upper_append is.symm
  have cut := onFrom_append before tail'
  rw [← bytesLen_upper,first,behind_] at cut
  cases cut
  intro c member
  rcases List.mem_append.mp member with inStart | inTail
  · refine plain_of_upper (fun d there => ?_) c inStart
    have letters := List.all_eq_true.mp known start (List.mem_of_find?_eq_some found)
    have letter := List.all_eq_true.mp letters d (first ▸ there)
    rw [Bool.and_eq_true,decide_eq_true_eq,bne_iff_ne] at letter
    exact letter
  · exact plain c inTail

private theorem plain_empty {text : Text} (empty : (trim text).isEmpty = true) : ∀ c ∈ text, Plain c :=
  plain_trim fun c member => by
    rw [List.isEmpty_iff.mp empty] at member
    cases member

theorem plain_idEquality (uppered : Uppered s su) {id : UInt64} (hit : extractSimpleIdEquality s su = some (some id)) :
    ∀ c ∈ likeClause s su, Plain c := by
  unfold extractSimpleIdEquality at hit
  split at hit
  · cases hit
  · rename_i wherePos found
    rw [afterWhereTrimmed_eq uppered found] at hit
    refine plain_trim ?_
    rw [some_then] at hit
    split at hit
    · cases hit
    · rename_i idPrefix starts
      obtain ⟨tail,behind_,hit⟩ := Option.bind_eq_some_iff.mp hit
      refine plain_lookup (by decide) starts behind_ (plain_trimStart ?_)
      dsimp only at hit
      split at hit
      · cases hit
      · obtain ⟨front,rest,whole,before,after⟩ := cut_char_or_end (!isDigit ·) (trimStart tail)
        rw [before,after] at hit
        have parsed : (if (trim rest).isEmpty then parseU64 front else none) = some id := Option.some.inj hit
        split at parsed
        · rename_i empty
          rw [whole]
          exact fun c member => (List.mem_append.mp member).elim (plain_number parsed c) (plain_empty empty c)
        · cases parsed

theorem plain_idInList (uppered : Uppered s su) {ids : List UInt64}
    (hit : extractSimpleIdInList s su = some (some ids)) :
    ∀ c ∈ likeClause s su, Plain c := by
  unfold extractSimpleIdInList at hit
  split at hit
  · cases hit
  · rename_i wherePos found
    rw [afterWhereTrimmed_eq uppered found] at hit
    refine plain_trim ?_
    rw [some_then] at hit
    split at hit
    · cases hit
    · rename_i idPrefix starts
      obtain ⟨tail,behind_,hit⟩ := Option.bind_eq_some_iff.mp hit
      refine plain_lookup (by decide) starts behind_ (plain_trimStart ?_)
      dsimp only at hit
      split at hit
      · cases hit
      · rename_i opened
        split at hit
        · cases hit
        · rename_i endPos closed
          obtain ⟨list,rest,whole,inside,after⟩ := cut_bracketed (not_not.mp opened) closed
          rw [inside,after] at hit
          change (if _ then _ else _ : Option _) = _ at hit
          split at hit
          · cases hit
          · rename_i shape
            obtain ⟨empty,_⟩ := not_or.mp shape
            obtain ⟨parsed,_⟩ := Option.filter_eq_some_iff.mp (Option.some.inj hit)
            have numbers : ∀ c ∈ list, Plain c := by
              refine plain_trim fun c member => ?_
              rcases mem_splitOn ',' member with rfl | ⟨part,inParts,inPart⟩
              · exact Or.inr ⟨by decide,by decide,by decide⟩
              · obtain ⟨value,number⟩ := mapM_isSome.mp ⟨ids,parsed⟩ part inParts
                exact plain_trim (plain_number number) c inPart
            rw [whole]
            intro c member
            rcases List.mem_cons.mp member with rfl | later
            · exact Or.inr ⟨by decide,by decide,by decide⟩
            · rcases List.mem_append.mp later with inList | behind_
              · exact numbers c inList
              · rcases List.mem_cons.mp behind_ with rfl | inRest
                · exact Or.inr ⟨by decide,by decide,by decide⟩
                · exact plain_empty (not_not.mp empty) c inRest

end Lookups

end ApexBase.Query.Signature
