import ApexBase.Fts.Query
import ApexBase.Library.Bytewise
import ApexBase.Library.RegexFragment
import ApexBase.Library.Search
import ApexBase.Library.Utf8

/-! LIKE on texts (`query/filter.rs`): the matcher that is made once for a pattern, and the one that
takes the pattern with every text. -/
namespace ApexBase.Query.Like
open Library Library.Bytewise Fts Wildcard

/-- The crates `memchr` and `regex`. An expression can be refused, also for its size; one of literals, dots and anchors
means its pieces. -/
structure TextCrates where
  memmem : Search.Finder UInt8
  new : Text → Option (Text → Bool)
  searches : ∀ expression pieces isMatch, RegexFragment.parse expression = some pieces → new expression = some isMatch →
    ∀ s, isMatch s = RegexFragment.search pieces s

inductive LikeMatcher
  | exact (p : Text)
  | prefixed (p : Text)
  | suffixed (p : Text)
  | contains (p : Text)
  | regex (isMatch : Text → Bool)
  | any
  | never

def startsWild (pattern : Text) : Bool := pattern.head? == some '%'

def endsWild (pattern : Text) : Bool := pattern.getLast? == some '%'

def hasWildcard (text : Text) : Bool := text.contains '%' || text.contains '_'

def middle (pattern : Text) : Text := (pattern.drop 1).dropLast

def escaped (c : Char) : Bool := c ∈ ['.','+','*','?','^','$','(',')','[',']','{','}','|','\\']

def translate (c : Char) : Text := if c = '%' then ['.','*'] else if c = '_' then ['.']
    else if escaped c then ['\\',c] else [c]

def regexPattern (pattern : Text) : Text := '^' :: (pattern.flatMap translate ++ ['$'])

variable (crate : TextCrates)

def LikeMatcher.new (pattern : Text) : LikeMatcher :=
  if pattern = [] then .exact []
  else if pattern = ['%'] then .any
  else if !startsWild pattern && !endsWild pattern && !hasWildcard pattern then .exact pattern
  else if !startsWild pattern && endsWild pattern && !hasWildcard pattern.dropLast then .prefixed pattern.dropLast
  else if startsWild pattern && !endsWild pattern && !hasWildcard (pattern.drop 1) then .suffixed (pattern.drop 1)
  else if startsWild pattern && endsWild pattern && bytesLen pattern > 2 && !hasWildcard (middle pattern) then
    .contains (middle pattern)
  else
    match crate.new (regexPattern pattern) with
    | some isMatch => .regex isMatch
    | none => .never

/-- The bytes of the text are searched for those of the pattern. -/
def LikeMatcher.matches (s : Text) : LikeMatcher → Bool
  | .exact p => s == p
  | .prefixed p => p.isPrefixOf s
  | .suffixed p => p.isSuffixOf s
  | .contains p => (crate.memmem.find (Utf8.encode s) (Utf8.encode p)).isSome
  | .regex isMatch => isMatch s
  | .any => true
  | .never => false

def likeMatchComplex (s pattern : Text) : Bool :=
  match crate.new (regexPattern pattern) with
  | some isMatch => isMatch s
  | none => false

def likeMatchFast (s pattern : Text) : Bool :=
  if pattern = [] then s.isEmpty
  else if !startsWild pattern && !endsWild pattern && !hasWildcard pattern then s == pattern
  else if !startsWild pattern && endsWild pattern && !hasWildcard pattern.dropLast then pattern.dropLast.isPrefixOf s
  else if startsWild pattern && !endsWild pattern && !hasWildcard (pattern.drop 1) then (pattern.drop 1).isSuffixOf s
  else if startsWild pattern && endsWild pattern && bytesLen pattern > 2 && !hasWildcard (middle pattern) then
    contains (middle pattern) s
  else likeMatchComplex crate s pattern

def likeMatch (s pattern : Text) : Bool := likeMatchFast crate s pattern

def itemOf (c : Char) : Item Char := if c = '%' then .any else if c = '_' then .one else .exact c

/-- The reference: any text for a percent sign, any character for an underscore. -/
def like (pattern s : Text) : Bool := fits (fun _ => true) (pattern.map itemOf) s

def likeInLine (pattern s : Text) : Bool := fits RegexFragment.notLineFeed (pattern.map itemOf) s

def direct (pattern : Text) : Bool :=
  decide (pattern = []) || (!startsWild pattern && !endsWild pattern && !hasWildcard pattern) ||
    (!startsWild pattern && endsWild pattern && !hasWildcard pattern.dropLast) ||
    (startsWild pattern && !endsWild pattern && !hasWildcard (pattern.drop 1)) ||
    (startsWild pattern && endsWild pattern && decide (bytesLen pattern > 2) && !hasWildcard (middle pattern))

/-- Where the expression is taken, a text that the pattern fits also fits with no line feed for a
wildcard; where it is refused, the pattern does not fit. -/
def RegexFits (pattern s : Text) : Prop :=
  if (crate.new (regexPattern pattern)).isSome then like pattern s = true → likeInLine pattern s = true
  else like pattern s = false

section Expression

private theorem translate_start (pattern rest : Text) (next : rest.head? ≠ some '*') :
    (pattern.flatMap translate ++ rest).head? ≠ some '*' := by
  cases pattern with
  | nil => exact next
  | cons c pattern =>
    rw [List.flatMap_cons,List.append_assoc,translate]
    split
    · exact fun same => nomatch same
    · split
      · exact fun same => nomatch same
      · split
        · exact fun same => nomatch same
        · rename_i plain
          intro same
          obtain rfl : c = '*' := Option.some.inj same
          exact plain rfl

theorem parse_translate (pattern : Text) {rest : Text} {pieces : List RegexFragment.Piece}
    (behind : RegexFragment.parse rest = some pieces)
    (next : rest.head? ≠ some '*') : RegexFragment.parse (pattern.flatMap translate ++ rest) =
      some ((pattern.map itemOf).map RegexFragment.pieceOf ++ pieces) := by
  induction pattern with
  | nil => exact behind
  | cons c pattern ih =>
    have start := translate_start pattern rest next
    rw [List.flatMap_cons,List.append_assoc,translate,List.map_cons,List.map_cons,List.cons_append,itemOf]
    split
    · change (RegexFragment.parse (pattern.flatMap translate ++ rest)).map _ = _
      rw [ih]
      rfl
    · split
      · change RegexFragment.parse ('.' :: (pattern.flatMap translate ++ rest)) = _
        rw [RegexFragment.parse_dot start,ih]
        rfl
      · split
        · rename_i meta_
          have meant : RegexFragment.isMeta c = true := meta_
          change (if RegexFragment.isMeta c = true then (RegexFragment.parse (pattern.flatMap translate ++ rest)).map _
            else none) = _
          rw [if_pos meant,ih]
          rfl
        · rename_i plain
          change RegexFragment.parse (c :: (pattern.flatMap translate ++ rest)) = _
          rw [RegexFragment.parse_literal (Bool.not_eq_true _ |>.mp plain),ih]
          rfl

theorem parse_regexPattern (pattern : Text) : RegexFragment.parse (regexPattern pattern) =
    some (.start :: ((pattern.map itemOf).map RegexFragment.pieceOf ++ [.finish])) := by
  change (RegexFragment.parse (pattern.flatMap translate ++ ['$'])).map _ = _
  rw [parse_translate pattern rfl (by decide)]
  rfl

variable {crate : TextCrates}

theorem isMatch_eq {pattern : Text} {isMatch : Text → Bool} (taken : crate.new (regexPattern pattern) = some isMatch)
    (s : Text) :
    isMatch s = likeInLine pattern s := by
  rw [crate.searches _ _ _ (parse_regexPattern pattern) taken]
  exact RegexFragment.search_anchored _ s

theorem likeMatchComplex_iff (pattern s : Text) : likeMatchComplex crate s pattern = like pattern s ↔
    RegexFits crate pattern s := by
  unfold likeMatchComplex RegexFits
  cases taken : crate.new (regexPattern pattern) with
  | none => exact eq_comm
  | some isMatch =>
    change isMatch s = like pattern s ↔ _
    rw [isMatch_eq taken,Option.isSome_some,if_pos rfl,Bool.eq_iff_iff]
    exact ⟨fun same => same.mpr,fun within => ⟨fits_mono fun _ _ => rfl,within⟩⟩

end Expression

section Direct

theorem map_itemOf {text : Text} (plain : hasWildcard text = false) : text.map itemOf = text.map .exact := by
  obtain ⟨noPercent,noUnderscore⟩ := (Bool.or_eq_false_iff).mp plain
  refine List.map_congr_left fun c member => ?_
  have percent : c ≠ '%' := by
    rintro rfl
    exact absurd (List.contains_iff_mem.mpr member) (by rw [noPercent]; decide)
  have underscore : c ≠ '_' := by
    rintro rfl
    exact absurd (List.contains_iff_mem.mpr member) (by rw [noUnderscore]; decide)
  rw [itemOf,if_neg percent,if_neg underscore]

variable {pattern : Text} (s : Text)

theorem like_plain (plain : hasWildcard pattern = false) : like pattern s = (s == pattern) := by
  rw [like,map_itemOf plain,Bool.eq_iff_iff,fits_exact,beq_iff_eq]

private theorem front_percent (ends : endsWild pattern = true) : pattern = pattern.dropLast ++ ['%'] := by
  obtain ⟨front,rfl⟩ := List.getLast?_eq_some_iff.mp (beq_iff_eq.mp ends)
  rw [List.dropLast_concat]

private theorem percent_back (starts : startsWild pattern = true) : pattern = '%' :: pattern.drop 1 := by
  cases pattern with
  | nil => cases starts
  | cons c rest =>
    obtain rfl : c = '%' := Option.some.inj (beq_iff_eq.mp starts)
    rfl

theorem like_prefixed (ends : endsWild pattern = true) (plain : hasWildcard pattern.dropLast = false) :
    like pattern s = pattern.dropLast.isPrefixOf s := by
  have items : pattern.map itemOf = pattern.dropLast.map .exact ++ [.any] := by
    conv_lhs => rw [front_percent ends]
    rw [List.map_append,map_itemOf plain]
    rfl
  rw [like,items,Bool.eq_iff_iff,fits_before_any,List.isPrefixOf_iff_prefix]

theorem like_suffixed (starts : startsWild pattern = true) (plain : hasWildcard (pattern.drop 1) = false) :
    like pattern s = (pattern.drop 1).isSuffixOf s := by
  have items : pattern.map itemOf = .any :: (pattern.drop 1).map .exact := by
    conv_lhs => rw [percent_back starts]
    rw [List.map_cons,map_itemOf plain]
    rfl
  rw [like,items,Bool.eq_iff_iff,fits_behind_any,List.isSuffixOf_iff_suffix]

section
variable (starts : startsWild pattern = true) (ends : endsWild pattern = true) (long : bytesLen pattern > 2)
include starts ends long

private theorem percent_middle :
    pattern = '%' :: (middle pattern ++ ['%']) := by
  have whole := percent_back starts
  cases back : pattern.drop 1 with
  | nil =>
    rw [back] at whole
    rw [whole] at long
    exact absurd long (by decide)
  | cons c rest =>
    rw [back] at whole
    have last : endsWild (c :: rest) = true := by
      rw [whole] at ends
      exact ends
    have inner := front_percent last
    rw [middle,back,← inner]
    exact whole

theorem like_contains (plain : hasWildcard (middle pattern) = false) :
    like pattern s = true ↔ middle pattern <:+: s := by
  have items : pattern.map itemOf = .any :: ((middle pattern).map .exact ++ [.any]) := by
    conv_lhs => rw [percent_middle starts ends long]
    rw [List.map_cons,List.map_append,map_itemOf plain]
    rfl
  rw [like,items,fits_between_any]

end

theorem find_encode (memmem : Search.Finder UInt8) (pattern : Text) :
    (memmem.find (Utf8.encode s) (Utf8.encode pattern)).isSome = true ↔ pattern <:+: s := by
  rw [← Utf8.infix_encode]
  constructor
  · intro found
    obtain ⟨start,found⟩ := Option.isSome_iff_exists.mp found
    have here := (memmem.first _ _ _ found).1
    rw [Search.occursAt,List.isPrefixOf_iff_prefix] at here
    exact here.isInfix.trans (List.drop_suffix _ _).isInfix
  · rintro ⟨front,back,split⟩
    have inside : front.length ≤ (Utf8.encode s).length := by
      rw [← split,List.length_append,List.length_append]
      omega
    have here : Search.occursAt (Utf8.encode pattern) (Utf8.encode s) front.length = true := by
      rw [Search.occursAt,← split,List.append_assoc,List.drop_left,List.isPrefixOf_iff_prefix]
      exact List.prefix_append _ _
    exact memmem.complete _ _ _ inside here

end Direct

section Matchers
variable (crate : TextCrates) (pattern s : Text)

private theorem indirect (written : ¬ pattern = [])
    (exact_ : ¬ (!startsWild pattern && !endsWild pattern && !hasWildcard pattern) = true)
    (prefixed : ¬ (!startsWild pattern && endsWild pattern && !hasWildcard pattern.dropLast) = true)
    (suffixed : ¬ (startsWild pattern && !endsWild pattern && !hasWildcard (pattern.drop 1)) = true)
    (contains : ¬ (startsWild pattern && endsWild pattern && decide (bytesLen pattern > 2) &&
      !hasWildcard (middle pattern)) = true) :
    direct pattern = false := by
  rw [Bool.not_eq_true] at exact_ prefixed suffixed contains
  rw [direct,decide_eq_false written,exact_,prefixed,suffixed,contains]
  rfl

theorem likeMatch_iff : likeMatch crate s pattern = like pattern s ↔ direct pattern = true ∨
    RegexFits crate pattern s := by
  unfold likeMatch likeMatchFast
  split
  · rename_i empty
    subst empty
    exact iff_of_true rfl (Or.inl rfl)
  rename_i written
  split
  · rename_i shape
    have plain : hasWildcard pattern =
      false := by simp only [Bool.and_eq_true,Bool.not_eq_true'] at shape; exact shape.2
    refine iff_of_true (like_plain s plain).symm (Or.inl ?_)
    rw [direct,shape,Bool.or_true]
    simp only [Bool.true_or]
  rename_i exact_
  split
  · rename_i shape
    obtain ⟨⟨_,ends⟩,plain⟩ : (startsWild pattern = false ∧ endsWild pattern = true) ∧
      hasWildcard pattern.dropLast = false := by
      simpa only [Bool.and_eq_true,Bool.not_eq_true'] using shape
    refine iff_of_true (like_prefixed s ends plain).symm (Or.inl ?_)
    rw [direct,shape,Bool.or_true]
    simp only [Bool.true_or]
  rename_i prefixed
  split
  · rename_i shape
    obtain ⟨⟨starts,_⟩,plain⟩ : (startsWild pattern = true ∧ endsWild pattern = false) ∧
      hasWildcard (pattern.drop 1) = false := by
      simpa only [Bool.and_eq_true,Bool.not_eq_true'] using shape
    refine iff_of_true (like_suffixed s starts plain).symm (Or.inl ?_)
    rw [direct,shape,Bool.or_true]
    simp only [Bool.true_or]
  rename_i suffixed
  split
  · rename_i shape
    obtain ⟨⟨⟨starts,ends⟩,long⟩,plain⟩ : ((startsWild pattern = true ∧ endsWild pattern = true) ∧
      bytesLen pattern > 2) ∧
        hasWildcard (middle pattern) = false := by
      simpa only [Bool.and_eq_true,Bool.not_eq_true',decide_eq_true_eq] using shape
    refine iff_of_true ?_ (Or.inl ?_)
    · rw [Bool.eq_iff_iff,contains_iff,like_contains s starts ends long plain]
    · rw [direct,shape,Bool.or_true]
  · rename_i contains
    rw [indirect pattern written exact_ prefixed suffixed contains,likeMatchComplex_iff]
    exact (or_iff_right (by decide)).symm

theorem matches_eq (some_ : pattern ≠ ['%']) : (LikeMatcher.new crate pattern).matches crate s =
    likeMatch crate s pattern := by
  unfold LikeMatcher.new likeMatch likeMatchFast
  rw [if_neg some_]
  split
  · cases s with
    | nil => rfl
    | cons c rest => rfl
  split
  · rfl
  split
  · rfl
  split
  · rfl
  split
  · rw [LikeMatcher.matches, Bool.eq_iff_iff, find_encode, contains_iff]
  · rw [likeMatchComplex]
    cases crate.new (regexPattern pattern) with
    | none => rfl
    | some isMatch => rfl

end Matchers

/-- Outside of the expressions both are LIKE; an expression is LIKE where no line feed has to stand for a wildcard. -/
theorem like_paths_iff (crate : TextCrates) (pattern s : Text) :
    (((LikeMatcher.new crate pattern).matches crate s = like pattern s) ↔ pattern = ['%'] ∨ direct pattern = true ∨
      RegexFits crate pattern s) ∧
    (likeMatch crate s pattern = like pattern s ↔ direct pattern = true ∨ RegexFits crate pattern s) := by
  refine ⟨?_,likeMatch_iff crate pattern s⟩
  by_cases percent : pattern = ['%']
  · subst percent
    exact iff_of_true (fits_any).symm (Or.inl rfl)
  · rw [matches_eq crate pattern s percent,likeMatch_iff,or_iff_right percent]

def fragmentCrate : TextCrates where
  memmem := .scan
  new expression := (RegexFragment.parse expression).map RegexFragment.search
  searches expression pieces isMatch parsed taken s := by
    rw [parsed] at taken
    cases taken
    rfl

/-- `a%c_` and a text of two lines; the pattern `a%` takes it. -/
theorem line_feed_misses :
    like "a%c_".toList "a\nbcd".toList = true ∧ (LikeMatcher.new fragmentCrate "a%c_".toList).matches fragmentCrate
      "a\nbcd".toList = false ∧
    likeMatch fragmentCrate "a\nbcd".toList "a%c_".toList = false ∧
    (LikeMatcher.new fragmentCrate "a%".toList).matches fragmentCrate "a\nbcd".toList = true ∧
    ¬ ∀ crate pattern s, (LikeMatcher.new crate pattern).matches crate s = like pattern s ∧
    likeMatch crate s pattern = like pattern s := by
  have fits_ : like "a%c_".toList "a\nbcd".toList = true := by decide
  have missed : (LikeMatcher.new fragmentCrate "a%c_".toList).matches fragmentCrate "a\nbcd".toList = false := by decide
  refine ⟨fits_,missed,by decide,by decide,fun same => ?_⟩
  have both := (same fragmentCrate "a%c_".toList "a\nbcd".toList).1
  rw [fits_,missed] at both
  cases both

end ApexBase.Query.Like
