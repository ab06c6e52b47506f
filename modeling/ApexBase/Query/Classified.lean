import ApexBase.Query.SignatureTotal
import Mathlib.Data.UInt

/-! A statement is sorted without a panic if and only if it fits. -/
namespace ApexBase.Query.Signature
open Library Library.Bytewise Fts

section Attempts
variable {attempt next : Attempt}

@[simp] theorem orElse_skip : orElse (some none) next = next := rfl

theorem returns_orElse (first : Returns attempt) (second : Returns next) : Returns (orElse attempt next) := by
  obtain ⟨found,rfl⟩ := Option.isSome_iff_exists.mp first
  cases found with
  | none => exact second
  | some signature => rfl

theorem orElse_isSome (second : Returns next) : (orElse attempt next).isSome = true ↔ attempt.isSome = true := by
  constructor
  · cases attempt with
    | none => exact nofun
    | some found => exact fun _ => rfl
  · exact fun first => returns_orElse first second

end Attempts

section Parts
variable (standard : StandardText) {s su : Text} (guards : Guards)

theorem returns_onTable (uppered : Uppered s su) (build : Option Text → QuerySignature) :
    Returns (onTable standard s su build) :=
  returns_then (returns_extractFromTable standard uppered) fun _ _ => rfl

theorem returns_countStar (su : Text) : Returns (countStar standard su guards) := by
  unfold countStar
  split
  · rename_i counts
    simp only [Bool.and_eq_true] at counts
    obtain ⟨⟨⟨⟨⟨starts,_⟩,_⟩,_⟩,_⟩,_⟩ := counts
    obtain ⟨rest,rfl⟩ := List.isPrefixOf_iff_prefix.mp starts
    exact returns_bind (onFrom_append "SELECT COUNT(*) FROM ".toList rest) rfl
  · rfl

section
variable (uppered : Uppered s su)
include uppered

theorem returns_byId (one : UInt64 → Option Text → QuerySignature) (many : List UInt64 → Option Text → QuerySignature) :
    Returns (byId standard s su guards one many) := by
  unfold byId
  split
  · refine returns_then (returns_extractSimpleIdEquality uppered) fun found _ => ?_
    cases found with
    | some id => exact returns_onTable standard uppered _
    | none =>
      refine returns_then (returns_extractSimpleIdInList uppered) fun ids _ => ?_
      cases ids with
      | some ids => exact returns_onTable standard uppered _
      | none => rfl
  · rfl

theorem returns_byLimit (build : UInt64 → UInt64 → Option Text → QuerySignature) :
    Returns (byLimit standard s su guards build) := by
  unfold byLimit
  split
  · split
    · exact returns_onTable standard uppered _
    · rfl
  · rfl

theorem returns_byEquality (limited : Text → Text → UInt64 → UInt64 → Option Text → QuerySignature)
    (all : Text → Text → Option Text → QuerySignature) : Returns (byEquality standard s su guards limited all) := by
  unfold byEquality
  split
  · have withLimit : Returns (if guards.hasLimit = true then extractStringEqualityWithLimit s su else some none) :=
      returns_ite (fun _ => returns_extractStringEqualityWithLimit uppered) fun _ => rfl
    refine returns_then withLimit fun found _ => ?_
    rcases found with _ | ⟨column,value,limit,offset⟩
    · refine returns_then (returns_extractStringEquality uppered) fun equality _ => ?_
      rcases equality with _ | ⟨column,value⟩
      · rfl
      · exact returns_onTable standard uppered _
    · exact returns_onTable standard uppered _
  · rfl

theorem returns_byRange (build : Text → UInt64 → UInt64 → UInt64 → UInt64 → Option Text → QuerySignature) :
    Returns (byRange standard s su guards build) := by
  unfold byRange
  split
  · refine returns_then (returns_extractNumericRangeWithLimit standard uppered) fun found _ => ?_
    rcases found with _ | ⟨column,low,high,limit,offset⟩
    · rfl
    · exact returns_onTable standard uppered _
  · rfl

theorem returns_wholeTable (build : Option Text → QuerySignature) : Returns (wholeTable standard s su guards build) :=
  returns_ite (fun _ => returns_onTable standard uppered _) fun _ => rfl

theorem returns_filteredAgg : Returns (filteredAgg standard s su guards) := by
  unfold filteredAgg
  split
  · refine returns_then (returns_extractStringEquality uppered) fun equality _ => ?_
    rcases equality with _ | ⟨column,value⟩
    · rfl
    · exact returns_onTable standard uppered _
  · rfl

theorem returns_projected (columns : List Text) : Returns (projected standard s su guards columns) := by
  refine returns_orElse (returns_byId standard guards uppered _ _) ?_
  refine returns_orElse (returns_byLimit standard guards uppered _) ?_
  refine returns_orElse (returns_byEquality standard guards uppered _ _) ?_
  refine returns_orElse (returns_byRange standard guards uppered _) ?_
  exact returns_wholeTable standard guards uppered _

theorem byPattern_isSome :
    (byPattern standard s su (Guards.of su)).isSome = true ↔ (likeGuard s su (Guards.of su) = true →
      LikeFits standard s su) := by
  unfold byPattern
  split
  · rename_i guard
    rw [forall_prop_of_true guard]
    have filtered : has su "WHERE" = true := by
      simp only [likeGuard,Bool.and_eq_true] at guard
      exact guard.1.1.1.1.1.1.2
    rw [← extractLikePattern_isSome standard uppered filtered]
    refine isSome_bind fun found => ?_
    rcases found with _ | ⟨column,pattern⟩
    · rfl
    · exact returns_onTable standard uppered _
  · rename_i other
    exact ⟨fun _ guard => absurd guard other,fun _ => rfl⟩

theorem likeFits_of_byId {one : UInt64 → Option Text → QuerySignature}
    {many : List UInt64 → Option Text → QuerySignature} {signature : QuerySignature}
    (hit : byId standard s su guards one many = some (some signature)) :
    LikeFits standard s su := by
  have plain : ∀ c ∈ likeClause s su, Plain c := by
    unfold byId at hit
    split at hit
    · obtain ⟨found,equality,hit⟩ := Option.bind_eq_some_iff.mp hit
      cases found with
      | some id => exact plain_idEquality uppered equality
      | none =>
        obtain ⟨found,list,hit⟩ := Option.bind_eq_some_iff.mp hit
        cases found with
        | some ids => exact plain_idInList uppered list
        | none => cases hit
    · cases hit
  intro likePos found
  rw [find_like_plain standard plain] at found
  cases found

end

end Parts

section Statements
variable (standard : StandardText) {s su : Text}

private theorem skipped (guard : likeGuard s su (Guards.of su) = true) :
    (Guards.of su).hasWhere = true ∧ (Guards.of su).hasLimit = false ∧ has su " LIKE " = true := by
  simp only [likeGuard,Bool.and_eq_true,Bool.not_eq_true'] at guard
  exact ⟨guard.1.1.1.1.1.1.2,guard.1.1.1.1.2,guard.1.1.1.1.1.1.1⟩

theorem starred_isSome (uppered : Uppered s su) :
    (starred standard s su (Guards.of su)).isSome = true ↔ (likeGuard s su (Guards.of su) = true →
      LikeFits standard s su) := by
  have rest : Returns (wholeTable standard s su (Guards.of su) .fullScan) := returns_wholeTable standard _ uppered _
  by_cases guard : likeGuard s su (Guards.of su) = true
  · obtain ⟨filtered,unlimited,like⟩ := skipped guard
    unfold starred
    cases byId_ : byId standard s su (Guards.of su) .pointLookup .idBatchLookup with
    | none =>
      have returns := returns_byId standard (Guards.of su) uppered .pointLookup .idBatchLookup
      rw [byId_] at returns
      cases returns
    | some found =>
      cases found with
      | some signature => exact ⟨fun _ _ => likeFits_of_byId standard _ uppered byId_,fun _ => rfl⟩
      | none =>
        have noLimit : byLimit standard s su (Guards.of su) .simpleScanLimit = some none := by
          rw [byLimit,unlimited]
          rfl
        have noEquality : equalityGuard s su (Guards.of su) = false := by
          simp only [equalityGuard,like,Bool.not_true,Bool.and_false,Bool.false_and]
        have noRange : rangeGuard s su (Guards.of su) = false := by
          simp only [rangeGuard,unlimited,Bool.and_false,Bool.false_and]
        rw [orElse_skip,noLimit,orElse_skip,byEquality,noEquality,byRange,noRange]
        exact (orElse_isSome rest).trans (byPattern_isSome standard uppered)
  · have pattern := (byPattern_isSome standard uppered).mpr fun here => absurd here guard
    refine ⟨fun _ here => absurd here guard,fun _ => ?_⟩
    refine returns_orElse (returns_byId standard _ uppered _ _) ?_
    refine returns_orElse (returns_byLimit standard _ uppered _) ?_
    refine returns_orElse (returns_byEquality standard _ uppered _ _) ?_
    refine returns_orElse (returns_byRange standard _ uppered _) ?_
    exact returns_orElse pattern rest

theorem classifySelect_isSome (uppered : Uppered s su) :
    (classifySelect standard s su).isSome = true ↔ (seeksPattern s su = true → LikeFits standard s su) := by
  have aggregate : Returns (filteredAgg standard s su (Guards.of su)) := returns_filteredAgg standard _ uppered
  unfold classifySelect
  simp only [seeksPattern,readsFile_eq,hasExactStarProjection_eq uppered]
  cases parser : needsParser s su with
  | true => exact ⟨fun _ => nofun,fun _ => rfl⟩
  | false =>
  cases function : readsTableFunction su with
  | true => exact ⟨fun _ => nofun,fun _ => rfl⟩
  | false =>
  cases file : namesFile su with
  | true => exact ⟨fun _ => nofun,fun _ => rfl⟩
  | false =>
  cases star : isStar s su with
  | false =>
    refine ⟨fun _ => nofun,fun _ => ?_⟩
    refine returns_orElse (returns_countStar standard _ su) ?_
    change Returns (extractSimpleProjectionColumns s su >>= _)
    refine returns_then (returns_extractSimpleProjectionColumns uppered) fun columns _ => ?_
    cases columns with
    | none => exact aggregate
    | some columns => exact returns_orElse (returns_projected standard _ uppered columns) aggregate
  | true =>
    rw [extractSimpleProjectionColumns_star uppered star]
    have tried := starred_isSome standard uppered
    cases guard : likeGuard s su (Guards.of su) with
    | false =>
      have starred_ : Returns (starred standard s su (Guards.of su)) :=
        tried.mpr fun here => absurd (guard.symm.trans here) (by decide)
      exact ⟨fun _ => nofun,fun _ => returns_orElse (returns_countStar standard _ su)
        (returns_orElse starred_ aggregate)⟩
    | true =>
      have noCount : countStar standard su (Guards.of su) = some none := by
        rw [countStar,(skipped guard).1]
        simp only [Bool.not_true,Bool.and_false,Bool.false_and]
        rfl
      rw [noCount]
      change (orElse (starred standard s su (Guards.of su)) _).isSome = true ↔ _
      rw [orElse_isSome aggregate,tried,guard]
      rfl

private theorem table_first (table : createsTable su = true ∨ startsWith su "DROP TABLE" = true) :
    isTransaction su = false ∧ (startsWith su "SET " || startsWith su "RESET ") = false ∧ isDdl su = true ∧
    startsWith su "SELECT" = false := by
  unfold createsTable at table
  rw [Bool.or_eq_true,Bool.or_eq_true] at table
  rcases table with ((one | two) | three) | drop
  · obtain ⟨rest,rfl⟩ := List.isPrefixOf_iff_prefix.mp one
    exact ⟨rfl,rfl,rfl,rfl⟩
  · obtain ⟨rest,rfl⟩ := List.isPrefixOf_iff_prefix.mp two
    exact ⟨rfl,rfl,rfl,rfl⟩
  · obtain ⟨rest,rfl⟩ := List.isPrefixOf_iff_prefix.mp three
    exact ⟨rfl,rfl,rfl,rfl⟩
  · obtain ⟨rest,rfl⟩ := List.isPrefixOf_iff_prefix.mp drop
    exact ⟨rfl,rfl,rfl,rfl⟩

private theorem ddlFits_of_other (other : ¬ (createsTable su = true ∨ startsWith su "DROP TABLE" = true)) :
    DdlFits s su :=
  ⟨fun creates => absurd (Or.inl creates) other,fun drops => absurd (Or.inr drops) other⟩

theorem classifyImpl_isSome (sql : Text) : (classifyImpl standard sql).isSome = true ↔ Sortable standard sql := by
  have uppered := uppered_start (trim sql)
  unfold classifyImpl Sortable
  simp only [upperBuf_eq]
  generalize trim sql = s at *
  generalize upperStart s = su at *
  cases multi : isMultiStatement s with
  | true => exact ⟨fun _ => Or.inl rfl,fun _ => rfl⟩
  | false =>
    rw [or_iff_right (by decide)]
    by_cases select : startsWith su "SELECT" = true
    · have fits : DdlFits s su := ddlFits_of_other fun table => by
        rw [(table_first table).2.2.2] at select
        cases select
      obtain ⟨rest,rfl⟩ := List.isPrefixOf_iff_prefix.mp select
      rw [and_iff_right fits,← classifySelect_isSome standard uppered]
      change (classifySelect standard s ("SELECT".toList ++ rest) >>= fun found =>
        some (found.getD .complex)).isSome = true ↔ _
      exact isSome_bind fun _ => rfl
    · have noPattern : seeksPattern s su = false := by
        simp only [seeksPattern,isStar,Bool.not_eq_true _ |>.mp select,Bool.false_and,Bool.and_false]
      rw [noPattern,and_iff_left nofun]
      by_cases table : createsTable su = true ∨ startsWith su "DROP TABLE" = true
      · obtain ⟨transaction,session,ddl,_⟩ := table_first table
        rw [← extractDdlKind_isSome standard uppered]
        simp only [transaction,session,ddl,Option.bind_eq_bind,Option.bind_some,if_true,if_false,Bool.false_eq_true]
        exact isSome_bind fun _ => rfl
      · have kind := (extractDdlKind_isSome standard uppered).mpr (ddlFits_of_other table)
        refine ⟨fun _ => ddlFits_of_other table,fun _ => ?_⟩
        refine returns_bind rfl ?_
        refine returns_ite nofun fun _ => ?_
        refine returns_ite (fun _ => rfl) fun _ => ?_
        refine returns_ite (fun _ => rfl) fun _ => ?_
        refine returns_ite (fun _ => returns_then kind fun _ _ => rfl) fun _ => ?_
        refine returns_ite (fun _ => rfl) fun _ => ?_
        refine returns_ite (fun _ => rfl) fun _ => ?_
        refine returns_ite (fun _ => rfl) fun _ => ?_
        refine returns_ite (fun _ => rfl) fun _ => ?_
        exact returns_ite (fun _ => rfl) fun other => absurd (by simpa using other) select

theorem classify_isSome (cache : ClassifyCache standard) (sql : Text) :
    (classify standard cache sql).isSome = true ↔ (classifyImpl standard sql).isSome = true := by
  unfold classify
  split
  · rename_i hit found
    rw [cache.classified sql hit found]
    exact ⟨fun _ => rfl,fun _ => rfl⟩
  · split
    · rename_i panics
      rw [panics]
      exact ⟨nofun,nofun⟩
    · rename_i signature computed
      exact ⟨fun _ => returns_of computed,fun _ => rfl⟩

/-- Every call of the classifier, with any statements in the cache. -/
theorem classify_returns_iff (cache : ClassifyCache standard) (sql : Text) :
    (classify standard cache sql).isSome = true ↔ Sortable standard sql :=
  (classify_isSome standard cache sql).trans (classifyImpl_isSome standard sql)

end Statements

section Ascii
variable (standard : StandardText) {text s su : Text}

def Ascii (text : Text) : Prop := ∀ c ∈ text, c.val < 128

namespace Ascii

theorem sublist {part : Text} (ascii : Ascii text) (inside : part.Sublist text) :
    Ascii part := fun c member => ascii c (inside.subset member)

theorem boundary (ascii : Ascii text) (position : Nat) : isBoundary text position = true ↔ position ≤ text.length :=
  isBoundary_narrow fun c member => (ascii_iff c).mp (ascii c member)

theorem bytes (ascii : Ascii text) : bytesLen text = text.length := by
  induction text with
  | nil => rfl
  | cons c rest ih =>
    have narrow : c.utf8Size = 1 := (ascii_iff c).mp (ascii c List.mem_cons_self)
    rw [bytesLen_cons,narrow,ih (ascii.sublist (List.sublist_cons_self c rest)),List.length_cons,Nat.add_comm]

theorem keywordFits (ascii : Ascii text) (keyword : String) : KeywordFits keyword text := by
  rw [KeywordFits,ascii.boundary,ascii.bytes]
  omega

theorem upper (ascii : Ascii text) : text.flatMap standard.toUppercase = toAsciiUppercase text := by
  induction text with
  | nil => rfl
  | cons c rest ih =>
    rw [List.flatMap_cons,standard.ascii c (ascii c List.mem_cons_self),
      ih (ascii.sublist (List.sublist_cons_self c rest))]
    rfl

end Ascii

theorem trim_sublist (text : Text) : (trim text).Sublist text := by
  have back := List.reverse_sublist.mpr (List.dropWhile_sublist isWhitespace (l :=
    (text.dropWhile isWhitespace).reverse))
  rw [List.reverse_reverse] at back
  exact back.trans (List.dropWhile_sublist isWhitespace)

theorem behind_sublist (pattern : String) (s su : Text) : (behind pattern s su).Sublist s := by
  unfold behind
  split
  · exact List.drop_sublist _ _
  · exact List.nil_sublist _

theorem likeClause_sublist (s su : Text) : (likeClause s su).Sublist s := by
  have back := List.reverse_sublist.mpr (List.dropWhile_sublist (· == ';') (l := (trim (behind "WHERE" s su)).reverse))
  rw [List.reverse_reverse] at back
  exact back.trans ((trim_sublist _).trans (behind_sublist _ _ _))

theorem sortable_of_ascii (standard : StandardText) {sql : Text} (ascii : Ascii sql) : Sortable standard sql := by
  have trimmed : Ascii (trim sql) := ascii.sublist (trim_sublist sql)
  refine Or.inr ⟨⟨fun _ => ?_,fun _ => ?_⟩,fun _ likePos found => ?_⟩
  · exact (trimmed.sublist ((List.dropWhile_sublist isWhitespace).trans (behind_sublist _ _ _))).keywordFits _
  · exact (trimmed.sublist ((List.dropWhile_sublist isWhitespace).trans (List.drop_sublist _ _))).keywordFits _
  · have clause := trimmed.sublist (likeClause_sublist (trim sql) (upperStart (trim sql)))
    generalize likeClause (trim sql) (upperStart (trim sql)) = text at clause found ⊢
    rw [clause.upper] at found
    obtain ⟨before,rest,whole,rfl⟩ := find_some found
    obtain ⟨before',rest',rfl,rfl,tail⟩ := upper_append whole
    obtain ⟨like,behind',rfl,same,_⟩ := upper_append tail
    rw [bytesLen_upper]
    refine ⟨before',upTo_append before' _,fun _ => isBoundary_iff.mpr ⟨before' ++ like,behind',
      (List.append_assoc _ _ _).symm,?_⟩⟩
    rw [bytesLen_append,← bytesLen_upper like,same]
    rfl

end Ascii

def asciiText : StandardText where
  toUppercase c := [c.toUpper]
  toLowercase := List.map Char.toLower
  parseF64 _ := none
  ascii _ _ := rfl
  whitespace c white := by
    have narrow : ¬ ('a'.val ≤ c.val ∧ c.val ≤ 'z'.val) := by
      intro letter
      have low := UInt32.le_iff_toNat_le.mp letter.1
      have high := UInt32.le_iff_toNat_le.mp letter.2
      have first : 'a'.val.toNat = 97 := rfl
      have last : 'z'.val.toNat = 122 := rfl
      simp only [isWhitespace,Bool.or_eq_true,Bool.and_eq_true,decide_eq_true_eq,beq_iff_eq,UInt32.le_iff_toNat_le,
        ← UInt32.toNat_inj,
        UInt32.reduceToNat] at white
      omega
    have same : c.toUpper = c := dif_neg narrow
    rw [same]

theorem classify_long_name : ¬ ∀ (standard : StandardText) (cache : ClassifyCache standard) (sql : Text),
    (classify standard cache sql).isSome = true := by
  intro total
  have panics : classifyImpl asciiText "CREATE TABLE 用户订单明细 (id INT)".toList = none := by decide
  have found := (classify_isSome _ _ _).mp (total asciiText (.empty asciiText) "CREATE TABLE 用户订单明细 (id INT)".toList)
  rw [panics] at found
  cases found

end ApexBase.Query.Signature
