import ApexBase.Library.Kleene
import ApexBase.Query.DecimalText

/-! BETWEEN and IN on decimal columns against the expansions of SQL, in three-valued logic and over
the numbers themselves. -/
namespace ApexBase.Query.Decimal
open Data Library Library.Assoc Library.Decimal
open Defaults (BinaryOperator SqlExpr UnaryOperator)

/-- What a literal stands for. A float stands for the number that it is shown as. -/
inductive Denotes (display : UInt64 → List Char) : Value → Option ℚ → Prop
  | null : Denotes display .null none
  | integer {value : Value} {number : Int} (whole : value.integer? = some number) : Denotes display value (some number)
  | float32 {bits : UInt32} (numeral : Numeral) (finite : isFinite (Float32.ofBits bits).toFloat.toBits = true)
      (shown : Fts.trim (display (Float32.ofBits bits).toFloat.toBits) = numeral.text) :
      Denotes display (.float32 bits) (some numeral.value)
  | float64 {bits : UInt64} (numeral : Numeral) (finite : isFinite bits = true)
      (shown : Fts.trim (display bits) = numeral.text) :
      Denotes display (.float64 bits) (some numeral.value)
  | string {text : String} (numeral : Numeral) (shown : Fts.trim text.toList = numeral.text) :
      Denotes display (.string text) (some numeral.value)

/-- What a bound stands for. The parser keeps a minus before the digits as an operator. -/
inductive BoundDenotes (display : UInt64 → List Char) : SqlExpr → Option ℚ → Prop
  | literal {value : Value} {meaning : Option ℚ} (denotes : Denotes display value meaning) :
      BoundDenotes display (.literal value) meaning
  | minus {bound : SqlExpr} {meaning : Option ℚ} (denotes : BoundDenotes display bound meaning) :
      BoundDenotes display (.unaryOp .minus bound) (meaning.map fun number => -number)

def sqlCompare (op : BinaryOperator) : Option ℚ → Option ℚ → Option Bool
  | some a,some b => some (holds op a b)
  | _,_ => none

def sqlNegated (negated : Bool) (value : Option Bool) : Option Bool := if negated then Kleene.neg value else value

def sqlBetween (x low high : Option ℚ) (negated : Bool) : Option Bool :=
  sqlNegated negated (Kleene.conj (sqlCompare .ge x low) (sqlCompare .le x high))

def sqlIn (x : Option ℚ) (items : List (Option ℚ)) (negated : Bool) : Option Bool :=
  sqlNegated negated (Kleene.any (items.map (sqlCompare .eq x)))

def number (parts : Int128 × Int8) : ℚ := rational parts.1 parts.2

def Near (scale : Int8) (value : Int128) (parts : Int128 × Int8) : Prop := Comparable value scale parts.1 parts.2

/-- None of the comparisons that IN makes overflows. It stops at the first literal that is equal. -/
def InNear (scale : Int8) (value : Int128) : List (Int128 × Int8) → Prop
  | [] => True
  | literal :: rest => Near scale value literal ∧ (rational value scale ≠ number literal → InNear scale value rest)

section Literals
variable {runtime : Runtime} {value : Value} {parts : Int128 × Int8}

private theorem parse_value {text : List Char} (numeral : Numeral) (shown : Fts.trim text = numeral.text)
    (parsed : parseDecimalText text = some parts) : number parts = numeral.value := by
  rw [parse_numeral numeral shown] at parsed
  split at parsed
  · rename_i taken
    rw [← Option.some.inj parsed]
    exact partsOf_value taken
  · exact nomatch parsed

private theorem wrap_number {whole : Int} (fits : -2^127 ≤ whole ∧ whole < 2^127) : number (.wrap whole,0) = whole := by
  have scale : (0 : Int8).toInt = 0 := rfl
  rw [number,rational,Int128.wrap_of_fits fits,scale,scaled,zpow_zero,div_one]

variable (runtime) in
private theorem integer_parts {whole : Int} (own : value.integer? = some whole) :
    decimalLiteralParts runtime value = some (.wrap whole,0) ∧ -2^127 ≤ whole ∧ whole < 2^127 := by
  cases value with
  | int8 value =>
    cases own
    have low := value.le_toInt
    have high := value.toInt_lt
    exact ⟨rfl,by omega,by omega⟩
  | int16 value =>
    cases own
    have low := value.le_toInt
    have high := value.toInt_lt
    exact ⟨rfl,by omega,by omega⟩
  | int32 value =>
    cases own
    have low := value.le_toInt
    have high := value.toInt_lt
    exact ⟨rfl,by omega,by omega⟩
  | int64 value =>
    cases own
    have low := value.le_toInt
    have high := value.toInt_lt
    exact ⟨rfl,by omega,by omega⟩
  | uint8 value =>
    cases own
    have high := value.toNat_lt
    exact ⟨rfl,by omega,by omega⟩
  | uint16 value =>
    cases own
    have high := value.toNat_lt
    exact ⟨rfl,by omega,by omega⟩
  | uint32 value =>
    cases own
    have high := value.toNat_lt
    exact ⟨rfl,by omega,by omega⟩
  | uint64 value =>
    cases own
    have high := value.toNat_lt
    exact ⟨rfl,by omega,by omega⟩
  | _ => exact nomatch own

theorem denotes_number {meaning : Option ℚ} (denotes : Denotes runtime.display value meaning)
    (taken : decimalLiteralParts runtime value = some parts) : meaning = some (number parts) := by
  cases denotes with
  | null => exact nomatch taken
  | integer whole =>
    obtain ⟨own,fits⟩ := integer_parts runtime whole
    rw [← Option.some.inj (own.symm.trans taken),wrap_number fits]
  | float32 numeral finite shown =>
    rw [decimalLiteralParts,float64Parts,if_neg (by rw [finite]; exact Bool.false_ne_true)] at taken
    rw [parse_value numeral shown taken]
  | float64 numeral finite shown =>
    rw [decimalLiteralParts,float64Parts,if_neg (by rw [finite]; exact Bool.false_ne_true)] at taken
    rw [parse_value numeral shown taken]
  | string numeral shown => rw [parse_value numeral shown taken]

theorem denotes_null {meaning : Option ℚ} (denotes : Denotes runtime.display value meaning) :
    isNull value = true ↔ meaning = none := by
  cases denotes with
  | null => exact ⟨fun _ => rfl,fun _ => rfl⟩
  | integer whole =>
    cases value with
    | null => exact nomatch whole
    | _ => exact ⟨nofun,nofun⟩
  | float32 => exact ⟨nofun,nofun⟩
  | float64 => exact ⟨nofun,nofun⟩
  | string => exact ⟨nofun,nofun⟩

end Literals

section Rows
variable {runtime : Runtime} {scale : Int8} {value : Int128}

theorem cmp_number {literal : Int128 × Int8} (near : runtime.overflowChecks = true → Near scale value literal) :
    cmpDecimal runtime.overflowChecks value scale literal.1 literal.2 =
    some (compare (rational value scale) (number literal)) := by
  rw [cmpDecimal_eq]
  refine answer_eq_some.mpr ?_
  by_cases checked : runtime.overflowChecks = true
  · exact Or.inr (near checked)
  · exact Or.inl (Bool.not_eq_true _ ▸ checked)

theorem cmp_overflow {literal : Int128 × Int8} (checked : runtime.overflowChecks = true)
    (far : ¬Near scale value literal) :
    cmpDecimal runtime.overflowChecks value scale literal.1 literal.2 = none := by
  rw [cmpDecimal_eq]
  exact if_pos ⟨checked,far⟩

theorem betweenRow_eq {low high : Int128 × Int8} {negated : Bool} :
    betweenRow runtime scale low high negated value =
        some (sqlBetween (some (rational value scale)) (some (number low)) (some (number high)) negated) ↔
      (runtime.overflowChecks = true → Near scale value low ∧ (number low ≤ rational value scale →
        Near scale value high)) := by
  have expanded : ∀ first second : Bool, sqlNegated negated (Kleene.conj (some first) (some second)) =
    some (if negated then !(first && second) else first && second) := by
    intro first second
    cases negated <;> cases first <;> cases second <;> rfl
  by_cases nearLow : runtime.overflowChecks = true → Near scale value low
  · unfold betweenRow
    rw [cmp_number nearLow]
    rcases lt_or_ge (rational value scale) (number low) with below | above
    · have first : holds .ge (rational value scale) (number low) = false := decide_eq_false below.not_ge
      have less : compare (rational value scale) (number low) = .lt := compare_lt_iff_lt.mpr below
      rw [less,sqlBetween,sqlCompare,sqlCompare,expanded,first]
      exact ⟨fun _ checked => ⟨nearLow checked,fun above => absurd above below.not_ge⟩,fun _ => rfl⟩
    · have first : holds .ge (rational value scale) (number low) = true := decide_eq_true above
      have notLess : (compare (rational value scale) (number low) == .lt) = false :=
        beq_eq_false_iff_ne.mpr fun less => above.not_gt (compare_lt_iff_lt.mp less)
      by_cases nearHigh : runtime.overflowChecks = true → Near scale value high
      · have second : (compare (rational value scale) (number high) != .gt) =
          holds .le (rational value scale) (number high) := matches_compare .le _ _
        simp only [Option.bind_eq_bind,Option.bind_some,notLess,cmp_number nearHigh,Option.map_some,second,sqlBetween,
          sqlCompare,expanded,
          first,Bool.true_and,Bool.false_eq_true,if_false]
        exact ⟨fun _ checked => ⟨nearLow checked,fun _ => nearHigh checked⟩,fun _ => trivial⟩
      · push Not at nearHigh
        obtain ⟨checked,far⟩ := nearHigh
        simp only [Option.bind_eq_bind,Option.bind_some,notLess,cmp_overflow checked far,Option.map_none,
          Option.bind_none,Bool.false_eq_true,if_false]
        exact ⟨nofun,fun near => absurd ((near checked).2 above) far⟩
  · push Not at nearLow
    obtain ⟨checked,far⟩ := nearLow
    unfold betweenRow
    rw [cmp_overflow checked far]
    exact ⟨nofun,fun near => absurd (near checked).1 far⟩

theorem inAny_eq {literals : List (Int128 × Int8)}
    (near : runtime.overflowChecks = true → InNear scale value literals) :
    inAny runtime scale value literals = some (decide (rational value scale ∈ literals.map number)) := by
  induction literals with
  | nil => rfl
  | cons literal rest ih =>
    rw [inAny,cmp_number fun checked => (near checked).1,List.map_cons]
    by_cases equal : rational value scale = number literal
    · have same : compare (rational value scale) (number literal) = .eq := compare_eq_iff_eq.mpr equal
      rw [same,decide_eq_true (List.mem_cons.mpr (Or.inl equal))]
      rfl
    · have differ : (compare (rational value scale) (number literal) == .eq) = false :=
        beq_eq_false_iff_ne.mpr fun same => equal (compare_eq_iff_eq.mp same)
      have member : rational value scale ∈ number literal :: rest.map number ↔ rational value scale ∈ rest.map number :=
        List.mem_cons.trans (or_iff_right equal)
      simp only [Option.bind_eq_bind,Option.bind_some,differ,Bool.false_eq_true,if_false,ih fun checked =>
        (near checked).2 equal,member]

theorem inAny_overflow {literals : List (Int128 × Int8)} (checked : runtime.overflowChecks = true)
    (far : ¬InNear scale value literals) :
    inAny runtime scale value literals = none := by
  induction literals with
  | nil => exact absurd trivial far
  | cons literal rest ih =>
    rw [inAny]
    by_cases near : Near scale value literal
    · have later : rational value scale ≠ number literal ∧ ¬InNear scale value rest := by
        by_contra none_
        push Not at none_
        exact far ⟨near,none_⟩
      have differ : (compare (rational value scale) (number literal) == .eq) = false :=
        beq_eq_false_iff_ne.mpr fun same => later.1 (compare_eq_iff_eq.mp same)
      simp only [cmp_number fun _ => near,Option.bind_eq_bind,Option.bind_some,differ,Bool.false_eq_true,if_false,
        ih later.2]
    · rw [cmp_overflow checked near]
      rfl

end Rows

section Lists
variable {runtime : Runtime}

theorem listed {values : List Value} {meanings : List (Option ℚ)}
    (denote : List.Forall₂ (Denotes runtime.display) values meanings) {literals : List (Int128 × Int8)}
    (taken : (values.filter fun value => !isNull value).mapM (decimalLiteralParts runtime) = some literals) :
    (∀ q, some q ∈ meanings ↔ q ∈ literals.map number) ∧ (none ∈ meanings ↔ values.any isNull = true) := by
  induction denote generalizing literals with
  | nil =>
    cases taken
    exact ⟨fun q => ⟨nofun,nofun⟩,nofun,nofun⟩
  | @cons value meaning values meanings denotes _ ih =>
    cases null : isNull value with
    | true =>
      rw [List.filter_cons_of_neg (by rw [null]; exact Bool.false_ne_true)] at taken
      have unknown := (denotes_null denotes).mp null
      obtain ⟨numbers,_⟩ := ih taken
      refine ⟨fun q => ?_,fun _ => ?_,fun _ => List.mem_cons.mpr (Or.inl unknown.symm)⟩
      · rw [← numbers q,unknown,List.mem_cons]
        exact or_iff_right nofun
      · rw [List.any_cons,null,Bool.true_or]
    | false =>
      rw [List.filter_cons_of_pos (by rw [null]; rfl),List.mapM_cons] at taken
      obtain ⟨parts,own,taken⟩ := Option.bind_eq_some_iff.mp taken
      obtain ⟨rest,later,same⟩ := Option.bind_eq_some_iff.mp taken
      cases same
      have here := denotes_number denotes own
      obtain ⟨numbers,nulls⟩ := ih later
      refine ⟨fun q => ?_,?_⟩
      · rw [List.map_cons,List.mem_cons,List.mem_cons,numbers q,here,Option.some.injEq]
      · rw [List.any_cons,null,Bool.false_or,← nulls,here,List.mem_cons]
        exact or_iff_right nofun

private theorem any_eq (x : ℚ) (meanings : List (Option ℚ)) : Kleene.any (meanings.map (sqlCompare .eq (some x))) =
    if some x ∈ meanings then some true else if none ∈ meanings then none else some false := by
  have equal : some true ∈ meanings.map (sqlCompare .eq (some x)) ↔ some x ∈ meanings := by
    rw [List.mem_map]
    constructor
    · rintro ⟨meaning,member,result⟩
      cases meaning with
      | none => exact nomatch result
      | some q =>
        rw [of_decide_eq_true (Option.some.inj result)]
        exact member
    · exact fun member => ⟨some x,member,congrArg some (decide_eq_true rfl)⟩
  have unknown : none ∈ meanings.map (sqlCompare .eq (some x)) ↔ none ∈ meanings := by
    rw [List.mem_map]
    constructor
    · rintro ⟨meaning,member,result⟩
      cases meaning with
      | none => exact member
      | some q => exact nomatch result
    · exact fun member => ⟨none,member,rfl⟩
  by_cases there : some x ∈ meanings
  · rw [if_pos there,Kleene.any_true (equal.mpr there)]
  · rw [if_neg there,Kleene.any_unknown (equal.not.mpr there),if_congr unknown rfl rfl]

theorem inRow_eq {scale : Int8} {value : Int128} {values : List Value} {meanings : List (Option ℚ)}
    (denote : List.Forall₂ (Denotes runtime.display) values meanings) {literals : List (Int128 × Int8)}
    (taken : (values.filter fun value => !isNull value).mapM (decimalLiteralParts runtime) = some literals)
    {negated : Bool} :
    inRow runtime scale literals (values.any isNull) negated value =
    some (sqlIn (some (rational value scale)) meanings negated) ↔
      (runtime.overflowChecks = true → InNear scale value literals) := by
  obtain ⟨numbers,nulls⟩ := listed denote taken
  by_cases near : runtime.overflowChecks = true → InNear scale value literals
  · refine ⟨fun _ => near,fun _ => ?_⟩
    rw [inRow,inAny_eq near,Option.map_some,sqlIn,any_eq,if_congr (numbers _) rfl rfl,if_congr nulls rfl rfl]
    by_cases there : rational value scale ∈ literals.map number
    · rw [if_pos (decide_eq_true there),if_pos there]
      cases negated <;> rfl
    · rw [if_neg (by rw [decide_eq_false there]; exact Bool.false_ne_true),if_neg there]
      cases values.any isNull <;> cases negated <;> rfl
  · push Not at near
    obtain ⟨checked,far⟩ := near
    rw [inRow,inAny_overflow checked far]
    exact ⟨nofun,fun near => absurd (near checked) far⟩

theorem sqlIn_null (meanings : List (Option ℚ)) (negated : Bool) :
    sqlIn none meanings negated = none ↔ meanings ≠ [] := by
  cases meanings with
  | nil => cases negated <;> exact ⟨nofun,fun some_ => absurd rfl some_⟩
  | cons first rest =>
    have never : some true ∉ (first :: rest).map (sqlCompare .eq none) := by
      rw [List.mem_map]
      rintro ⟨meaning,_,result⟩
      exact nomatch result
    have unknown : none ∈ (first :: rest).map (sqlCompare .eq none) := List.mem_map.mpr ⟨first,List.mem_cons_self,rfl⟩
    refine ⟨fun _ => List.cons_ne_nil _ _,fun _ => ?_⟩
    rw [sqlIn,Kleene.any_unknown never,if_pos unknown]
    cases negated <;> rfl

private theorem between_literals {scales : Option (Map String Int8)} {batch : RecordBatch} {column : String}
    {scale : Int8} {rows : List (Option Int128)}
    (found : decimalColumn runtime scales batch column = some (scale, rows)) {negated : Bool} {low high : Value}
    {lowMeaning highMeaning : Option ℚ} (denotesLow : Denotes runtime.display low lowMeaning)
    (denotesHigh : Denotes runtime.display high highMeaning) :
    decimalBetweenMask runtime scales batch column (.literal low) (.literal high) negated =
        .ok (some (rows.map fun row => sqlBetween (row.map fun value => rational value scale) lowMeaning highMeaning
          negated)) ↔
      ∃ lowParts highParts, decimalLiteralParts runtime low = some lowParts ∧ decimalLiteralParts runtime high =
      some highParts ∧
        ∀ value, some value ∈ rows → runtime.overflowChecks = true →
          Near scale value lowParts ∧ (number lowParts ≤ rational value scale → Near scale value highParts) := by
  unfold decimalBetweenMask
  rw [found]
  dsimp only
  cases takenLow : decimalLiteralParts runtime low with
  | none => exact ⟨nofun,fun ⟨_,_,no,_⟩ => nomatch no⟩
  | some lowParts =>
    cases takenHigh : decimalLiteralParts runtime high with
    | none => exact ⟨nofun,fun ⟨_,_,_,no,_⟩ => nomatch no⟩
    | some highParts =>
      have meaningLow := denotes_number denotesLow takenLow
      have meaningHigh := denotes_number denotesHigh takenHigh
      have shape : (rows.map fun row => sqlBetween (row.map fun value => rational value scale) lowMeaning highMeaning
        negated) =
          rows.map fun row => row.bind fun value => sqlBetween (some (rational value scale)) (some (number lowParts))
            (some (number highParts)) negated := by
        rw [meaningLow,meaningHigh]
        refine List.map_congr_left fun row _ => ?_
        cases row with
        | none => cases negated <;> rfl
        | some value => rfl
      rw [shape,buildMask_eq]
      constructor
      · exact fun each => ⟨lowParts,highParts,rfl,rfl,fun value member => betweenRow_eq.mp (each value member)⟩
      · rintro ⟨_,_,sameLow,sameHigh,each⟩ value member
        cases sameLow
        cases sameHigh
        exact betweenRow_eq.mpr (each value member)

end Lists

/-- The masks of BETWEEN and of IN are the expansions of SQL exactly where both bounds are literals
that are taken, where all literals of the list are, where an empty list meets no NULL in the column,
and where no comparison overflows. -/
theorem decimal_lanes_exact_iff (runtime : Runtime) (scales : Option (Map String Int8)) (batch : RecordBatch)
    (column : String) (scale : Int8) (rows : List (Option Int128))
    (found : decimalColumn runtime scales batch column = some (scale,rows)) (negated : Bool) :
    (∀ low high lowMeaning highMeaning, BoundDenotes runtime.display low lowMeaning →
      BoundDenotes runtime.display high highMeaning →
      (decimalBetweenMask runtime scales batch column low high negated =
          .ok (some (rows.map fun row => sqlBetween (row.map fun value => rational value scale) lowMeaning highMeaning
            negated)) ↔
        ∃ lowValue highValue lowParts highParts, low = .literal lowValue ∧ high = .literal highValue ∧
          decimalLiteralParts runtime lowValue = some lowParts ∧ decimalLiteralParts runtime highValue =
          some highParts ∧
          ∀ value, some value ∈ rows → runtime.overflowChecks = true →
            Near scale value lowParts ∧ (number lowParts ≤ rational value scale → Near scale value highParts))) ∧
    ∀ values meanings, List.Forall₂ (Denotes runtime.display) values meanings →
      (decimalInMask runtime scales batch column values negated =
          .ok (some (rows.map fun row => sqlIn (row.map fun value => rational value scale) meanings negated)) ↔
        ∃ literals, (values.filter fun value => !isNull value).mapM (decimalLiteralParts runtime) = some literals ∧
          (values = [] → none ∉ rows) ∧ ∀ value, some value ∈ rows → runtime.overflowChecks = true →
          InNear scale value literals) := by
  constructor
  · intro low high lowMeaning highMeaning denotesLow denotesHigh
    -- a bound under an operator leaves the lane
    have away {first second : SqlExpr} (operator : (∀ value, first ≠ .literal value) ∨
      ∀ value, second ≠ .literal value) :
        decimalBetweenMask runtime scales batch column first second negated = .ok none := by
      unfold decimalBetweenMask
      rw [found]
      cases first <;> cases second <;> first | rfl | simp at operator
    cases denotesLow with
    | minus =>
      rw [away (.inl fun _ => by simp)]
      exact ⟨by simp, by rintro ⟨_, _, _, _, same, _⟩; cases same⟩
    | literal denotesLow =>
      cases denotesHigh with
      | minus =>
        rw [away (.inr fun _ => by simp)]
        exact ⟨by simp, by rintro ⟨_, _, _, _, _, same, _⟩; cases same⟩
      | literal denotesHigh =>
        rw [between_literals found denotesLow denotesHigh]
        constructor
        · rintro ⟨lowParts, highParts, all⟩
          exact ⟨_, _, lowParts, highParts, rfl, rfl, all⟩
        · rintro ⟨_, _, lowParts, highParts, sameLow, sameHigh, all⟩
          cases sameLow
          cases sameHigh
          exact ⟨lowParts, highParts, all⟩
  · intro values meanings denote
    unfold decimalInMask
    rw [found]
    dsimp only
    cases taken : (values.filter fun value => !isNull value).mapM (decimalLiteralParts runtime) with
    | none => exact ⟨nofun,fun ⟨_,no,_⟩ => nomatch no⟩
    | some literals =>
      have empty : values = [] ↔ meanings = [] := by
        rw [← List.length_eq_zero_iff,← List.length_eq_zero_iff,denote.length_eq]
      dsimp only
      by_cases unmet : values = [] ∧ none ∈ rows
      · -- the builder gives NULL where the empty disjunction is false
        refine ⟨fun built => ?_,fun ⟨_,_,apart,_⟩ => absurd unmet.2 (apart unmet.1)⟩
        exfalso
        have unknown : ∀ mask, buildMask (inRow runtime scale literals (values.any isNull) negated) rows =
          .ok (some mask) →
            rows.map (maskRow (inRow runtime scale literals (values.any isNull) negated)) = mask.map some := by
          intro mask made
          unfold buildMask at made
          split at made
          · rename_i own ran
            cases made
            exact mapM_some ran
          · exact nomatch made
        obtain ⟨index,inside,null⟩ := List.getElem_of_mem unmet.2
        have here := congrArg (fun list => list[index]?) (unknown _ built)
        simp only [List.getElem?_map,List.getElem?_eq_getElem inside,Option.map_some,null,maskRow,
          Option.map_none] at here
        have defined := Option.some.inj (Option.some.inj here)
        exact (sqlIn_null meanings negated).mp defined.symm (empty.mp unmet.1)
      · have shape : (rows.map fun row => sqlIn (row.map fun value => rational value scale) meanings negated) =
            rows.map fun row => row.bind fun value => sqlIn (some (rational value scale)) meanings negated := by
          refine List.map_congr_left fun row member => ?_
          cases row with
          | none =>
            exact (sqlIn_null meanings negated).mpr fun none_ => unmet ⟨empty.mpr none_,member⟩
          | some value => rfl
        rw [shape,buildMask_eq]
        constructor
        · exact fun each => ⟨literals,rfl,fun none_ member => unmet ⟨none_,member⟩,
            fun value member => (inRow_eq denote taken).mp (each value member)⟩
        · rintro ⟨_,same,_,each⟩ value member
          cases same
          exact (inRow_eq denote taken).mpr (each value member)

private theorem seven : Denotes checkedRuntime.display (.int64 7) (some (7 : Int)) := .integer rfl

theorem prices_filtered :
    decimalBetweenMask checkedRuntime (some (.insert "d" 2 ∅)) prices "d" (.literal (.string "01.50"))
      (.literal (.int64 7)) true =
      .ok (some ([some (.wrap 150),none].map fun row => sqlBetween (row.map fun value =>
        rational value 2) (some padded.value) (some (7 : Int)) true)) ∧
    decimalInMask checkedRuntime (some (.insert "d" 2 ∅)) prices "d" [.int64 7,.null] true =
      .ok (some ([some (.wrap 150),none].map fun row => sqlIn (row.map fun value => rational value 2) [some (7 : Int),
        none] true)) := by
  have lanes := decimal_lanes_exact_iff checkedRuntime (some (.insert "d" 2 ∅)) prices "d" 2 [some (.wrap 150),
    none] (by decide) true
  have near : ∀ value, some value ∈ [some (Int128.wrap 150),none] → value = .wrap 150 := by
    intro value member
    simpa using member
  constructor
  · refine (lanes.1 _ _ _ _ (.literal (.string padded (by decide))) (.literal seven)).mpr
      ⟨.string "01.50", .int64 7, (.wrap 150, 2), (.wrap 7, 0), rfl, rfl, by decide, by decide, ?_⟩
    intro value member _
    rw [near value member]
    exact ⟨Or.inr (Or.inr (by decide)),fun _ => Or.inr (Or.inr (by decide))⟩
  · refine (lanes.2 [.int64 7,.null] [some (7 : Int),none] (.cons seven (.cons .null .nil))).mpr ⟨[(.wrap 7,0)],
      by decide,nofun,?_⟩
    intro value member _
    rw [near value member]
    exact ⟨Or.inr (Or.inr (by decide)),fun _ => trivial⟩

/-- `d BETWEEN NULL AND 7` is an error, where the expansion is unknown or false. -/
theorem between_null_rejected :
    decimalBetweenMask checkedRuntime (some (.insert "d" 2 ∅)) prices "d" (.literal .null) (.literal (.int64 7)) false =
        .error (errInput "DECIMAL column 'd' can only be compared with numeric literals") ∧
      ¬∀ low high lowMeaning highMeaning, BoundDenotes checkedRuntime.display low lowMeaning →
      BoundDenotes checkedRuntime.display high highMeaning →
        decimalBetweenMask checkedRuntime (some (.insert "d" 2 ∅)) prices "d" low high false =
          .ok (some ([some (.wrap 150),none].map fun row => sqlBetween (row.map fun value =>
            rational value 2) lowMeaning highMeaning false)) := by
  have rejected : decimalBetweenMask checkedRuntime (some (.insert "d" 2 ∅)) prices "d" (.literal .null)
    (.literal (.int64 7)) false =
      .error (errInput "DECIMAL column 'd' can only be compared with numeric literals") := rfl
  refine ⟨rejected,fun exact_ => ?_⟩
  have built := exact_ _ _ _ _ (.literal .null) (.literal seven)
  rw [rejected] at built
  exact nomatch built

end ApexBase.Query.Decimal
