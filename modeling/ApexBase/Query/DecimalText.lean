import ApexBase.Query.DecimalOrder
import ApexBase.Library.Traverse
import Mathlib.Data.List.TakeWhile
import Mathlib.Tactic.NormNum

/-! A literal text is taken for exactly the number it writes, and a comparison with it keeps the
rows whose number compares so. -/
namespace ApexBase.Query.Decimal
open Data Library Library.Assoc Library.Decimal
open Library.Bytewise (bytesLen bytesLen_append)
open Defaults (BinaryOperator)

private theorem digit_plain {c : Char} (digit : c.isDigit = true) : c.utf8Size = 1 ∧ c ≠ '.' ∧ c ≠ '-' ∧ c ≠ '+' := by
  rw [Char.isDigit,Bool.and_eq_true,decide_eq_true_iff,decide_eq_true_iff] at digit
  refine ⟨?_,?_,?_,?_⟩
  · rw [Char.utf8Size,if_pos (UInt32.le_trans digit.2 (by decide))]
  all_goals
    rintro rfl
    exact absurd digit (by decide)

theorem bytesLen_digits {digits : List Char} (each : ∀ c ∈ digits, c.isDigit = true) :
    bytesLen digits = digits.length := by
  induction digits with
  | nil => rfl
  | cons c rest ih =>
    have later := ih fun c member => each c (List.mem_cons_of_mem _ member)
    unfold bytesLen at later ⊢
    rw [List.map_cons,List.sum_cons,later,(digit_plain (each c List.mem_cons_self)).1,List.length_cons,Nat.add_comm]

section Body
variable (numeral : Numeral)

private theorem whole_digits : ∀ c ∈ numeral.whole, c.isDigit = true := fun c member =>
  numeral.digits c (List.mem_append_left _ member)

private theorem fraction_digits : ∀ c ∈ numeral.fraction.getD [], c.isDigit = true := fun c member =>
  numeral.digits c (List.mem_append_right _ member)

private theorem splitPoint_body : splitPoint numeral.body = (numeral.whole,numeral.fraction.getD []) := by
  have plain : ∀ c ∈ numeral.whole, (c != '.') = true :=
    fun c member => bne_iff_ne.mpr (digit_plain (whole_digits numeral c member)).2.1
  unfold splitPoint Numeral.body
  cases numeral.fraction with
  | none =>
    rw [Option.map_none,Option.getD_none,List.append_nil,List.takeWhile_eq_self_iff.mpr plain,
      List.dropWhile_eq_nil_iff.mpr plain]
    rfl
  | some digits =>
    rw [Option.map_some,Option.getD_some,List.takeWhile_append_of_pos plain,List.dropWhile_append_of_pos plain]
    simp

private theorem bytesLen_body : bytesLen numeral.body = numeral.body.length := by
  have whole := bytesLen_digits (whole_digits numeral)
  have behind : bytesLen ((numeral.fraction.map ('.' :: ·)).getD []) =
    ((numeral.fraction.map ('.' :: ·)).getD []).length := by
    have digits := bytesLen_digits (fraction_digits numeral)
    cases fraction : numeral.fraction with
    | none => rfl
    | some own =>
      rw [fraction] at digits
      have point := bytesLen_append ['.'] own
      rw [List.singleton_append] at point
      rw [Option.map_some,Option.getD_some,point,List.length_cons,Nat.add_comm]
      exact congrArg (· + 1) digits
  unfold Numeral.body
  rw [bytesLen_append,whole,behind,List.length_append]

private theorem body_cons : ∃ first rest, numeral.body = first :: rest ∧ first ≠ '-' ∧ first ≠ '+' := by
  have written := numeral.written
  have digits := whole_digits numeral
  unfold Numeral.body
  cases whole : numeral.whole with
  | cons c rest =>
    rw [whole] at digits
    have plain := digit_plain (digits c List.mem_cons_self)
    exact ⟨c,_,rfl,plain.2.2⟩
  | nil =>
    cases fraction : numeral.fraction with
    | none =>
      rw [whole,fraction] at written
      exact absurd rfl written
    | some own => exact ⟨'.',own,rfl,by decide,by decide⟩

end Body

private theorem wrap_nat {total : Nat} (small : total < 2^127) : (Int128.wrap total).value = total :=
  Int128.wrap_of_fits ⟨by omega,by omega⟩

private theorem wrap_neg {total : Nat} (small : total < 2^127) : (Int128.wrap total).neg.value = -total := by
  have fits : -2^127 ≤ -(total : Int) ∧ -(total : Int) < 2^127 := ⟨by omega,by omega⟩
  have negated := Int128.wrap_of_fits fits
  rw [Int128.wrap_value] at negated
  rw [Int128.neg_value,wrap_nat small,negated]

theorem checked_nat (total : Nat) : Int128.checked total = if total ≤ 2^127 - 1 then some (.wrap total) else none := by
  unfold Int128.checked
  split
  · rename_i fits
    have small : total < 2^127 := by omega
    rw [if_pos (by omega)]
    have same : (⟨total,fits⟩ : Int128) = .wrap total := Int128.ext (wrap_nat small).symm
    rw [same]
  · rename_i large
    rw [if_neg (by omega)]

private theorem takeDigit_eq (total : Nat) (c : Char) (within : total ≤ 2^127 - 1) :
    takeDigit (.wrap total) c = if total * 10 + digitValue c ≤ 2^127 - 1 then
      some (.wrap (total * 10 + digitValue c : Nat)) else none := by
  have product : (Int128.wrap total).value * 10 = (total * 10 : Nat) := by
    rw [wrap_nat (Nat.lt_of_le_pred (by decide) within),Nat.cast_mul,Nat.cast_ofNat]
  unfold takeDigit
  rw [Int128.checkedMul,product,checked_nat]
  by_cases fits : total * 10 ≤ 2^127 - 1
  · have sum : (Int128.wrap (total * 10 : Nat)).value + (c.toNat - 48 : Nat) = (total * 10 + digitValue c : Nat) := by
      rw [wrap_nat (Nat.lt_of_le_pred (by decide) fits),Nat.cast_add,digitValue]
    rw [if_pos fits,Option.bind_eq_bind,Option.bind_some,Int128.checkedAdd,sum,checked_nat]
  · rw [if_neg fits,if_neg fun sum => fits ((Nat.le_add_right _ _).trans sum)]
    rfl

theorem foldlM_takeDigit (digits : List Char) :
    digits.foldlM takeDigit (.wrap 0) = if natOf digits ≤ 2^127 - 1 then some (.wrap (natOf digits : Nat))
      else none := by
  have folded := foldlM_checked (fun total => Int128.wrap total) takeDigit_eq digits 0 (Nat.zero_le _)
  rw [Nat.zero_mul,Nat.zero_add] at folded
  exact folded

def partsOf (numeral : Numeral) : Int128 × Int8 :=
  (if numeral.sign = .minus then (Int128.wrap numeral.magnitude).neg else .wrap numeral.magnitude,
    Int8.ofNat numeral.scale)

def Taken (numeral : Numeral) : Prop := numeral.body.length ≤ 40 ∧ numeral.magnitude ≤ 2^127 - 1

instance (numeral : Numeral) : Decidable (Taken numeral) := inferInstanceAs (Decidable (_ ∧ _))

theorem scale_le_length (numeral : Numeral) : numeral.scale ≤ numeral.body.length := by
  unfold Numeral.scale Numeral.body
  rw [List.length_append]
  cases numeral.fraction with
  | none => exact Nat.zero_le _
  | some own =>
    rw [Option.map_some,Option.getD_some,Option.getD_some,List.length_cons]
    omega

section Parse
variable {text : List Char}

private theorem parse_unsigned {first : Char} {rest : List Char} (trimmed : Fts.trim text = first :: rest)
    (numeral : Numeral) (body : (if first == '-' || first == '+' then rest else first :: rest) = numeral.body)
    (sign : first = '-' ↔ numeral.sign = .minus) :
    parseDecimalText text = if Taken numeral then some (partsOf numeral) else none := by
  obtain ⟨start,tail,shape,_⟩ := body_cons numeral
  have nonempty : numeral.body.isEmpty = false := by rw [shape]; rfl
  have written : (numeral.whole.isEmpty && (numeral.fraction.getD []).isEmpty) = false := by
    rw [← Bool.not_eq_true,Bool.and_eq_true,List.isEmpty_iff,List.isEmpty_iff]
    rintro ⟨whole,fraction⟩
    exact numeral.written (by rw [whole,fraction]; rfl)
  have wholeDigits : numeral.whole.all Char.isDigit = true := List.all_eq_true.mpr (whole_digits numeral)
  have fractionDigits : (numeral.fraction.getD []).all Char.isDigit = true :=
    List.all_eq_true.mpr (fraction_digits numeral)
  have scale : bytesLen (numeral.fraction.getD []) = numeral.scale := bytesLen_digits (fraction_digits numeral)
  have shorter := scale_le_length numeral
  unfold parseDecimalText
  rw [trimmed]
  simp only [body,nonempty,bytesLen_body,splitPoint_body,written,wholeDigits,fractionDigits,scale,Bool.false_or,
    Bool.not_true,
    decide_eq_true_eq,foldlM_takeDigit]
  by_cases long : 40 < numeral.body.length
  · rw [if_pos long,if_neg fun taken => Nat.not_lt.mpr taken.1 long]
  · have near : ¬127 < numeral.scale := by omega
    rw [if_neg long]
    simp only [Bool.false_eq_true,if_false,near]
    by_cases large : natOf (numeral.whole ++ numeral.fraction.getD []) ≤ 2^127 - 1
    · rw [if_pos large,if_pos ⟨Nat.not_lt.mp long,large⟩]
      by_cases minus : first = '-'
      · simp [partsOf,Numeral.magnitude,minus,sign.mp minus]
      · simp [partsOf,Numeral.magnitude,minus,mt sign.mpr minus]
    · rw [if_neg large,if_neg fun taken => large taken.2]
      rfl

theorem parse_numeral (numeral : Numeral) (shown : Fts.trim text = numeral.text) :
    parseDecimalText text = if Taken numeral then some (partsOf numeral) else none := by
  obtain ⟨start,tail,shape,noMinus,noPlus⟩ := body_cons numeral
  cases sign : numeral.sign with
  | bare =>
    rw [Numeral.text,sign,Sign.text,List.nil_append,shape] at shown
    refine parse_unsigned shown numeral ?_ ⟨fun minus => absurd minus noMinus,fun minus => ?_⟩
    · rw [if_neg (by simp [noMinus,noPlus]),shape]
    · rw [sign] at minus
      exact nomatch minus
  | plus =>
    rw [Numeral.text,sign] at shown
    refine parse_unsigned shown numeral rfl ⟨fun minus => absurd minus (by decide),fun minus => ?_⟩
    rw [sign] at minus
    exact nomatch minus
  | minus =>
    rw [Numeral.text,sign] at shown
    exact parse_unsigned shown numeral rfl ⟨fun _ => sign,fun _ => rfl⟩

private theorem split_point (unsigned : List Char) :
    ∃ whole fraction, splitPoint unsigned = (whole,Option.getD fraction []) ∧
    unsigned = whole ++ (fraction.map ('.' :: ·)).getD [] := by
  have split := List.takeWhile_append_dropWhile (p := (· != '.')) (l := unsigned)
  unfold splitPoint
  cases behind : unsigned.dropWhile (· != '.') with
  | nil =>
    rw [behind] at split
    exact ⟨_,none,rfl,split.symm⟩
  | cons point own =>
    have isPoint : point = '.' := by
      have stops := List.head_dropWhile_not (p := (· != '.')) (l := unsigned)
        (by rw [behind]; exact List.cons_ne_nil _ _)
      simp only [behind,List.head_cons,bne_eq_false_iff_eq] at stops
      exact stops
    rw [behind,isPoint] at split
    exact ⟨_,some own,rfl,split.symm⟩

private theorem body_of_split {unsigned : List Char} (sign : Sign)
    (written : ¬((splitPoint unsigned).1 = [] ∧ (splitPoint unsigned).2 = []))
    (digits : ∀ c ∈ (splitPoint unsigned).1 ++ (splitPoint unsigned).2, c.isDigit = true) :
    ∃ numeral : Numeral, numeral.sign = sign ∧ numeral.body = unsigned := by
  obtain ⟨whole,fraction,halves,joined⟩ := split_point unsigned
  rw [halves] at written digits
  exact ⟨⟨sign,whole,fraction,digits,fun empty => written (List.append_eq_nil_iff.mp empty)⟩,rfl,joined.symm⟩

theorem numeral_of_parse {parts : Int128 × Int8} (parsed : parseDecimalText text = some parts) :
    ∃ numeral : Numeral, Fts.trim text = numeral.text := by
  unfold parseDecimalText at parsed
  cases trimmed : Fts.trim text with
  | nil =>
    rw [trimmed] at parsed
    exact nomatch parsed
  | cons first rest =>
    rw [trimmed] at parsed
    dsimp only at parsed
    generalize seen : (if first == '-' || first == '+' then rest else first :: rest) = unsigned at parsed
    split at parsed
    · exact nomatch parsed
    · split at parsed
      · exact nomatch parsed
      · rename_i written
        split at parsed
        · exact nomatch parsed
        · rename_i digits
          rw [Bool.or_eq_true,not_or,Bool.not_eq_true',Bool.not_eq_true',Bool.not_eq_false,Bool.not_eq_false] at digits
          rw [Bool.and_eq_true,List.isEmpty_iff,List.isEmpty_iff] at written
          have each := List.forall_mem_append.mpr ⟨List.all_eq_true.mp digits.1,List.all_eq_true.mp digits.2⟩
          by_cases minus : first = '-'
          · rw [if_pos (by simp [minus])] at seen
            obtain ⟨numeral,sign,body⟩ := body_of_split .minus written each
            exact ⟨numeral,by rw [Numeral.text,sign,body,minus,seen]; rfl⟩
          · by_cases plus : first = '+'
            · rw [if_pos (by simp [plus])] at seen
              obtain ⟨numeral,sign,body⟩ := body_of_split .plus written each
              exact ⟨numeral,by rw [Numeral.text,sign,body,plus,seen]; rfl⟩
            · rw [if_neg (by simp [minus,plus])] at seen
              obtain ⟨numeral,sign,body⟩ := body_of_split .bare written each
              exact ⟨numeral,by rw [Numeral.text,sign,body,← seen]; rfl⟩

end Parse

section Parts
variable {numeral : Numeral}

theorem partsOf_scale (taken : Taken numeral) : (partsOf numeral).2.toInt = numeral.scale := by
  have short := (scale_le_length numeral).trans taken.1
  change (Int8.ofNat numeral.scale).toInt = numeral.scale
  exact Int8.toInt_ofNat_of_lt (by omega)

theorem partsOf_value (taken : Taken numeral) : rational (partsOf numeral).1 (partsOf numeral).2 = numeral.value := by
  have small : numeral.magnitude < 2^127 := Nat.lt_of_le_pred (by decide) taken.2
  rw [rational,partsOf_scale taken,Numeral.value_eq]
  congr 1
  unfold partsOf Sign.apply
  by_cases minus : numeral.sign = .minus
  · rw [if_pos minus,if_pos minus,wrap_neg small]
  · rw [if_neg minus,if_neg minus,wrap_nat small]

end Parts

theorem buildMask_eq {row : Int128 → Option (Option Bool)} {result : Int128 → Option Bool}
    {values : List (Option Int128)} :
    buildMask row values = .ok (some (values.map fun value => value.bind result)) ↔
      ∀ value, some value ∈ values → row value = some (result value) := by
  have built : buildMask row values = .ok (some (values.map fun value => value.bind result)) ↔
      values.mapM (maskRow row) = some (values.map fun value => value.bind result) := by
    unfold buildMask
    cases values.mapM (maskRow row) with
    | none => exact ⟨nofun,nofun⟩
    | some own => simp only [Except.ok.injEq]
  rw [built,mapM_eq_map]
  constructor
  · exact fun each value member => each (some value) member
  · intro each value member
    cases value with
    | none => rfl
    | some own => exact each own member

def holds (op : BinaryOperator) (a b : ℚ) : Bool :=
  match op with
  | .eq => decide (a = b)
  | .notEq => decide (a ≠ b)
  | .lt => decide (a < b)
  | .le => decide (a ≤ b)
  | .gt => decide (b < a)
  | .ge => decide (b ≤ a)
  | _ => false

def comparison : BinaryOperator → Bool
  | .eq | .notEq | .lt | .le | .gt | .ge => true
  | _ => false

theorem matches_compare (op : BinaryOperator) (a b : ℚ) : cmpDecimalMatches op (compare a b) = holds op a b := by
  rcases lt_trichotomy a b with less | equal | greater
  · rw [compare_lt_iff_lt.mpr less]
    cases op <;> simp [cmpDecimalMatches,holds,less,less.le,less.ne,less.not_gt,less.not_ge]
  · rw [compare_eq_iff_eq.mpr equal]
    cases op <;> simp [cmpDecimalMatches,holds,equal]
  · rw [compare_gt_iff_gt.mpr greater]
    cases op <;> simp [cmpDecimalMatches,holds,greater,greater.le,greater.ne',greater.not_gt,greater.not_ge]

theorem flip_holds {op flipped : BinaryOperator} (flip : flipComparison op = some flipped) (a b : ℚ) :
    holds flipped a b = holds op b a := by
  cases op <;> cases flip <;> first | rfl | simp [holds,eq_comm]

theorem flip_comparison {op : BinaryOperator} (compares : comparison op = true) :
    ∃ flipped, flipComparison op = some flipped := by
  cases op <;> first | exact ⟨_,rfl⟩ | exact nomatch compares

def compared (test : ℚ → Bool) (scale : Int8) (values : List (Option Int128)) : BooleanArray :=
  values.map fun value => value.map fun own => test (rational own scale)

section Masks
variable {runtime : Runtime} {scales : Option (Map String Int8)} {batch : RecordBatch} {column : String} {scale : Int8}
  {values : List (Option Int128)}

theorem decimalLiteralMask_eq (found : decimalColumn runtime scales batch column = some (scale,values))
    {literal : Value} {parts : Int128 × Int8} (taken : decimalLiteralParts runtime literal = some parts)
    {op effective : BinaryOperator} {reversed : Bool}
    (applied : (if reversed then flipComparison op else some op) = some effective)
    (near : runtime.overflowChecks = true → (scale.toInt - parts.2.toInt).natAbs ≤ 127) :
    decimalLiteralMask runtime scales batch column literal reversed op =
      .ok (some (compared (fun own => holds effective own (rational parts.1 parts.2)) scale values)) := by
  have rows : compared (fun own => holds effective own (rational parts.1 parts.2)) scale values =
      values.map fun value => value.bind fun own =>
        some (holds effective (rational own scale) (rational parts.1 parts.2)) :=
    List.map_congr_left fun value _ => Option.map_eq_bind
  unfold decimalLiteralMask
  rw [found,applied,taken,rows]
  refine buildMask_eq.mpr fun value member => ?_
  have exact_ : cmpDecimal runtime.overflowChecks value scale parts.1 parts.2 =
    some (compare (rational value scale) (rational parts.1 parts.2)) := by
    rw [cmpDecimal_eq,answer_eq_some]
    by_cases checked : runtime.overflowChecks = true
    · exact Or.inr (Or.inr (Or.inr (near checked)))
    · exact Or.inl (Bool.not_eq_true _ ▸ checked)
  rw [exact_,Option.map_some,matches_compare]

theorem decimalComparisonMask_text (found : decimalColumn runtime scales batch column = some (scale,values))
    {text : String} {numeral : Numeral} (shown : Fts.trim text.toList = numeral.text) (taken : Taken numeral)
    (near : runtime.overflowChecks = true → (numeral.scale : Int) ≤ scale.toInt + 127) {op : BinaryOperator}
    (compares : comparison op = true) :
    decimalComparisonMask runtime scales batch (.column column) op (.literal (.string text)) =
        .ok (some (compared (fun own => holds op own numeral.value) scale values)) ∧
      decimalComparisonMask runtime scales batch (.literal (.string text)) op (.column column) =
        .ok (some (compared (fun own => holds op numeral.value own) scale values)) := by
  have parts : decimalLiteralParts runtime (.string text) = some (partsOf numeral) := by
    have parsed := parse_numeral numeral shown
    rw [if_pos taken] at parsed
    exact parsed
  have narrow : runtime.overflowChecks = true → (scale.toInt - (partsOf numeral).2.toInt).natAbs ≤ 127 := by
    intro checked
    have lower := near checked
    have upper := scale.toInt_lt
    rw [partsOf_scale taken]
    omega
  obtain ⟨flipped,flip⟩ := flip_comparison compares
  have direct : (if false then flipComparison op else some op) = some op := if_neg Bool.false_ne_true
  have mirrored : (if true then flipComparison op else some op) = some flipped := (if_pos rfl).trans flip
  have right := decimalLiteralMask_eq found parts direct narrow
  have left := decimalLiteralMask_eq found parts mirrored narrow
  rw [partsOf_value taken] at right left
  constructor
  · exact right
  · refine left.trans ?_
    simp only [flip_holds flip]

end Masks

/-- A text is taken for the number of its numeral, with at most 40 characters behind the sign, and a comparison
with it has a row for every value, by that number alone. -/
theorem decimal_literals_exact (runtime : Runtime) (scales : Option (Map String Int8)) (batch : RecordBatch) :
    (∀ text value scale, parseDecimalText text = some (value,scale) →
      ∃ numeral : Numeral, Fts.trim text = numeral.text ∧ numeral.value = rational value scale ∧
      numeral.scale = scale.toInt) ∧
    (∀ text (numeral : Numeral), Fts.trim text = numeral.text →
      ((parseDecimalText text).isSome = true ↔ numeral.body.length ≤ 40 ∧ numeral.magnitude ≤ 2^127 - 1)) ∧
    ∀ column scale values, decimalColumn runtime scales batch column = some (scale,values) →
      ∀ op, comparison op = true → ∀ (text : String) (numeral : Numeral), Fts.trim text.toList = numeral.text →
      Taken numeral →
        (runtime.overflowChecks = true → (numeral.scale : Int) ≤ scale.toInt + 127) →
        (decimalComparisonMask runtime scales batch (.column column) op (.literal (.string text)) =
            .ok (some (compared (fun own => holds op own numeral.value) scale values)) ∧
          decimalComparisonMask runtime scales batch (.literal (.string text)) op (.column column) =
            .ok (some (compared (fun own => holds op numeral.value own) scale values))) ∧
        ∀ (other : String) (same : Numeral), Fts.trim other.toList = same.text → Taken same →
        same.value = numeral.value →
          (runtime.overflowChecks = true → (same.scale : Int) ≤ scale.toInt + 127) →
          decimalComparisonMask runtime scales batch (.column column) op (.literal (.string other)) =
              decimalComparisonMask runtime scales batch (.column column) op (.literal (.string text)) ∧
            decimalComparisonMask runtime scales batch (.literal (.string other)) op (.column column) =
              decimalComparisonMask runtime scales batch (.literal (.string text)) op (.column column) := by
  refine ⟨fun text value scale parsed => ?_,fun text numeral shown => ?_,?_⟩
  · obtain ⟨numeral,shown⟩ := numeral_of_parse parsed
    have own := parse_numeral numeral shown
    rw [parsed] at own
    split at own
    · rename_i taken
      have same := Option.some.inj own
      have value_ := partsOf_value taken
      have scale_ := partsOf_scale taken
      rw [← same] at value_ scale_
      exact ⟨numeral,shown,value_.symm,scale_.symm⟩
    · exact nomatch own
  · rw [parse_numeral numeral shown]
    by_cases taken : Taken numeral
    · rw [if_pos taken]
      exact ⟨fun _ => taken,fun _ => rfl⟩
    · rw [if_neg taken]
      exact ⟨nofun,fun both => absurd both taken⟩
  · intro column scale values found op compares text numeral shown taken near
    have masks := decimalComparisonMask_text found shown taken near compares
    refine ⟨masks,fun other same shownOther takenOther equal nearOther => ?_⟩
    have others := decimalComparisonMask_text found shownOther takenOther nearOther compares
    rw [equal] at others
    exact ⟨others.1.trans masks.1.symm,others.2.trans masks.2.symm⟩

def padded : Numeral := ⟨.bare,['0','1'],some ['5','0'],List.all_eq_true.mp (by decide),by decide⟩

def signed : Numeral := ⟨.plus,['1'],some ['5','0','0','0'],List.all_eq_true.mp (by decide),by decide⟩

def prices : RecordBatch := ⟨[("d",.decimal128 [some (.wrap 150),none])]⟩

def checkedRuntime : Runtime := ⟨true,id,fun _ => []⟩

theorem padded_literals_same :
    (parseDecimalText padded.text).isSome = true ∧
    decimalComparisonMask checkedRuntime (some (.insert "d" 2 ∅)) prices (.column "d") .eq
      (.literal (.string "01.50")) =
      .ok (some (compared (fun own => holds .eq own padded.value) 2 [some (.wrap 150),none])) ∧
    decimalComparisonMask checkedRuntime (some (.insert "d" 2 ∅)) prices (.column "d") .eq
      (.literal (.string "+1.5000")) =
      decimalComparisonMask checkedRuntime (some (.insert "d" 2 ∅)) prices (.column "d") .eq
        (.literal (.string "01.50")) := by
  have results := decimal_literals_exact checkedRuntime (some (AList.insert "d" 2 ∅)) prices
  have equal : signed.value = padded.value := by
    have whole : natOf ['1'] = 1 ∧ natOf ['0','1'] = 1 := by decide
    have fraction : natOf ['5','0','0','0'] = 5000 ∧ natOf ['5','0'] = 50 := by decide
    simp only [Numeral.value,signed,padded,Sign.apply,Option.getD_some,whole,fraction,reduceCtorEq,if_false]
    norm_num
  have masks := results.2.2 "d" 2 [some (.wrap 150),none] (by decide) .eq rfl "01.50" padded (by decide) (by decide)
    (fun _ => by decide)
  exact ⟨(results.2.1 padded.text padded (by decide)).mpr (by decide),masks.1.1,
    (masks.2 "+1.5000" signed (by decide) (by decide) equal fun _ => by decide).1⟩

def longFive : Numeral :=
  ⟨.bare,List.replicate 40 '0' ++ ['5'],none,List.all_eq_true.mp (by decide),by decide⟩

/-- The number fits, but its text is longer than 40 characters. -/
theorem long_literal_rejected : Fts.trim longFive.text = longFive.text ∧ longFive.magnitude ≤ 2^127 - 1 ∧
    parseDecimalText longFive.text = none :=
  ⟨by decide,by decide,by decide⟩

end ApexBase.Query.Decimal
