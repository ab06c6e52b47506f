import ApexBase.Library.Decimal
import ApexBase.Query.Decimal

/-! The comparison of decimals is the order of the rationals they stand for, unless the difference
of their scales leaves `i8`. -/
namespace ApexBase.Query.Decimal
open Library.Decimal

def rational (value : Int128) (scale : Int8) : ℚ := scaled value.value scale.toInt

/-- The signs already decide, or the difference of the scales is one. -/
def Comparable (a : Int128) (aScale : Int8) (b : Int128) (bScale : Int8) : Prop :=
  a.value.sign ≠ b.value.sign ∨ a.value = 0 ∨ (aScale.toInt - bScale.toInt).natAbs ≤ 127

instance (a : Int128) (aScale : Int8) (b : Int128) (bScale : Int8) : Decidable (Comparable a aScale b bScale) :=
  inferInstanceAs (Decidable (_ ∨ _ ∨ _))

theorem natAbs_le (value : Int128) : value.value.natAbs ≤ 2^127 := by
  have fits := value.fits
  omega

private theorem pow10_small : ∀ digits < 39, pow10[digits]? = some (10^digits) := by decide

private theorem pow10_large {digits : Nat} (large : 39 ≤ digits) : pow10[digits]? = none := List.getElem?_eq_none large

theorem pow10Mul_eq (value digits : Nat) :
    pow10Mul value digits = if value * 10^digits < 2^128 then some (value * 10^digits) else none := by
  unfold pow10Mul
  split
  · rename_i zero
    rw [zero,Nat.zero_mul,if_pos (by decide)]
  · rename_i positive
    rcases Nat.lt_or_ge digits 39 with small | large
    · rw [pow10_small digits small,Option.bind_some]
    · have huge : 2^128 ≤ value * 10^digits := calc
        2^128 ≤ 10^39 := by decide
        _ ≤ 10^digits := Nat.pow_le_pow_right (by decide) large
        _ ≤ value * 10^digits := Nat.le_mul_of_pos_left _ (Nat.pos_of_ne_zero positive)
      rw [pow10_large large,Option.bind_none,if_neg (Nat.not_lt.mpr huge)]

private theorem compare_shifted {a b : Nat} (fits : a < 2^128) (gap : Nat) :
    (match pow10Mul b gap with
      | some scaled => compare a scaled
      | none => .lt) = compare a (b * 10^gap) := by
  rw [pow10Mul_eq]
  split
  · rename_i found
    split at found
    · rw [Option.some.inj found]
    · exact nomatch found
  · rename_i missing
    split at missing
    · exact nomatch missing
    · rename_i huge
      exact (compare_lt_iff_lt.mpr (fits.trans_le (Nat.not_lt.mp huge))).symm

private theorem compare_swap_eq (a b : Nat) : compare a b = (compare b a).swap := Std.OrientedCmp.eq_swap

private theorem compare_shifted_left {a b : Nat} (fits : b < 2^128) (gap : Nat) :
    (match pow10Mul a gap with
      | some scaled => compare scaled b
      | none => .gt) = compare (a * 10^gap) b := by
  have mirrored := compare_shifted (b := a) fits gap
  rw [compare_swap_eq,← mirrored]
  cases pow10Mul a gap with
  | none => rfl
  | some scaled => exact compare_swap_eq scaled b

theorem pow10Mul_huge {digits other : Nat} (first : 39 ≤ digits) (second : 39 ≤ other) (value : Nat) :
    pow10Mul value digits = pow10Mul value other := by
  rw [pow10Mul,pow10Mul,pow10_large first,pow10_large second]

theorem scaleGap_cases {a b : Int8} (above : b < a) (checks : Bool) :
    scaleGap checks a b = none ∧ checks = true ∧ 127 < (a.toInt - b.toInt).natAbs ∨
      (checks = true → (a.toInt - b.toInt).natAbs ≤ 127) ∧
        ∃ gap, scaleGap checks a b = some gap ∧ ∀ value, pow10Mul value gap =
        pow10Mul value (a.toInt - b.toInt).toNat := by
  have order : b.toInt < a.toInt := Int8.lt_iff_toInt_lt.mp above
  have boundsA := a.toInt_lt
  have boundsB := b.le_toInt
  unfold scaleGap
  split
  · rename_i far
    exact Or.inl ⟨rfl,far.1,by omega⟩
  · rename_i near
    refine Or.inr ⟨fun checked => ?_,_,rfl,fun value => ?_⟩
    · by_contra far
      exact near ⟨checked,by omega⟩
    · have difference : (a - b).toInt64.toInt = Int.bmod (a.toInt - b.toInt) (2^8) := by
        rw [Int8.toInt_toInt64,Int8.toInt_sub]
      have word : (a - b).toInt64.toUInt64.toNat = ((a - b).toInt64.toInt % 2^64).toNat := by
        have asInt := BitVec.toInt_eq_toNat_cond (a - b).toInt64.toBitVec
        have below := (a - b).toInt64.toUInt64.toNat_lt
        rw [Int64.toNat_toBitVec,Int64.toInt_toBitVec] at asInt
        split at asInt <;> omega
      rcases Int.lt_or_le 127 (a.toInt - b.toInt) with wide | narrow
      · have wrapped : Int.bmod (a.toInt - b.toInt) (2^8) = a.toInt - b.toInt - 256 := by
          rw [Int.bmod_def]
          omega
        refine pow10Mul_huge ?_ (by omega) value
        rw [word,difference,wrapped]
        omega
      · have same : Int.bmod (a.toInt - b.toInt) (2^8) = a.toInt - b.toInt := by
          rw [Int.bmod_def]
          omega
        rw [word,difference,same,Int.emod_eq_of_lt (by omega) (by omega)]

/-- What a comparison of two numbers gives when the difference of their scales may be out of range. -/
def answer (checks : Bool) (near : Prop) [Decidable near] (ordering : Ordering) : Option Ordering :=
  if checks = true ∧ ¬near then none else some ordering

private theorem answer_of_gap {a b : Int8} (above : b < a) (checks : Bool) (result : Option Nat → Ordering)
    {value : Nat} :
    (scaleGap checks a b).map (fun gap => result (pow10Mul value gap)) =
      answer checks ((a.toInt - b.toInt).natAbs ≤ 127) (result (pow10Mul value (a.toInt - b.toInt).toNat)) := by
  unfold answer
  rcases scaleGap_cases above checks with ⟨missing,checked,far⟩ | ⟨near,gap,found,same⟩
  · rw [missing,if_pos ⟨checked,Nat.not_le.mpr far⟩]
    rfl
  · rw [found,if_neg fun ⟨checked,far⟩ => far (near checked),Option.map_some,same]

theorem cmpDecimalMagnitudes_eq {a b : Nat} (fitsA : a < 2^128) (fitsB : b < 2^128) (checks : Bool)
    (aScale bScale : Int8) :
    cmpDecimalMagnitudes checks a aScale b bScale =
      answer checks ((aScale.toInt - bScale.toInt).natAbs ≤ 127) (compare (scaled a aScale.toInt)
        (scaled b bScale.toInt)) := by
  have cast : ∀ m n : Nat, compare (m : Int) n = compare m n := fun m n => by
    rw [← cmp_eq_compare,← cmp_eq_compare]
    exact Int.natCast_strictMono.cmp_map_eq m n
  unfold cmpDecimalMagnitudes
  split
  · rename_i same
    rw [same,compare_scaled_same,cast,answer,if_neg fun far => far.2 (by omega)]
  · rename_i differ
    split
    · rename_i above
      have order : bScale.toInt < aScale.toInt := Int8.lt_iff_toInt_lt.mp above
      rw [compare_scaled_finer (aScale.toInt - bScale.toInt).toNat (by omega)]
      have shifted := compare_shifted (b := b) fitsA (aScale.toInt - bScale.toInt).toNat
      have power : (b : Int) * 10^(aScale.toInt - bScale.toInt).toNat =
        (b * 10^(aScale.toInt - bScale.toInt).toNat : Nat) := by
        rw [Nat.cast_mul,Nat.cast_pow,Nat.cast_ofNat]
      rw [power,cast,← shifted]
      exact answer_of_gap above checks fun | some scaled => compare a scaled | none => .lt
    · rename_i below
      have order : aScale.toInt < bScale.toInt := by
        have apart : aScale.toInt ≠ bScale.toInt := fun equal => differ (Int8.toInt_inj.mp equal)
        have notAbove : ¬bScale.toInt < aScale.toInt := fun less => below (Int8.lt_iff_toInt_lt.mpr less)
        omega
      have distance : (aScale.toInt - bScale.toInt).natAbs = (bScale.toInt - aScale.toInt).natAbs := by omega
      rw [compare_scaled_coarser (bScale.toInt - aScale.toInt).toNat (by omega)]
      have shifted := compare_shifted_left (a := a) fitsB (bScale.toInt - aScale.toInt).toNat
      have power : (a : Int) * 10^(bScale.toInt - aScale.toInt).toNat =
        (a * 10^(bScale.toInt - aScale.toInt).toNat : Nat) := by
        rw [Nat.cast_mul,Nat.cast_pow,Nat.cast_ofNat]
      rw [power,cast,← shifted]
      unfold answer
      rw [distance]
      exact answer_of_gap (Int8.lt_iff_toInt_lt.mpr order) checks fun | some scaled => compare scaled b | none => .gt

theorem cmpDecimal_eq (checks : Bool) (a : Int128) (aScale : Int8) (b : Int128) (bScale : Int8) :
    cmpDecimal checks a aScale b bScale = answer checks (Comparable a aScale b bScale)
      (compare (rational a aScale) (rational b bScale)) := by
  have sizeA := natAbs_le a
  have sizeB := natAbs_le b
  unfold cmpDecimal rational
  dsimp only
  split
  · rename_i differ
    rw [compare_scaled_signs differ,answer,if_neg fun far => far.2 (Or.inl differ)]
  · rename_i same
    split
    · rename_i zero
      have zeroA : a.value = 0 := Int.sign_eq_zero_iff_zero.mp zero
      have zeroB : b.value = 0 := Int.sign_eq_zero_iff_zero.mp ((not_not.mp same).symm.trans zero)
      rw [zeroA,zeroB,scaled_zero,scaled_zero,compare_eq_iff_eq.mpr rfl,answer,if_neg fun far =>
        far.2 (Or.inr (Or.inl zeroA))]
    · rename_i signed
      have nonzero : a.value ≠ 0 := fun zero => signed (Int.sign_eq_zero_iff_zero.mpr zero)
      have decided : Comparable a aScale b bScale ↔ (aScale.toInt - bScale.toInt).natAbs ≤ 127 := by
        unfold Comparable
        exact ⟨fun either => (either.resolve_left same).resolve_left nonzero,fun near => Or.inr (Or.inr near)⟩
      rw [cmpDecimalMagnitudes_eq (by omega) (by omega)]
      unfold answer
      rw [if_congr (and_congr_right' (not_congr decided)) rfl rfl,apply_ite (Option.map _)]
      congr 1
      rw [Option.map_some]
      congr 1
      split
      · rename_i negative
        have signB : b.value.sign < 0 := by omega
        have below := Int.sign_neg_iff.mp negative
        have belowB := Int.sign_neg_iff.mp signB
        have magnitudeA : a.value = -(a.value.natAbs : Int) := by omega
        have magnitudeB : b.value = -(b.value.natAbs : Int) := by omega
        rw [magnitudeA,magnitudeB,scaled_neg,scaled_neg,Int.natAbs_neg,Int.natAbs_neg,Int.natAbs_natCast,
          Int.natAbs_natCast,
          ← Std.OrientedCmp.eq_swap]
        have anti : StrictAnti fun q : ℚ => -q := fun _ _ less => neg_lt_neg less
        have mirrored := anti.cmp_map_eq (scaled (a.value.natAbs : Int) aScale.toInt)
          (scaled (b.value.natAbs : Int) bScale.toInt)
        rw [cmp_eq_compare,cmp_eq_compare] at mirrored
        exact mirrored.symm
      · rename_i positive
        have signB : ¬b.value.sign < 0 := by omega
        have above := Int.sign_neg_iff.not.mp positive
        have aboveB := Int.sign_neg_iff.not.mp signB
        rw [Int.natAbs_of_nonneg (by omega),Int.natAbs_of_nonneg (by omega)]

theorem answer_eq_some {checks : Bool} {near : Prop} [Decidable near] {ordering : Ordering} :
    answer checks near ordering = some ordering ↔ checks = false ∨ near := by
  unfold answer
  cases checks with
  | false => simp
  | true =>
    by_cases held : near
    · simp [held]
    · simp [held]

theorem answer_some {checks : Bool} {near : Prop} [Decidable near] {ordering result : Ordering}
    (found : answer checks near ordering = some result) : result = ordering := by
  unfold answer at found
  split at found
  · exact nomatch found
  · exact (Option.some.inj found).symm

theorem comparable_comm {a b : Int128} {aScale bScale : Int8} :
    Comparable a aScale b bScale ↔ Comparable b bScale a aScale := by
  have step : ∀ {a b : Int128} {aScale bScale : Int8}, Comparable a aScale b bScale → Comparable b bScale a aScale := by
    intro a b aScale bScale either
    rcases either with differ | zero | near
    · exact Or.inl differ.symm
    · by_cases same : b.value.sign = a.value.sign
      · rw [zero,Int.sign_zero] at same
        exact Or.inr (Or.inl (Int.sign_eq_zero_iff_zero.mp same))
      · exact Or.inl same
    · exact Or.inr (Or.inr (by omega))
  exact ⟨step,step⟩

/-- The comparison gives the order of the rationals exactly where the difference of the scales is not needed
or fits into `i8`, and in builds that let it wrap always. What it gives is an order. -/
theorem decimal_order_exact_iff (checks : Bool) :
    (∀ a aScale b bScale, cmpDecimal checks a aScale b bScale = some (compare (rational a aScale) (rational b bScale)) ↔
      checks = false ∨ Comparable a aScale b bScale) ∧
    (∀ a aScale, cmpDecimal checks a aScale a aScale = some .eq) ∧
    (∀ a aScale b bScale, cmpDecimal checks b bScale a aScale =
      (cmpDecimal checks a aScale b bScale).map Ordering.swap) ∧
    ∀ a aScale b bScale c cScale first second, cmpDecimal checks a aScale b bScale = some first → first ≠ .gt →
      cmpDecimal checks b bScale c cScale = some second → second ≠ .gt →
      (checks = false ∨ Comparable a aScale c cScale) →
        ∃ third, cmpDecimal checks a aScale c cScale = some third ∧ third ≠ .gt := by
  refine ⟨fun a aScale b bScale => ?_,fun a aScale => ?_,fun a aScale b bScale => ?_,?_⟩
  · rw [cmpDecimal_eq,answer_eq_some]
  · have near : Comparable a aScale a aScale := Or.inr (Or.inr (by omega))
    rw [cmpDecimal_eq,answer_eq_some.mpr (Or.inr near),compare_eq_iff_eq.mpr rfl]
  · rw [cmpDecimal_eq,cmpDecimal_eq]
    unfold answer
    rw [if_congr (and_congr_right' (not_congr comparable_comm)) rfl rfl,apply_ite (Option.map _),Option.map_none,
      Option.map_some,
      ← Std.OrientedCmp.eq_swap]
  · intro a aScale b bScale c cScale first second one notFirst two notSecond near
    rw [cmpDecimal_eq] at one two ⊢
    refine ⟨_,answer_eq_some.mpr near,?_⟩
    rw [answer_some one] at notFirst
    rw [answer_some two] at notSecond
    exact compare_le_iff_le.mpr ((compare_le_iff_le.mp notFirst).trans (compare_le_iff_le.mp notSecond))

theorem mixed_scales_ordered :
    (cmpDecimal true (.wrap 123) 2 (.wrap 1230) 3 = some .eq ∧ cmpDecimal true (.wrap 1230) 3 (.wrap 124) 2 = some .lt ∧
      Comparable (.wrap 123) 2 (.wrap 124) 2) ∧
    ∃ third, cmpDecimal true (.wrap 123) 2 (.wrap 124) 2 = some third ∧ third ≠ .gt :=
  ⟨⟨by decide,by decide,by decide⟩,
    (decimal_order_exact_iff true).2.2.2 (.wrap 123) 2 (.wrap 1230) 3 (.wrap 124) 2 .eq .lt (by decide) (by decide)
      (by decide) (by decide)
      (Or.inr (by decide))⟩

/-- `1 * 10^-127` and `1 * 10^128`. -/
theorem scales_apart_overflow :
    cmpDecimal true (.wrap 1) 127 (.wrap 1) (-128) = none ∧
    ¬∀ checks a aScale b bScale, cmpDecimal checks a aScale b bScale =
    some (compare (rational a aScale) (rational b bScale)) := by
  have panics : cmpDecimal true (.wrap 1) 127 (.wrap 1) (-128) = none := by decide
  refine ⟨panics,fun exact_ => ?_⟩
  have ordered := exact_ true (.wrap 1) 127 (.wrap 1) (-128)
  rw [panics] at ordered
  exact nomatch ordered

end ApexBase.Query.Decimal
