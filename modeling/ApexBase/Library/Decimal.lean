import Mathlib.Algebra.Order.Field.Basic
import Mathlib.Algebra.Order.Field.Power
import Mathlib.Algebra.Order.Ring.Rat
import Mathlib.Data.Rat.Cast.Order
import Mathlib.Order.Compare
import Mathlib.Data.UInt

/-! Decimal numbers: an integer with a scale as a rational, comparison at a common scale, and the
numerals that write one. -/
namespace ApexBase.Library.Decimal

/-- The number of this unscaled value. A negative scale appends zeros. -/
def scaled (unscaled scale : Int) : ℚ := unscaled / 10^scale

section Compare
variable {a b sa sb : Int}

theorem scaled_shift (gap : Nat) : scaled b sb = scaled (b * 10^gap) (sb + gap) := by
  have positive : (10 : ℚ)^gap ≠ 0 := pow_ne_zero _ (by decide)
  unfold scaled
  rw [zpow_add₀ (by decide : (10 : ℚ) ≠ 0),zpow_natCast,Int.cast_mul,Int.cast_pow,Int.cast_ofNat,
    mul_div_mul_right _ _ positive]

theorem compare_scaled_same (scale : Int) : compare (scaled a scale) (scaled b scale) = compare a b := by
  have positive : (0 : ℚ) < 10^scale := zpow_pos (by decide) scale
  have mono : StrictMono fun unscaled : Int => scaled unscaled scale := by
    intro a b less
    exact div_lt_div_of_pos_right (Int.cast_lt.mpr less) positive
  have same := mono.cmp_map_eq a b
  rwa [cmp_eq_compare,cmp_eq_compare] at same

theorem compare_scaled_finer (gap : Nat) (finer : sa = sb + gap) :
    compare (scaled a sa) (scaled b sb) = compare a (b * 10^gap) := by
  rw [scaled_shift (b := b) gap,finer,compare_scaled_same]

theorem compare_scaled_coarser (gap : Nat) (finer : sb = sa + gap) :
    compare (scaled a sa) (scaled b sb) = compare (a * 10^gap) b := by
  rw [scaled_shift (b := a) gap,finer,compare_scaled_same]

theorem scaled_zero (scale : Int) : scaled 0 scale = 0 := by
  rw [scaled,Int.cast_zero,zero_div]

theorem scaled_neg (unscaled scale : Int) : scaled (-unscaled) scale = -scaled unscaled scale := by
  rw [scaled,scaled,Int.cast_neg,neg_div]

theorem scaled_pos {unscaled : Int} (scale : Int) (above : 0 < unscaled) : 0 < scaled unscaled scale :=
  div_pos (Int.cast_pos.mpr above) (zpow_pos (by decide) scale)

theorem scaled_neg_of_neg {unscaled : Int} (scale : Int) (below : unscaled < 0) : scaled unscaled scale < 0 :=
  div_neg_of_neg_of_pos (Int.cast_lt_zero.mpr below) (zpow_pos (by decide) scale)

theorem compare_scaled_signs (differ : a.sign ≠ b.sign) :
    compare (scaled a sa) (scaled b sb) = compare a.sign b.sign := by
  rcases lt_trichotomy a 0 with belowA | zeroA | aboveA
  · have less : scaled a sa < scaled b sb := by
      rcases lt_trichotomy b 0 with belowB | zeroB | aboveB
      · exact absurd ((Int.sign_eq_neg_one_of_neg belowA).trans (Int.sign_eq_neg_one_of_neg belowB).symm) differ
      · rw [zeroB,scaled_zero]
        exact scaled_neg_of_neg sa belowA
      · exact (scaled_neg_of_neg sa belowA).trans (scaled_pos sb aboveB)
    rw [compare_lt_iff_lt.mpr less,Int.sign_eq_neg_one_of_neg belowA]
    refine (compare_lt_iff_lt.mpr ?_).symm
    have bound := Int.sign_eq_neg_one_of_neg belowA
    have trichotomy := Int.sign_trichotomy b
    omega
  · have zeroSign : a.sign = 0 := Int.sign_eq_zero_iff_zero.mpr zeroA
    rw [zeroSign,zeroA,scaled_zero]
    rcases lt_trichotomy b 0 with belowB | zeroB | aboveB
    · rw [Int.sign_eq_neg_one_of_neg belowB,compare_gt_iff_gt.mpr (scaled_neg_of_neg sb belowB)]
      rfl
    · exact absurd (zeroSign.trans (Int.sign_eq_zero_iff_zero.mpr zeroB).symm) differ
    · rw [Int.sign_eq_one_of_pos aboveB,compare_lt_iff_lt.mpr (scaled_pos sb aboveB)]
      rfl
  · have greater : scaled b sb < scaled a sa := by
      rcases lt_trichotomy b 0 with belowB | zeroB | aboveB
      · exact (scaled_neg_of_neg sb belowB).trans (scaled_pos sa aboveA)
      · rw [zeroB,scaled_zero]
        exact scaled_pos sa aboveA
      · exact absurd ((Int.sign_eq_one_of_pos aboveA).trans (Int.sign_eq_one_of_pos aboveB).symm) differ
    rw [compare_gt_iff_gt.mpr greater,Int.sign_eq_one_of_pos aboveA]
    refine (compare_gt_iff_gt.mpr ?_).symm
    have bound := Int.sign_eq_one_of_pos aboveA
    have trichotomy := Int.sign_trichotomy b
    omega

end Compare

def digitValue (c : Char) : Nat := c.toNat - 48

def natOf (digits : List Char) : Nat := digits.foldl (fun total c => total * 10 + digitValue c) 0

theorem foldl_digits (digits : List Char) (start : Nat) :
    digits.foldl (fun total c => total * 10 + digitValue c) start = start * 10^digits.length + natOf digits := by
  induction digits generalizing start with
  | nil => simp [natOf]
  | cons c rest ih =>
    have head := ih (0 * 10 + digitValue c)
    change natOf (c :: rest) = _ at head
    rw [List.foldl_cons,ih,head,List.length_cons,Nat.pow_succ,Nat.zero_mul,Nat.zero_add,Nat.add_mul,Nat.mul_assoc,
      Nat.mul_comm 10,Nat.add_assoc]

theorem natOf_append (first second : List Char) :
    natOf (first ++ second) = natOf first * 10^second.length + natOf second := by
  rw [natOf,List.foldl_append,foldl_digits]
  rfl

/-- A total that is checked after each step is there exactly when the last total is within the limit. -/
theorem foldlM_checked {σ : Type} {step : σ → Char → Option σ} (hold : Nat → σ) {limit : Nat}
    (checked : ∀ total c, total ≤ limit →
      step (hold total) c = if total * 10 + digitValue c ≤ limit then some (hold (total * 10 + digitValue c)) else none)
    (digits : List Char) (start : Nat) (within : start ≤ limit) :
    digits.foldlM step (hold start) =
      if start * 10^digits.length + natOf digits ≤ limit then some (hold (start * 10^digits.length + natOf digits))
      else none := by
  induction digits generalizing start with
  | nil =>
    have unchanged : start * 10^([] : List Char).length + natOf [] = start := by simp [natOf]
    rw [unchanged,if_pos within]
    rfl
  | cons c rest ih =>
    have total : start * 10^(c :: rest).length + natOf (c :: rest) = (start * 10 + digitValue c) * 10^rest.length +
      natOf rest := by
      rw [← foldl_digits,List.foldl_cons,foldl_digits]
    rw [List.foldlM_cons,checked start c within,total]
    split
    · rename_i small
      exact ih _ small
    · rename_i large
      have grows : start * 10 + digitValue c ≤ (start * 10 + digitValue c) * 10^rest.length + natOf rest :=
        (Nat.le_mul_of_pos_right _ (Nat.pow_pos (by decide))).trans (Nat.le_add_right _ _)
      rw [if_neg fun within => large (grows.trans within)]
      rfl

inductive Sign
  | bare | plus | minus
  deriving DecidableEq

def Sign.text : Sign → List Char
  | .bare => []
  | .plus => ['+']
  | .minus => ['-']

def Sign.apply {α : Type} [Neg α] (sign : Sign) (magnitude : α) : α := if sign = .minus then -magnitude else magnitude

/-- An optional sign, digits and an optional point with more digits, with a digit somewhere. -/
structure Numeral where
  sign : Sign
  whole : List Char
  fraction : Option (List Char)
  digits : ∀ c ∈ whole ++ fraction.getD [], c.isDigit = true
  written : whole ++ fraction.getD [] ≠ []

namespace Numeral

def body (numeral : Numeral) : List Char := numeral.whole ++ (numeral.fraction.map ('.' :: ·)).getD []

def text (numeral : Numeral) : List Char := numeral.sign.text ++ numeral.body

def magnitude (numeral : Numeral) : Nat := natOf (numeral.whole ++ numeral.fraction.getD [])

def scale (numeral : Numeral) : Nat := (numeral.fraction.getD []).length

def value (numeral : Numeral) : ℚ :=
  numeral.sign.apply (natOf numeral.whole + natOf (numeral.fraction.getD []) / 10^(numeral.fraction.getD []).length)

theorem value_eq (numeral : Numeral) : numeral.value = scaled (numeral.sign.apply (numeral.magnitude : Int))
    numeral.scale := by
  have unsigned : (natOf numeral.whole + natOf (numeral.fraction.getD []) / 10^(numeral.fraction.getD []).length : ℚ) =
      scaled (numeral.magnitude : Int) numeral.scale := by
    have positive : (10 : ℚ)^(numeral.fraction.getD []).length ≠ 0 := pow_ne_zero _ (by decide)
    rw [scaled,magnitude,natOf_append,scale,zpow_natCast,Int.cast_natCast,Nat.cast_add,Nat.cast_mul,Nat.cast_pow,
      Nat.cast_ofNat,add_div,
      mul_div_cancel_right₀ _ positive]
  unfold value Sign.apply
  split
  · rw [scaled_neg,unsigned]
  · exact unsigned

end Numeral

end ApexBase.Library.Decimal
