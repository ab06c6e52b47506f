import Mathlib.Algebra.Order.Ring.Int
import Mathlib.Order.Compare
import Mathlib.Order.Monotone.Basic
import Mathlib.Data.UInt

/-! The order of IEEE binary64 numbers, read off their bit patterns. -/
namespace ApexBase.Library.Binary64

/-- The pattern without its sign. Among numbers it grows with the absolute value. -/
def magnitude (bits : UInt64) : Nat := bits.toNat % 2^63

def isNan (bits : UInt64) : Bool := decide (2047 * 2^52 < magnitude bits)

def negative (bits : UInt64) : Bool := decide (2^63 ≤ bits.toNat)

/-- A number that orders the numbers. Both zeros have 0. -/
def rank (bits : UInt64) : Int := if negative bits then -(magnitude bits : Int) else magnitude bits

def partialCmp (a b : UInt64) : Option Ordering := if isNan a || isNan b then none else some (compare (rank a) (rank b))

def eq (a b : UInt64) : Bool := partialCmp a b == some .eq

/-- The absolute value of a number as a multiple of `2^-1074`. Infinity is taken for `2^1024`. -/
def scaledMagnitude (magnitude : Nat) : Nat :=
  if magnitude / 2^52 = 0 then magnitude % 2^52 else (2^52 + magnitude % 2^52) * 2^(magnitude / 2^52 - 1)

/-- The value of a number as a multiple of `2^-1074`. -/
def scaled (bits : UInt64) : Int := if negative bits then -(scaledMagnitude (magnitude bits) : Int)
    else scaledMagnitude (magnitude bits)

def scaledInt (value : Int) : Int := value * 2^1074

-- the pattern of 5.0
example : scaled 0x4014000000000000 = scaledInt 5 := by decide +kernel

theorem scaledMagnitude_strictMono : StrictMono scaledMagnitude := by
  intro a b less
  have fa : a % 2^52 < 2^52 := Nat.mod_lt _ (Nat.two_pow_pos 52)
  have splitA := Nat.div_add_mod a (2^52)
  have splitB := Nat.div_add_mod b (2^52)
  have exponents : a / 2^52 ≤ b / 2^52 := Nat.div_le_div_right less.le
  unfold scaledMagnitude
  rcases Nat.lt_or_eq_of_le exponents with lower | equal
  · rw [if_neg (show ¬ b / 2^52 = 0 by omega)]
    -- the number above starts where the powers of two of the one below end
    have start : 2^52 * 2^(b / 2^52 - 1) ≤ (2^52 + b % 2^52) * 2^(b / 2^52 - 1) :=
      Nat.mul_le_mul_right _ (Nat.le_add_right _ _)
    split
    · have one : 1 ≤ 2^(b / 2^52 - 1) := Nat.one_le_two_pow
      calc a % 2^52 < 2^52 := fa
        _ ≤ 2^52 * 2^(b / 2^52 - 1) := Nat.le_mul_of_pos_right _ one
        _ ≤ _ := start
    · rename_i normal
      have double : 2^(a / 2^52) = 2 * 2^(a / 2^52 - 1) := by
        rw [← Nat.pow_succ',Nat.succ_eq_add_one,Nat.sub_add_cancel (Nat.pos_of_ne_zero normal)]
      have powers : 2^(a / 2^52) ≤ 2^(b / 2^52 - 1) := Nat.pow_le_pow_right (by decide) (Nat.le_sub_one_of_lt lower)
      calc (2^52 + a % 2^52) * 2^(a / 2^52 - 1) < (2^52 + 2^52) * 2^(a / 2^52 - 1) :=
            Nat.mul_lt_mul_of_pos_right (Nat.add_lt_add_left fa _) (Nat.two_pow_pos _)
        _ = 2^52 * 2^(a / 2^52) := by rw [double,← Nat.two_mul,Nat.mul_comm 2 (2^52),Nat.mul_assoc]
        _ ≤ 2^52 * 2^(b / 2^52 - 1) := Nat.mul_le_mul_left _ powers
        _ ≤ _ := start
  · rw [equal] at splitA ⊢
    have fractions : a % 2^52 < b % 2^52 := by omega
    split
    · exact fractions
    · exact Nat.mul_lt_mul_of_pos_right (Nat.add_lt_add_left fractions _) (Nat.two_pow_pos _)

theorem scaledMagnitude_zero : scaledMagnitude 0 = 0 := rfl

theorem scaled_lt (a b : UInt64) : scaled a < scaled b ↔ rank a < rank b := by
  have mono : ∀ m n, scaledMagnitude m < scaledMagnitude n ↔ m < n := fun m n => scaledMagnitude_strictMono.lt_iff_lt
  have zero : ∀ m, scaledMagnitude m = 0 ↔ m = 0 := fun m => by
    rw [← scaledMagnitude_zero]
    exact scaledMagnitude_strictMono.injective.eq_iff
  have first := zero (magnitude a)
  have second := zero (magnitude b)
  have up := mono (magnitude a) (magnitude b)
  have down := mono (magnitude b) (magnitude a)
  unfold scaled rank
  generalize scaledMagnitude (magnitude a) = x at *
  generalize scaledMagnitude (magnitude b) = y at *
  split <;> split <;> omega

theorem compare_scaled (a b : UInt64) : compare (scaled a) (scaled b) = compare (rank a) (rank b) := by
  have up := scaled_lt a b
  have down := scaled_lt b a
  rcases lt_trichotomy (rank a) (rank b) with less | equal | greater
  · rw [compare_lt_iff_lt.mpr less,compare_lt_iff_lt.mpr (up.mpr less)]
  · rw [compare_eq_iff_eq.mpr equal,compare_eq_iff_eq.mpr (by omega)]
  · rw [compare_gt_iff_gt.mpr greater,compare_gt_iff_gt.mpr (down.mpr greater)]

theorem compare_scaledInt (a b : Int) : compare (scaledInt a) (scaledInt b) = compare a b := by
  have positive : (0 : Int) < 2^1074 := Int.pow_pos (by decide)
  unfold scaledInt
  generalize (2 : Int)^1074 = scale at *
  rcases lt_trichotomy a b with less | equal | greater
  · rw [compare_lt_iff_lt.mpr less,compare_lt_iff_lt.mpr (Int.mul_lt_mul_of_pos_right less positive)]
  · rw [equal,compare_eq_iff_eq.mpr rfl,compare_eq_iff_eq.mpr rfl]
  · rw [compare_gt_iff_gt.mpr greater,compare_gt_iff_gt.mpr (Int.mul_lt_mul_of_pos_right greater positive)]

theorem eq_of_rank {a b : UInt64} (ranks : rank a = rank b) (signs : negative a = negative b) : a = b := by
  have first := a.toNat_lt
  have second := b.toNat_lt
  have same : (negative a = true ↔ negative b = true) := by rw [signs]
  unfold rank at ranks
  unfold negative magnitude at *
  rw [decide_eq_true_iff,decide_eq_true_iff] at same
  simp only [decide_eq_true_iff] at ranks
  apply UInt64.toNat_inj.mp
  split at ranks <;> split at ranks <;> omega

end ApexBase.Library.Binary64
