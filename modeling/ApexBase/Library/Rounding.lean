import ApexBase.Library.Binary64
import Mathlib.Algebra.Order.Group.Nat
import Mathlib.Data.Nat.Log

/-! Rounding to the nearest binary64 number, the one with the even pattern where two are equally near. -/
namespace ApexBase.Library.Binary64

/-- The greatest of the magnitudes whose number is not above an integer. -/
def floorMagnitude (value : Nat) : Nat :=
  if value < 2^53 then value else (value.log2 - 51) * 2^52 + (value / 2^(value.log2 - 52) - 2^52)

def infinite : Nat := 2047 * 2^52

/-- The magnitude of a fraction, in multiples of `2^-1074`. Beyond the greatest number it is that of infinity. -/
def nearest (num den : Nat) : Nat :=
  let below := floorMagnitude (num / den)
  let middle := (scaledMagnitude below + scaledMagnitude (below + 1)) * den
  min infinite (if middle < 2 * num ∨ middle = 2 * num ∧ below % 2 = 1 then below + 1 else below)

def ofMagnitude (minus : Bool) (magnitude : Nat) : UInt64 := UInt64.ofNat ((if minus then 2^63 else 0) + magnitude)

def ofInt (value : Int) : UInt64 := ofMagnitude (decide (value < 0)) (nearest (value.natAbs * 2^1074) 1)

def nan : UInt64 := 0x7FF8000000000000

def mul (a b : UInt64) : UInt64 :=
  let minus := negative a != negative b
  if isNan a || isNan b then nan
  else if magnitude a = infinite ∨ magnitude b = infinite then
    if magnitude a = 0 ∨ magnitude b = 0 then nan else ofMagnitude minus infinite
  else ofMagnitude minus (nearest (scaledMagnitude (magnitude a) * scaledMagnitude (magnitude b)) (2^1074))

/-- `round` to the nearest integer, of two the one away from zero, and `as i64` to the nearest of that type. -/
def roundToInt64 (bits : UInt64) : Int64 :=
  if isNan bits then 0
  else
    let rounded : Nat := (2 * scaledMagnitude (magnitude bits) + 2^1074) / (2 * 2^1074)
    if negative bits then Int64.ofInt (max (-2^63) (-rounded)) else Int64.ofInt (min (2^63 - 1) rounded)

-- 2^53 + 1 is a tie
example : ofInt 9007199254740993 = ofInt 9007199254740992 := by decide +kernel

theorem ofInt_zero : ofInt 0 = 0 := by decide +kernel

section Floor
variable {value m n : Nat}

theorem scaledMagnitude_small (small : value < 2^53) : scaledMagnitude value = value := by
  unfold scaledMagnitude
  split
  · exact Nat.mod_eq_of_lt (by omega)
  · have one : value / 2^52 = 1 := by omega
    rw [one,Nat.sub_self,Nat.pow_zero,Nat.mul_one]
    omega

theorem scaledMagnitude_pattern (exponent fraction : Nat) (leading : 2^52 ≤ fraction) (fits : fraction < 2^53) :
    scaledMagnitude ((exponent + 1) * 2^52 + (fraction - 2^52)) = fraction * 2^exponent := by
  have quotient : ((exponent + 1) * 2^52 + (fraction - 2^52)) / 2^52 = exponent + 1 := by omega
  have remainder : ((exponent + 1) * 2^52 + (fraction - 2^52)) % 2^52 = fraction - 2^52 := by omega
  unfold scaledMagnitude
  rw [quotient,remainder,if_neg (Nat.succ_ne_zero exponent),Nat.add_sub_cancel,Nat.add_sub_cancel' leading]

theorem scaledMagnitude_next (exponent fraction : Nat) (leading : 2^52 ≤ fraction) (fits : fraction < 2^53) :
    scaledMagnitude ((exponent + 1) * 2^52 + (fraction - 2^52) + 1) = (fraction + 1) * 2^exponent := by
  by_cases last : fraction + 1 < 2^53
  · have pattern := scaledMagnitude_pattern exponent (fraction + 1) (by omega) last
    have same : (exponent + 1) * 2^52 + (fraction - 2^52) + 1 = (exponent + 1) * 2^52 +
      (fraction + 1 - 2^52) := by omega
    rwa [same]
  · have full : fraction + 1 = 2^53 := by omega
    have pattern := scaledMagnitude_pattern (exponent + 1) (2^52) (Nat.le_refl _) (by decide)
    have same : (exponent + 1) * 2^52 + (fraction - 2^52) + 1 = (exponent + 1 + 1) * 2^52 + (2^52 - 2^52) := by omega
    have powers : (2 : Nat)^53 = 2^52 * 2 := rfl
    rw [same,pattern,full,powers,Nat.mul_assoc,← Nat.pow_succ']

theorem leading_bits (large : 2^53 ≤ value) :
    52 < value.log2 ∧ 2^52 ≤ value / 2^(value.log2 - 52) ∧ value / 2^(value.log2 - 52) < 2^53 := by
  have positive : value ≠ 0 := by omega
  have exponent : 53 ≤ value.log2 := (Nat.le_log2 positive).mpr large
  have low : 2^(52 + (value.log2 - 52)) ≤ value := by
    rw [Nat.add_sub_cancel' (by omega)]
    exact Nat.log2_self_le positive
  have high : value < 2^(53 + (value.log2 - 52)) := by
    rw [show 53 + (value.log2 - 52) = value.log2 + 1 by omega]
    exact Nat.lt_log2_self
  rw [Nat.pow_add] at low high
  refine ⟨exponent,(Nat.le_div_iff_mul_le (Nat.two_pow_pos _)).mpr low,
    (Nat.div_lt_iff_lt_mul (Nat.two_pow_pos _)).mpr high⟩

theorem floorMagnitude_large (large : 2^53 ≤ value) :
    floorMagnitude value = (value.log2 - 52 + 1) * 2^52 + (value / 2^(value.log2 - 52) - 2^52) := by
  have exponent := (leading_bits large).1
  unfold floorMagnitude
  rw [if_neg (by omega),show value.log2 - 51 = value.log2 - 52 + 1 by omega]

theorem scaledMagnitude_floor (value : Nat) :
    scaledMagnitude (floorMagnitude value) ≤ value ∧ value < scaledMagnitude (floorMagnitude value + 1) := by
  rcases Nat.lt_or_ge value (2^53) with small | large
  · have here : floorMagnitude value = value := if_pos small
    have below := scaledMagnitude_small small
    rw [here,below]
    refine ⟨Nat.le_refl _,?_⟩
    calc value = scaledMagnitude value := below.symm
      _ < scaledMagnitude (value + 1) := scaledMagnitude_strictMono (Nat.lt_succ_self _)
  · obtain ⟨_,leading,fits⟩ := leading_bits large
    rw [floorMagnitude_large large,scaledMagnitude_pattern _ _ leading fits,scaledMagnitude_next _ _ leading fits]
    exact ⟨Nat.div_mul_le_self _ _,Nat.lt_mul_of_div_lt (Nat.lt_succ_self _) (Nat.two_pow_pos _)⟩

theorem le_floorMagnitude : m ≤ floorMagnitude value ↔ scaledMagnitude m ≤ value := by
  obtain ⟨below,above⟩ := scaledMagnitude_floor value
  constructor
  · intro le
    exact Nat.le_trans (scaledMagnitude_strictMono.monotone le) below
  · intro le
    exact Nat.le_of_lt_succ (scaledMagnitude_strictMono.lt_iff_lt.mp (Nat.lt_of_le_of_lt le above))

theorem floorMagnitude_eq (low : scaledMagnitude m ≤ value) (high : value < scaledMagnitude (m + 1)) :
    floorMagnitude value = m := by
  have up := le_floorMagnitude.mpr low
  have down : ¬ m + 1 ≤ floorMagnitude value := fun le => Nat.not_le_of_lt high (le_floorMagnitude.mp le)
  omega

end Floor

section Nearest
variable {num den num' den' m : Nat}

private theorem nearest_cases (num den : Nat) : nearest num den = min infinite (floorMagnitude (num / den)) ∨
    nearest num den = min infinite (floorMagnitude (num / den) + 1) := by
  unfold nearest
  simp only
  split
  · exact .inr rfl
  · exact .inl rfl

theorem nearest_le_infinite (num den : Nat) : nearest num den ≤ infinite := Nat.min_le_left _ _

theorem nearest_exact (positive : 0 < den) (number : m ≤ infinite) : nearest (scaledMagnitude m * den) den = m := by
  have whole : scaledMagnitude m * den / den = scaledMagnitude m := Nat.mul_div_cancel _ positive
  have next := scaledMagnitude_strictMono (Nat.lt_succ_self m)
  have floor : floorMagnitude (scaledMagnitude m) = m := floorMagnitude_eq (Nat.le_refl _) next
  have middle : 2 * (scaledMagnitude m * den) < (scaledMagnitude m + scaledMagnitude (m + 1)) * den := by
    have sum : 2 * scaledMagnitude m < scaledMagnitude m + scaledMagnitude (m + 1) := by
      rw [Nat.two_mul]
      exact Nat.add_lt_add_left next _
    calc 2 * (scaledMagnitude m * den) = 2 * scaledMagnitude m * den := (Nat.mul_assoc _ _ _).symm
      _ < _ := Nat.mul_lt_mul_of_pos_right sum positive
  unfold nearest
  simp only [whole,floor]
  rw [if_neg (by omega),Nat.min_eq_right number]

theorem nearest_mono (positive : 0 < den) (positive' : 0 < den') (le : num * den' ≤ num' * den) :
    nearest num den ≤ nearest num' den' := by
  have quotients : num / den ≤ num' / den' := by
    rw [Nat.le_div_iff_mul_le positive']
    apply Nat.le_of_mul_le_mul_right _ positive
    calc num / den * den' * den = num / den * den * den' := Nat.mul_right_comm _ _ _
      _ ≤ num * den' := Nat.mul_le_mul_right _ (Nat.div_mul_le_self _ _)
      _ ≤ num' * den := le
  have floors : floorMagnitude (num / den) ≤ floorMagnitude (num' / den') :=
    le_floorMagnitude.mpr (Nat.le_trans (scaledMagnitude_floor _).1 quotients)
  rcases Nat.lt_or_eq_of_le floors with lower | equal
  · have up : nearest num den ≤ min infinite (floorMagnitude (num / den) + 1) := by
      rcases nearest_cases num den with same | same <;> omega
    have down : min infinite (floorMagnitude (num' / den')) ≤ nearest num' den' := by
      rcases nearest_cases num' den' with same | same <;> omega
    omega
  · unfold nearest
    simp only [equal]
    generalize scaledMagnitude (floorMagnitude (num' / den')) + scaledMagnitude (floorMagnitude (num' / den') + 1) = sum
    -- the middle between two numbers separates no fraction from a greater one
    have cross : ∀ {k l : Nat}, sum * den ≤ k → k * den' ≤ l * den → sum * den' ≤ l := by
      intro k l middle less
      apply Nat.le_of_mul_le_mul_right _ positive
      calc sum * den' * den = sum * den * den' := Nat.mul_right_comm _ _ _
        _ ≤ k * den' := Nat.mul_le_mul_right _ middle
        _ ≤ l * den := less
    have twice : 2 * num * den' ≤ 2 * num' * den := by
      rw [Nat.mul_assoc,Nat.mul_assoc]
      exact Nat.mul_le_mul_left 2 le
    have strict : sum * den < 2 * num → sum * den' < 2 * num' := by
      intro less
      apply Nat.lt_of_mul_lt_mul_right (a := den)
      calc sum * den' * den = sum * den * den' := Nat.mul_right_comm _ _ _
        _ < 2 * num * den' := Nat.mul_lt_mul_of_pos_right less positive'
        _ ≤ 2 * num' * den := twice
    have weak : sum * den = 2 * num → sum * den' ≤ 2 * num' := fun tie => cross (Nat.le_of_eq tie) twice
    apply Nat.le_min.mpr ⟨Nat.min_le_left _ _,Nat.le_trans (Nat.min_le_right _ _) _⟩
    split
    · rename_i up
      rw [if_pos]
      rcases up with less | ⟨tie,odd⟩
      · exact .inl (strict less)
      · have middle := weak tie
        omega
    · split <;> omega

theorem nearest_le (positive : 0 < den) (number : m ≤ infinite) (le : num ≤ scaledMagnitude m * den) :
    nearest num den ≤ m := by
  have mono := nearest_mono positive positive (Nat.mul_le_mul_right den le)
  rwa [nearest_exact positive number] at mono

theorem le_nearest (positive : 0 < den) (number : m ≤ infinite) (le : scaledMagnitude m * den ≤ num) :
    m ≤ nearest num den := by
  have mono := nearest_mono positive positive (Nat.mul_le_mul_right den le)
  rwa [nearest_exact positive number] at mono

theorem nearest_scale {factor : Nat} (positive : 0 < den) (positive' : 0 < factor) :
    nearest (num * factor) (den * factor) = nearest num den := by
  have scaled := Nat.mul_pos positive positive'
  have same : num * factor * den = num * (den * factor) := by rw [Nat.mul_assoc,Nat.mul_comm factor]
  exact Nat.le_antisymm (nearest_mono scaled positive same.le) (nearest_mono positive scaled same.ge)

theorem scaledMagnitude_shifted {count : Nat} (exponent : Nat) (short : count < 2^53) :
    scaledMagnitude (floorMagnitude (count * 2^exponent)) = count * 2^exponent := by
  rcases Nat.lt_or_ge (count * 2^exponent) (2^53) with small | large
  · rw [floorMagnitude,if_pos small,scaledMagnitude_small small]
  · obtain ⟨_,leading,fits⟩ := leading_bits large
    have positive : count ≠ 0 := by
      rintro rfl
      omega
    have bits : (count * 2^exponent).log2 - 52 ≤ exponent := by
      have width : (count * 2^exponent).log2 < 53 + exponent := by
        rw [Nat.log2_lt (by omega),Nat.pow_add]
        exact Nat.mul_lt_mul_of_pos_right short (Nat.two_pow_pos _)
      omega
    have divides : 2^((count * 2^exponent).log2 - 52) ∣ count * 2^exponent :=
      Nat.dvd_trans (Nat.pow_dvd_pow 2 bits) (Nat.dvd_mul_left _ _)
    rw [floorMagnitude_large large,scaledMagnitude_pattern _ _ leading fits,Nat.div_mul_cancel divides]

theorem exact_integer {value : Nat} (short : value ≤ 2^53) :
    ∃ m, m < infinite ∧ scaledMagnitude m = value * 2^1074 := by
  have limit : 2^53 * 2^1074 < scaledMagnitude infinite := by decide +kernel
  have found : ∃ m, scaledMagnitude m = value * 2^1074 := by
    rcases Nat.lt_or_eq_of_le short with less | rfl
    · exact ⟨_,scaledMagnitude_shifted 1074 less⟩
    · have same : 2^53 * 2^1074 = 1 * 2^(53 + 1074) := by rw [Nat.one_mul,Nat.pow_add]
      rw [same]
      exact ⟨_,scaledMagnitude_shifted (53 + 1074) (by decide)⟩
  obtain ⟨m,number⟩ := found
  refine ⟨m,?_,number⟩
  apply scaledMagnitude_strictMono.lt_iff_lt.mp
  rw [number]
  exact Nat.lt_of_le_of_lt (Nat.mul_le_mul_right _ short) limit

end Nearest

section Bits
variable {minus : Bool} {m : Nat} {a b : Int}

theorem toNat_ofMagnitude (fits : m < 2^63) : (ofMagnitude minus m).toNat = (if minus then 2^63 else 0) + m := by
  unfold ofMagnitude
  apply Nat.mod_eq_of_lt
  cases minus
  · rw [if_neg Bool.false_ne_true]
    omega
  · rw [if_pos rfl]
    omega

theorem magnitude_ofMagnitude (fits : m < 2^63) : magnitude (ofMagnitude minus m) = m := by
  rw [magnitude,toNat_ofMagnitude fits]
  cases minus
  · rw [if_neg Bool.false_ne_true,Nat.zero_add]
    exact Nat.mod_eq_of_lt fits
  · rw [if_pos rfl]
    omega

theorem negative_ofMagnitude (fits : m < 2^63) : negative (ofMagnitude minus m) = minus := by
  rw [negative,toNat_ofMagnitude fits]
  cases minus
  · exact decide_eq_false (by rw [if_neg Bool.false_ne_true]; omega)
  · exact decide_eq_true (by rw [if_pos rfl]; omega)

theorem infinite_lt : infinite < 2^63 := by decide

def ofNat (value : Nat) : Nat := nearest (value * 2^1074) 1

theorem magnitude_ofInt (value : Int) : magnitude (ofInt value) = ofNat value.natAbs :=
  magnitude_ofMagnitude (Nat.lt_of_le_of_lt (nearest_le_infinite _ _) infinite_lt)

theorem negative_ofInt (value : Int) : negative (ofInt value) = decide (value < 0) :=
  negative_ofMagnitude (Nat.lt_of_le_of_lt (nearest_le_infinite _ _) infinite_lt)

theorem isNan_ofInt (value : Int) : isNan (ofInt value) = false := by
  rw [isNan,magnitude_ofInt]
  exact decide_eq_false (Nat.not_lt.mpr (nearest_le_infinite _ _))

theorem rank_ofInt (value : Int) : rank (ofInt value) = if value < 0 then -(ofNat value.natAbs : Int)
    else ofNat value.natAbs := by
  rw [rank,magnitude_ofInt,negative_ofInt]
  simp only [decide_eq_true_iff]

theorem ofNat_mono {m n : Nat} (le : m ≤ n) : ofNat m ≤ ofNat n :=
  nearest_mono Nat.one_pos Nat.one_pos (Nat.mul_le_mul_right 1 (Nat.mul_le_mul_right _ le))

theorem rank_ofInt_mono (le : a ≤ b) : rank (ofInt a) ≤ rank (ofInt b) := by
  rw [rank_ofInt,rank_ofInt]
  split <;> split
  · have mono := ofNat_mono (show b.natAbs ≤ a.natAbs by omega)
    omega
  · omega
  · omega
  · have mono := ofNat_mono (show a.natAbs ≤ b.natAbs by omega)
    omega

theorem scaledMagnitude_ofNat {value : Nat} (short : value ≤ 2^53) :
    scaledMagnitude (ofNat value) = value * 2^1074 := by
  obtain ⟨m,below,number⟩ := exact_integer short
  have exact := nearest_exact Nat.one_pos below.le
  rw [number,Nat.mul_one] at exact
  rw [ofNat,exact,number]

theorem ofNat_lt_infinite {value : Nat} (short : value ≤ 2^53) : ofNat value < infinite := by
  obtain ⟨m,below,number⟩ := exact_integer short
  have exact := nearest_exact Nat.one_pos below.le
  rw [number,Nat.mul_one] at exact
  rwa [ofNat,exact]

theorem scaledInt_eq (value : Int) : scaledInt value =
    value * ((2^1074 : Nat) : Int) := by rw [scaledInt,Nat.cast_pow,Nat.cast_ofNat]

theorem scaled_ofInt (short : a.natAbs ≤ 2^53) : scaled (ofInt a) = scaledInt a := by
  rw [scaled,magnitude_ofInt,negative_ofInt,scaledMagnitude_ofNat short,scaledInt_eq,Int.natCast_mul]
  simp only [decide_eq_true_iff]
  split
  · have abs : (a.natAbs : Int) = -a := by omega
    rw [abs,Int.neg_mul,Int.neg_neg]
  · have abs : (a.natAbs : Int) = a := by omega
    rw [abs]

theorem partialCmp_ofInt (a b : Int) : partialCmp (ofInt a) (ofInt b) =
    some (compare (rank (ofInt a)) (rank (ofInt b))) := by
  rw [partialCmp,isNan_ofInt,isNan_ofInt]
  rfl

theorem ofNat_pos {n : Nat} (positive : 0 < n) : 0 < ofNat n :=
  le_nearest Nat.one_pos (by decide) (Nat.le_trans (show scaledMagnitude 1 * 1 ≤ 1 * 1 by decide)
    (Nat.mul_le_mul positive (Nat.two_pow_pos 1074)))

theorem ofInt_eq (same : rank (ofInt a) = rank (ofInt b)) : ofInt a = ofInt b := by
  refine eq_of_rank same ?_
  rw [rank_ofInt,rank_ofInt] at same
  rw [negative_ofInt,negative_ofInt]
  have first : a < 0 → 0 < ofNat a.natAbs := fun below => ofNat_pos (by omega)
  have second : b < 0 → 0 < ofNat b.natAbs := fun below => ofNat_pos (by omega)
  apply decide_eq_decide.mpr
  split at same <;> split at same <;> omega

theorem partialCmp_ofInt_exact (apart : ofInt a = ofInt b → a = b) :
    partialCmp (ofInt a) (ofInt b) = some (compare a b) := by
  rw [partialCmp_ofInt]
  refine congrArg some ?_
  rcases Int.lt_trichotomy a b with less | equal | greater
  · have mono := rank_ofInt_mono less.le
    have differ : rank (ofInt a) ≠ rank (ofInt b) := fun same => less.ne (apart (ofInt_eq same))
    rw [compare_lt_iff_lt.mpr less,compare_lt_iff_lt.mpr (by omega)]
  · rw [equal,compare_eq_iff_eq.mpr rfl,compare_eq_iff_eq.mpr rfl]
  · have mono := rank_ofInt_mono greater.le
    have differ : rank (ofInt a) ≠ rank (ofInt b) := fun same => greater.ne (apart (ofInt_eq same)).symm
    rw [compare_gt_iff_gt.mpr greater,compare_gt_iff_gt.mpr (by omega)]

theorem rank_ofInt_lt (short : a.natAbs ≤ 2^53) (short' : b.natAbs ≤ 2^53) :
    rank (ofInt a) < rank (ofInt b) ↔ a < b := by
  constructor
  · intro less
    by_contra above
    have mono := rank_ofInt_mono (Int.not_lt.mp above)
    omega
  · intro less
    apply (scaled_lt _ _).mp
    rw [scaled_ofInt short,scaled_ofInt short',scaledInt_eq,scaledInt_eq]
    exact Int.mul_lt_mul_of_pos_right less (Int.natCast_pos.mpr (Nat.two_pow_pos _))

theorem rank_le_ofInt {bits : UInt64} (number : magnitude bits ≤ infinite) (le : scaled bits ≤ scaledInt a) :
    rank bits ≤ rank (ofInt a) := by
  rw [rank_ofInt]
  rw [scaledInt_eq] at le
  have unit := Nat.two_pow_pos 1074
  unfold scaled at le
  unfold rank
  split
  · rename_i minus
    rw [if_pos minus] at le
    split
    · rename_i below
      have abs : (a.natAbs : Int) = -a := by omega
      have large : a.natAbs * 2^1074 ≤ scaledMagnitude (magnitude bits) * 1 := by
        rw [Nat.mul_one]
        apply Int.ofNat_le.mp
        rw [Int.natCast_mul,abs,Int.neg_mul]
        omega
      have nearer := nearest_le Nat.one_pos number large
      unfold ofNat
      omega
    · omega
  · rename_i plus
    rw [if_neg plus] at le
    have start : 0 ≤ a * ((2^1074 : Nat) : Int) := (Int.natCast_nonneg _).trans le
    have positive : 0 ≤ a := Int.nonneg_of_mul_nonneg_left start (Int.natCast_pos.mpr unit)
    rw [if_neg (Int.not_lt.mpr positive)]
    have abs : (a.natAbs : Int) = a := by omega
    have small : scaledMagnitude (magnitude bits) * 1 ≤ a.natAbs * 2^1074 := by
      rw [Nat.mul_one]
      apply Int.ofNat_le.mp
      rwa [Int.natCast_mul,abs]
    exact Int.ofNat_le.mpr (le_nearest Nat.one_pos number small)

private def flip (bits : UInt64) : UInt64 := ofMagnitude (!negative bits) (magnitude bits)

private theorem flip_spec (bits : UInt64) : magnitude (flip bits) = magnitude bits ∧ scaled (flip bits) = -scaled bits ∧
    rank (flip bits) = -rank bits := by
  have fits : magnitude bits < 2^63 := Nat.mod_lt _ (Nat.two_pow_pos 63)
  have same : magnitude (flip bits) = magnitude bits := magnitude_ofMagnitude fits
  have sign : negative (flip bits) = !negative bits := negative_ofMagnitude fits
  refine ⟨same,?_,?_⟩
  · rw [scaled,scaled,same,sign]
    cases negative bits
    · rfl
    · exact (Int.neg_neg _).symm
  · rw [rank,rank,same,sign]
    cases negative bits
    · rfl
    · exact (Int.neg_neg _).symm

theorem rank_ofInt_neg (value : Int) : rank (ofInt (-value)) = -rank (ofInt value) := by
  rw [rank_ofInt,rank_ofInt,Int.natAbs_neg]
  rcases Int.lt_trichotomy value 0 with below | zero | above
  · rw [if_neg (by omega),if_pos below,Int.neg_neg]
  · have none : ofNat value.natAbs = 0 := by
      rw [zero]
      decide +kernel
    rw [none,if_neg (by omega),if_neg (by omega)]
    rfl
  · rw [if_pos (by omega),if_neg (by omega)]

theorem ofInt_le_rank {bits : UInt64} (number : magnitude bits ≤ infinite) (le : scaledInt a ≤ scaled bits) :
    rank (ofInt a) ≤ rank bits := by
  obtain ⟨same,value,place⟩ := flip_spec bits
  have below : scaled (flip bits) ≤ scaledInt (-a) := by
    rw [value,scaledInt_eq,Int.neg_mul,← scaledInt_eq]
    exact Int.neg_le_neg le
  have mirrored := rank_le_ofInt (same.trans_le number) below
  rw [place,rank_ofInt_neg] at mirrored
  omega

theorem ofNat_finite {value exponent : Nat} (small : value ≤ 2^exponent) (short : exponent ≤ 1000) :
    ofNat value < infinite := by
  have limit : 2^(1000 + 1074) < scaledMagnitude infinite := by decide +kernel
  have number := @scaledMagnitude_shifted 1 (exponent + 1074) (by decide)
  rw [Nat.one_mul] at number
  have below : floorMagnitude (2^(exponent + 1074)) < infinite := by
    apply scaledMagnitude_strictMono.lt_iff_lt.mp
    rw [number]
    exact Nat.lt_of_le_of_lt (Nat.pow_le_pow_right (by decide) (Nat.add_le_add_right short _)) limit
  have nearer : ofNat value ≤ floorMagnitude (2^(exponent + 1074)) := by
    apply nearest_le Nat.one_pos below.le
    rw [number,Nat.mul_one,Nat.pow_add]
    exact Nat.mul_le_mul_right _ small
  exact Nat.lt_of_le_of_lt nearer below

theorem ofInt_natCast (value : Nat) : ofInt value = ofMagnitude false (ofNat value) := by
  have positive : decide ((value : Int) < 0) = false := decide_eq_false (by omega)
  rw [ofInt,positive,Int.natAbs_natCast,ofNat]

theorem mul_ofNat {m n : Nat} (short : m ≤ 2^53) (short' : n ≤ 2^53) :
    mul (ofInt m) (ofInt n) = ofInt ((m * n : Nat) : Int) := by
  have product : nearest (scaledMagnitude (ofNat m) * scaledMagnitude (ofNat n)) (2^1074) = ofNat (m * n) := by
    have regrouped : m * 2^1074 * (n * 2^1074) = m * n * 2^1074 * 2^1074 := by
      rw [← Nat.mul_assoc,Nat.mul_right_comm m]
    rw [scaledMagnitude_ofNat short,scaledMagnitude_ofNat short',regrouped,ofNat]
    have scaled := @nearest_scale (m * n * 2^1074) 1 (2^1074) Nat.one_pos (Nat.two_pow_pos 1074)
    rwa [Nat.one_mul] at scaled
  have positive : ∀ k : Nat, decide ((k : Int) < 0) = false := fun k => decide_eq_false (by omega)
  have first := ofNat_lt_infinite short
  have second := ofNat_lt_infinite short'
  unfold mul
  simp only [isNan_ofInt,magnitude_ofInt,negative_ofInt,Int.natAbs_natCast,Bool.or_false,Bool.false_eq_true,if_false,
    positive,bne_self_eq_false]
  rw [if_neg (by omega),product,ofInt_natCast]

theorem roundToInt64_ofNat {n : Nat} (short : n ≤ 2^53) : roundToInt64 (ofInt n) = Int64.ofInt n := by
  have rounded : (2 * (n * 2^1074) + 2^1074) / (2 * 2^1074) = n := by
    have positive := Nat.two_pow_pos 1074
    generalize 2^1074 = scale at *
    apply Nat.div_eq_of_lt_le
    · calc n * (2 * scale) = 2 * (n * scale) := Nat.mul_left_comm _ _ _
        _ ≤ _ := Nat.le_add_right _ _
    · calc 2 * (n * scale) + scale < 2 * (n * scale) + 2 * scale := by omega
        _ = (n + 1) * (2 * scale) := by rw [Nat.add_mul,Nat.one_mul,Nat.mul_left_comm]
  have limit : min (2^63 - 1) (n : Int) = n := Int.min_eq_right (by omega)
  unfold roundToInt64
  have positive : decide ((n : Int) < 0) = false := decide_eq_false (by omega)
  simp only [isNan_ofInt,magnitude_ofInt,negative_ofInt,Int.natAbs_natCast,positive,Bool.false_eq_true,if_false,
    scaledMagnitude_ofNat short,rounded,limit]

end Bits

end ApexBase.Library.Binary64
