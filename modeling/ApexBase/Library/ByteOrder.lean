import ApexBase.Library.Wire

/-! Windows of byte strings as big-endian numbers: the order of the strings is kept. -/
namespace ApexBase.Library.Wire

def ofBe : Bytes → Nat
  | [] => 0
  | byte :: rest => byte.toNat * 256^rest.length + ofBe rest

def padded (width : Nat) (bytes : Bytes) : Bytes := bytes.take width ++ List.replicate (width - bytes.length) 0

@[simp] theorem length_padded (width : Nat) (bytes : Bytes) : (padded width bytes).length = width := by
  rw [padded,List.length_append,List.length_take,List.length_replicate]
  omega

theorem padded_nil (width : Nat) : padded (width + 1) [] = 0 :: padded width [] := by
  rw [padded,padded,List.take_nil,List.take_nil,List.length_nil,Nat.sub_zero,Nat.sub_zero,List.replicate_succ]
  rfl

theorem padded_cons (width : Nat) (byte : UInt8) (rest : Bytes) :
    padded (width + 1) (byte :: rest) = byte :: padded width rest := by
  rw [padded,padded,List.take_succ_cons,List.length_cons,Nat.add_sub_add_right,List.cons_append]

theorem ofBe_lt (bytes : Bytes) : ofBe bytes < 256^bytes.length := by
  induction bytes with
  | nil => exact Nat.one_pos
  | cons byte rest ih =>
    have small : byte.toNat < 256 := byte.toNat_lt
    rw [ofBe,List.length_cons,Nat.pow_succ']
    calc byte.toNat * 256^rest.length + ofBe rest < byte.toNat * 256^rest.length + 256^rest.length := by omega
      _ = (byte.toNat + 1) * 256^rest.length := by ring
      _ ≤ 256 * 256^rest.length := Nat.mul_le_mul_right _ small

theorem ofBe_padded_le (width : Nat) {a b : Bytes} (order : a ≤ b) : ofBe (padded width a) ≤ ofBe (padded width b) := by
  induction width generalizing a b with
  | zero =>
    have none_ (bytes : Bytes) : padded 0 bytes = [] := List.length_eq_zero_iff.mp (length_padded 0 bytes)
    rw [none_,none_]
  | succ width ih =>
    cases a with
    | nil =>
      have rest : ofBe (padded width []) ≤ ofBe (padded width (b.drop 1)) := ih (List.nil_le _)
      cases b with
      | nil => exact Nat.le_refl _
      | cons byte others =>
        rw [padded_nil,padded_cons,ofBe,ofBe]
        exact Nat.add_le_add (Nat.zero_mul _ ▸ Nat.zero_le _) rest
    | cons x xs =>
      cases b with
      | nil => exact absurd (List.nil_lt_cons x xs) order
      | cons y ys =>
        rw [padded_cons,padded_cons,ofBe,ofBe,length_padded,length_padded]
        rcases List.cons_le_cons_iff.mp order with less | ⟨rfl,rest⟩
        · -- The first byte decides.
          have bound := ofBe_lt (padded width xs)
          rw [length_padded] at bound
          have step : x.toNat + 1 ≤ y.toNat := UInt8.lt_iff_toNat_lt.mp less
          calc x.toNat * 256^width + ofBe (padded width xs) ≤ (x.toNat + 1) * 256^width := by
                rw [Nat.add_mul]
                omega
            _ ≤ y.toNat * 256^width := Nat.mul_le_mul_right _ step
            _ ≤ y.toNat * 256^width + ofBe (padded width ys) := Nat.le_add_right _ _
        · exact Nat.add_le_add_left (ih rest) _

theorem drop_le_drop {a b : Bytes} {count : Nat} (shared : a.take count = b.take count) (order : a ≤ b) :
    a.drop count ≤ b.drop count := by
  induction count generalizing a b with
  | zero => exact order
  | succ count ih =>
    cases a with
    | nil => exact List.nil_le _
    | cons x xs =>
      cases b with
      | nil => cases shared
      | cons y ys =>
        rw [List.take_succ_cons,List.take_succ_cons] at shared
        obtain ⟨rfl,rest⟩ := List.cons.inj shared
        rcases List.cons_le_cons_iff.mp order with less | ⟨_,later⟩
        · exact absurd less (UInt8.lt_irrefl x)
        · exact ih rest later

def signedKey (value : UInt64) : Int64 := (value ^^^ 0x8000000000000000).toInt64

private theorem xor_top {value : Nat} (low : value < 2^63) : value ^^^ 2^63 = 2^63 + value := by
  refine Nat.eq_of_testBit_eq fun i => ?_
  rw [Nat.testBit_xor,Nat.testBit_two_pow]
  by_cases top : i = 63
  · subst top
    rw [Nat.testBit_lt_two_pow low,Nat.testBit_two_pow_add_eq,Nat.testBit_lt_two_pow low]
    rfl
  · rw [decide_eq_false (Ne.symm top),Bool.xor_false]
    rcases Nat.lt_or_ge i 63 with below | above
    · rw [Nat.testBit_two_pow_add_gt below]
    · have wide : 2^63 + value < 2^i := by
        have double : 2^64 ≤ 2^i := Nat.pow_le_pow_right (by decide) (by omega)
        omega
      rw [Nat.testBit_lt_two_pow wide,Nat.testBit_lt_two_pow (by omega)]

private theorem bmod_low {value : Nat} (low : value < 2^63) : (value : Int).bmod (2^64) = value :=
  Int.bmod_eq_of_le (by omega) (by omega)

private theorem bmod_high {value : Nat} (low : value < 2^63) :
    ((2^63 + value : Nat) : Int).bmod (2^64) = value - 2^63 := by
  have shifted : ((2^63 + value : Nat) : Int) = (value - 2^63 : Int) + (2^64 : Nat) := by omega
  rw [shifted,Int.add_bmod_right]
  exact Int.bmod_eq_of_le (by omega) (by omega)

theorem toInt_signedKey (value : UInt64) : (signedKey value).toInt = value.toNat - 2^63 := by
  have bits : (value ^^^ 0x8000000000000000).toNat = value.toNat ^^^ 2^63 := UInt64.toNat_xor ..
  have range : value.toNat < 2^64 := value.toNat_lt
  have reading : (signedKey value).toInt = ((value ^^^ 0x8000000000000000).toNat : Int).bmod (2^64) :=
    BitVec.toInt_eq_toNat_bmod _
  rw [reading,bits]
  rcases Nat.lt_or_ge value.toNat (2^63) with low | high
  · rw [xor_top low,bmod_high low]
  · obtain ⟨rest,same⟩ := Nat.exists_eq_add_of_le high
    have low : rest < 2^63 := by omega
    have back : (2^63 + rest) ^^^ 2^63 = rest := by rw [← xor_top low,Nat.xor_assoc,Nat.xor_self,Nat.xor_zero]
    rw [same,back,bmod_low low]
    omega

theorem signedKey_le {a b : UInt64} : signedKey a ≤ signedKey b ↔ a ≤ b := by
  rw [Int64.le_iff_toInt_le,toInt_signedKey,toInt_signedKey,UInt64.le_iff_toNat_le]
  omega

end ApexBase.Library.Wire
