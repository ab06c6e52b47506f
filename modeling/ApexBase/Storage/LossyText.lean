import ApexBase.Storage.DeltaFile
import Mathlib.Data.List.TakeWhile

/-! What `from_utf8_lossy` makes of a text that was cut off: the characters up to the
cut, and no more than a few in place of the one that was cut. -/
namespace ApexBase.Storage.DeltaFile
open Library.Wire

theorem utf8_chars (text : String) : utf8 text = text.toList.flatMap String.utf8EncodeChar := by
  rw [utf8,String.toUTF8_eq_toByteArray,← String.utf8Encode_toList,List.utf8Encode]
  simp

private theorem toNat_small {n : Nat} (small : n < 256) : (UInt8.ofNat n).toNat = n := by
  rw [UInt8.toNat_ofNat',Nat.mod_eq_of_lt small]

private theorem isContinuation_low (n : Nat) : isContinuation (UInt8.ofNat (n % 0x40 + 0x80)) = true := by
  have value := toNat_small (show n % 0x40 + 0x80 < 256 by omega)
  simp only [isContinuation,Bool.and_eq_true,decide_eq_true_eq,UInt8.le_iff_toNat_le,value]
  constructor
  · change 0x80 ≤ _
    omega
  · change _ ≤ 0xBF
    omega

private theorem sequenceStart_cons (first : UInt8) (rest : Bytes) : sequenceStart (first :: rest) =
    match sequenceOf first,rest with
    | some (low,high,len),second :: more =>
      if low ≤ second && second ≤ high then 2 + ((more.take (len - 2)).takeWhile isContinuation).length else 1
    | _,_ => 1 := rfl

def Starts (len : Nat) (first second : UInt8) : Bool :=
  (sequenceOf first).any fun (low,high,announced) => decide (low ≤ second) && decide (second ≤ high) && announced == len

private theorem sequenceStart_of {len : Nat} {first second : UInt8} {more rest : Bytes}
    (starts : Starts len first second = true) (size : more.length = len - 2)
    (continued : ∀ byte ∈ more, isContinuation byte = true) :
    sequenceStart (first :: second :: (more ++ rest)) = 2 + more.length := by
  obtain ⟨⟨low,high,announced⟩,found,inside⟩ := (Option.any_eq_true _ _).mp starts
  simp only [Bool.and_eq_true,decide_eq_true_eq,beq_iff_eq] at inside
  obtain ⟨⟨above,below⟩,rfl⟩ := inside
  rw [sequenceStart_cons,found]
  simp only [above,below,decide_true,Bool.and_true,if_true]
  rw [← size,List.take_left,List.takeWhile_eq_self_iff.mpr continued]

private theorem starts_two : ∀ n < 32, ∀ m < 64, 2 ≤ n → Starts 2 (UInt8.ofNat (n + 0xC0)) (UInt8.ofNat (m + 0x80)) =
    true := by decide +kernel

private theorem starts_three : ∀ n < 16, ∀ m < 64, (n = 0 → 32 ≤ m) → (n = 13 → m < 32) →
    Starts 3 (UInt8.ofNat (n + 0xE0)) (UInt8.ofNat (m + 0x80)) = true := by decide +kernel

private theorem starts_four : ∀ n < 5, ∀ m < 64, (n = 0 → 16 ≤ m) → (n = 4 → m < 16) →
    Starts 4 (UInt8.ofNat (n + 0xF0)) (UInt8.ofNat (m + 0x80)) = true := by decide +kernel

private theorem sequenceOf_ascii : ∀ n < 0x80, sequenceOf (UInt8.ofNat n) = none := by decide +kernel

private theorem sequenceStart_char (char : Char) (rest : Bytes) :
    sequenceStart (String.utf8EncodeChar char ++ rest) = (String.utf8EncodeChar char).length := by
  have valid : char.val.toNat < 0xD800 ∨ 0xDFFF < char.val.toNat ∧ char.val.toNat < 0x110000 := char.valid
  unfold String.utf8EncodeChar
  simp only
  split
  · rename_i ascii
    rw [List.singleton_append,sequenceStart_cons,sequenceOf_ascii _ (by omega)]
    rfl
  · split
    · exact sequenceStart_of (starts_two _ (by omega) _ (by omega) (by omega)) rfl nofun
    · split
      · refine sequenceStart_of (starts_three _ (by omega) _ (by omega) (by omega) (by omega)) rfl ?_
        exact List.forall_mem_singleton.mpr (isContinuation_low _)
      · rw [Nat.mod_eq_of_lt (show char.val.toNat / 262144 < 8 by omega)]
        refine sequenceStart_of (starts_four _ (by omega) _ (by omega) (by omega) (by omega)) rfl ?_
        exact List.forall_mem_cons.mpr ⟨isContinuation_low _,List.forall_mem_singleton.mpr (isContinuation_low _)⟩

private theorem length_le_utf8 (text : String) : text.toList.length ≤ (utf8 text).length := by
  rw [utf8_chars]
  induction text.toList with
  | nil => exact Nat.zero_le _
  | cons char rest ih =>
    have long := char.utf8Size_pos
    rw [List.flatMap_cons,List.length_append,List.length_cons,String.length_utf8EncodeChar]
    omega

private theorem sequenceStart_pos {bytes : Bytes} (some_ : bytes ≠ []) : 0 < sequenceStart bytes := by
  cases bytes with
  | nil => exact absurd rfl some_
  | cons first rest =>
    rw [sequenceStart_cons]
    split
    · split
      · exact Nat.add_pos_left (by decide) _
      · exact Nat.one_pos
    · exact Nat.one_pos

private theorem length_replaced (turns : Nat) (bytes : Bytes) :
    (replaced turns bytes).toList.length ≤ bytes.length := by
  induction turns generalizing bytes with
  | zero => exact Nat.zero_le _
  | succ turns ih =>
    rw [replaced]
    split
    · exact Nat.zero_le _
    · rename_i some_
      have positive : 0 < sequenceStart bytes := sequenceStart_pos (by simpa using some_)
      have long : 0 < bytes.length := List.length_pos_iff.mpr (by simpa using some_)
      have rest := ih (bytes.drop (sequenceStart bytes))
      have first : ((fromUtf8 (bytes.take (sequenceStart bytes))).getD "\uFFFD").toList.length ≤
        (bytes.take (sequenceStart bytes)).length := by
        cases decoded : fromUtf8 (bytes.take (sequenceStart bytes)) with
        | some text =>
          rw [← utf8_of_fromUtf8 decoded]
          exact length_le_utf8 text
        | none =>
          rw [List.length_take]
          change 1 ≤ _
          omega
      rw [String.toList_append,List.length_append]
      rw [List.length_take] at first
      rw [List.length_drop] at rest
      omega

private theorem fromUtf8_char (char : Char) : fromUtf8 (String.utf8EncodeChar char) = some (String.singleton char) := by
  have decoded := fromUtf8_utf8 (String.singleton char)
  rwa [utf8_chars,String.toList_singleton,List.flatMap_singleton] at decoded

private theorem replaced_cut (chars : List Char) (turns count : Nat)
    (cut : count + 16 ≤ (chars.flatMap String.utf8EncodeChar).length) :
    (replaced turns ((chars.flatMap String.utf8EncodeChar).take count)).toList.length < chars.length := by
  induction chars generalizing turns count with
  | nil => exact absurd cut (by simp)
  | cons char rest ih =>
    have size := String.length_utf8EncodeChar char
    have bound := char.utf8Size_le_four
    have four : (rest.flatMap String.utf8EncodeChar).length ≤ 4 * rest.length := by
      clear ih cut
      induction rest with
      | nil => exact Nat.zero_le _
      | cons other more again =>
        have few := other.utf8Size_le_four
        rw [List.flatMap_cons,List.length_append,List.length_cons,String.length_utf8EncodeChar]
        omega
    rw [List.flatMap_cons,List.length_append] at cut
    rw [List.flatMap_cons,List.length_cons]
    by_cases inside : (String.utf8EncodeChar char).length ≤ count
    · cases turns with
      | zero => exact Nat.succ_pos _
      | succ turns =>
        have kept : (String.utf8EncodeChar char ++ rest.flatMap String.utf8EncodeChar).take count =
            String.utf8EncodeChar char ++ (rest.flatMap String.utf8EncodeChar).take
              (count - (String.utf8EncodeChar char).length) := by
          rw [List.take_append,List.take_of_length_le inside]
        have some_ : (String.utf8EncodeChar char ++ (rest.flatMap String.utf8EncodeChar).take
            (count - (String.utf8EncodeChar char).length)).isEmpty = false := by
          simp [String.utf8EncodeChar_ne_nil]
        have shorter := ih turns (count - (String.utf8EncodeChar char).length) (by omega)
        rw [kept,replaced,some_,if_neg (by decide)]
        simp only [sequenceStart_char,List.take_left,List.drop_left,fromUtf8_char,Option.getD_some]
        rw [String.toList_append,List.length_append,String.toList_singleton,List.length_singleton]
        omega
    · have few := length_replaced turns ((String.utf8EncodeChar char ++ rest.flatMap String.utf8EncodeChar).take count)
      rw [List.length_take] at few
      omega

theorem lossy_cut {text : String} {count : Nat} (cut : count + 16 ≤ (utf8 text).length) :
    fromUtf8Lossy ((utf8 text).take count) ≠ text := by
  intro same
  unfold fromUtf8Lossy at same
  cases decoded : fromUtf8 ((utf8 text).take count) with
  | some kept =>
    rw [decoded,Option.getD_some] at same
    have bytes := congrArg List.length (utf8_of_fromUtf8 decoded)
    rw [same,List.length_take] at bytes
    omega
  | none =>
    rw [decoded,Option.getD_none,utf8_chars] at same
    rw [utf8_chars] at cut
    have fewer := replaced_cut text.toList ((text.toList.flatMap String.utf8EncodeChar).take count).length count cut
    rw [same] at fewer
    exact absurd fewer (Nat.lt_irrefl _)

end ApexBase.Storage.DeltaFile
