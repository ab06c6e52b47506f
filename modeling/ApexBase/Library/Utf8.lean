import Mathlib.Data.List.Infix
import Mathlib.Data.UInt

/-! The bytes of a text: a part of the bytes that is a text is a part of the text. -/
namespace ApexBase.Library.Utf8

def encode (text : List Char) : List UInt8 := text.flatMap String.utf8EncodeChar

@[simp] theorem encode_cons (c : Char) (text : List Char) :
    encode (c :: text) = String.utf8EncodeChar c ++ encode text := rfl

@[simp] theorem encode_append (front back : List Char) : encode (front ++ back) = encode front ++ encode back :=
  List.flatMap_append

theorem encode_ne_nil {text : List Char} (some_ : text ≠ []) : encode text ≠ [] := by
  cases text with
  | nil => exact absurd rfl some_
  | cons c rest => exact fun none_ => String.utf8EncodeChar_ne_nil (List.append_eq_nil_iff.mp none_).1

variable {pattern text : List Char}

theorem prefix_encode : encode pattern <+: encode text ↔ pattern <+: text := by
  constructor
  · rintro ⟨rest,same⟩
    refine List.isPrefix_of_utf8Encode_append_eq_utf8Encode rest.toByteArray ?_
    rw [List.utf8Encode,List.utf8Encode]
    change (encode pattern).toByteArray ++ rest.toByteArray = (encode text).toByteArray
    rw [← List.toByteArray_append,same]
  · rintro ⟨rest,rfl⟩
    exact ⟨encode rest,(encode_append _ _).symm⟩

private theorem starts_first {c : Char} {front back : List UInt8} {byte : UInt8}
    (inside : String.utf8EncodeChar c = front ++ byte :: back)
    (starts : byte.IsUTF8FirstByte) : front = [] := by
  have bound : front.length < (String.utf8EncodeChar c).length := by
    rw [inside,List.length_append,List.length_cons]
    omega
  have here : (String.utf8EncodeChar c)[front.length] = byte := by simp [inside]
  rw [← here] at starts
  exact List.eq_nil_of_length_eq_zero (UInt8.isUTF8FirstByte_getElem_utf8EncodeChar.mp starts)

private theorem encode_starts (c : Char) (rest : List Char) :
    ∃ byte more, encode (c :: rest) = byte :: more ∧ byte.IsUTF8FirstByte := by
  cases bytes : String.utf8EncodeChar c with
  | nil => exact absurd bytes String.utf8EncodeChar_ne_nil
  | cons byte more =>
    refine ⟨byte,more ++ encode rest,by rw [encode_cons,bytes]; rfl,?_⟩
    have some_ : 0 < (String.utf8EncodeChar c).length := by rw [bytes]; exact Nat.succ_pos _
    have here : (String.utf8EncodeChar c)[0] = byte := by simp [bytes]
    rw [← here]
    exact UInt8.isUTF8FirstByte_getElem_utf8EncodeChar.mpr rfl

theorem infix_encode : encode pattern <:+: encode text ↔ pattern <:+: text := by
  constructor
  · intro inside
    cases pattern with
    | nil => exact List.nil_infix
    | cons first pattern =>
      induction text with
      | nil => exact absurd (List.infix_nil.mp inside) (encode_ne_nil (List.cons_ne_nil _ _))
      | cons c rest ih =>
        obtain ⟨front,back,split⟩ := inside
        obtain ⟨byte,more,bytes,starts⟩ := encode_starts first pattern
        rw [encode_cons c rest,List.append_assoc] at split
        rcases List.append_eq_append_iff.mp split with ⟨between,is,tail⟩ | ⟨between,is,tail⟩
        · cases between with
          | nil =>
            -- the pattern begins behind the first character
            rw [List.append_nil] at is
            have later : encode (first :: pattern) <:+: encode rest := ⟨[],back,tail⟩
            exact (ih later).trans ⟨[c],[],by simp⟩
          | cons other between =>
            rw [bytes] at tail
            obtain ⟨rfl,_⟩ := List.cons.inj tail
            obtain rfl : front = [] := starts_first is starts
            have front : encode (first :: pattern) <+: encode (c :: rest) :=
              ⟨back,by rw [encode_cons c rest,← split]; rfl⟩
            exact (prefix_encode.mp front).isInfix
        · have later : encode (first :: pattern) <:+: encode rest := ⟨between,back,by rw [tail,List.append_assoc]⟩
          exact (ih later).trans ⟨[c],[],by simp⟩
  · rintro ⟨front,back,rfl⟩
    exact ⟨encode front,encode back,by simp only [encode_append]⟩

end ApexBase.Library.Utf8
