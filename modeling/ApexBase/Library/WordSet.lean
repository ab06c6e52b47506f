import Mathlib.Data.List.Sort
import Mathlib.Data.Nat.Bitwise
import Mathlib.Data.UInt

/-! Sets of numbers kept as the bits of 64-bit words, and the scan that lists them by clearing the
lowest bit of a word again and again. -/
namespace ApexBase.Library.WordSet

abbrev Words := List (BitVec 64)

def get (words : Words) (index : Nat) : Bool := (words[index / 64]?.getD 0#64).getLsbD (index % 64)

def put (words : Words) (index : Nat) (value : Bool) : Words :=
  words.modify (index / 64) fun word => if value then word ||| BitVec.twoPow 64 (index % 64)
    else word &&& ~~~BitVec.twoPow 64 (index % 64)

@[simp] theorem length_put (words : Words) (index : Nat) (value : Bool) :
    (put words index value).length = words.length := List.length_modify ..

theorem get_put {words : Words} {position : Nat} (value : Bool) (index : Nat) (inside : position < 64 * words.length) :
    get (put words position value) index = if index = position then value else get words index := by
  unfold get put
  rw [List.getElem?_modify]
  by_cases word : position / 64 = index / 64
  · have present : index / 64 < words.length := by omega
    have low : index % 64 < 64 := Nat.mod_lt _ (by decide)
    have same : index % 64 = position % 64 ↔ index = position := by omega
    simp only [List.getElem?_eq_getElem present,Option.map_eq_map,Option.map_some,Option.getD_some,if_pos word]
    cases value
    · rw [if_neg (by decide),BitVec.getLsbD_and,BitVec.getLsbD_not,BitVec.getLsbD_twoPow]
      split
      · rename_i here
        simp [here]
      · rename_i apart
        have other : ¬ position % 64 = index % 64 := fun equal => apart (same.mp equal.symm)
        simp [low,other]
    · rw [if_pos rfl,BitVec.getLsbD_or,BitVec.getLsbD_twoPow]
      split
      · rename_i here
        simp [here,Nat.mod_lt]
      · rename_i apart
        have other : ¬ position % 64 = index % 64 := fun equal => apart (same.mp equal.symm)
        simp [other]
  · have apart : ¬ index = position := fun same => word (by rw [same])
    simp [word,apart]

theorem get_append_zeros (words : Words) (count index : Nat) :
    get (words ++ List.replicate count 0#64) index = get words index := by
  unfold get
  rcases Nat.lt_or_ge (index / 64) words.length with inside | outside
  · rw [List.getElem?_append_left inside]
  · rw [List.getElem?_append_right outside,List.getElem?_eq_none outside,List.getElem?_replicate]
    split
    · rfl
    · rfl

theorem get_of_zeros {words : Words} (zeros : ∀ word ∈ words, word = 0#64) (index : Nat) : get words index = false := by
  unfold get
  cases present : words[index / 64]? with
  | none => exact BitVec.getLsbD_zero
  | some word =>
    rw [Option.getD_some,zeros word (List.mem_of_getElem? present)]
    exact BitVec.getLsbD_zero

theorem getLsbD_and_pred {word : BitVec 64} (some_ : word ≠ 0#64) (index : Nat) :
    (word &&& (word - 1#64)).getLsbD index = (word.getLsbD index && decide (index ≠ word.ctz.toNat)) := by
  have positive : 0 < word.toNat := Nat.pos_of_ne_zero fun zero => some_ (BitVec.eq_of_toNat_eq zero)
  have before : (word - 1#64).toNat = word.toNat - 1 := by
    have bound := word.isLt
    rw [BitVec.toNat_sub,BitVec.toNat_ofNat]
    omega
  have lowest : word.toNat.testBit word.ctz.toNat = true := BitVec.getLsbD_true_ctz_of_ne_zero some_
  have below : ∀ j < word.ctz.toNat, word.toNat.testBit j = false := fun j low => BitVec.getLsbD_false_of_lt_ctz low
  rw [BitVec.getLsbD_and]
  change (word.toNat.testBit index && (word - 1#64).toNat.testBit index) = (word.toNat.testBit index && _)
  rw [before]
  generalize word.toNat = value at positive lowest below ⊢
  generalize word.ctz.toNat = place at lowest below ⊢
  -- the word is an odd multiple of the power of two of its lowest bit
  have multiple : value % 2^place = 0 := by
    refine Nat.eq_of_testBit_eq fun j => ?_
    rw [Nat.testBit_mod_two_pow,Nat.zero_testBit]
    by_cases low : j < place
    · rw [below j low,Bool.and_false]
    · rw [decide_eq_false low,Bool.false_and]
  have split := Nat.div_add_mod value (2^place)
  rw [multiple,Nat.add_zero] at split
  have odd : value / 2^place % 2 = 1 := by
    have bit := lowest
    rw [← split,Nat.testBit_two_pow_mul,Nat.sub_self,decide_eq_true (Nat.le_refl place),Bool.true_and,
      Nat.testBit_zero] at bit
    exact of_decide_eq_true bit
  have above : value / 2^place = 2 * (value / 2^place / 2) + 1 := by omega
  generalize value / 2^place / 2 = half at above
  rw [above] at split
  have power : 0 < 2^place := Nat.two_pow_pos place
  have pred : value - 1 = 2^place * (2 * half) + (2^place - 1) := by
    rw [← split,Nat.mul_add,Nat.mul_one]
    omega
  have small : 2^place - 1 < 2^place := by omega
  rcases Nat.lt_trichotomy index place with low | rfl | high
  · rw [below index low,Bool.false_and,Bool.false_and]
  · rw [pred,Nat.testBit_two_pow_mul_add _ small,if_neg (Nat.lt_irrefl _),Nat.sub_self,Nat.testBit_zero]
    simp
  · obtain ⟨more,rfl⟩ := Nat.exists_eq_add_of_lt high
    have further : place + more + 1 - place = more + 1 := by omega
    have differ : place + more + 1 ≠ place := by omega
    have back : ¬ place + more + 1 < place := by omega
    rw [pred,Nat.testBit_two_pow_mul_add _ small,if_neg back,← split,Nat.testBit_two_pow_mul,further,
      Nat.testBit_add_one,Nat.testBit_add_one,
      decide_eq_true differ]
    have halves : (2 * half + 1) / 2 = 2 * half / 2 := by omega
    rw [halves,Bool.and_true,decide_eq_true (by omega),Bool.true_and,Bool.and_self]

private theorem and_pred_lt {word : BitVec 64} (some_ : word ≠ 0#64) : (word &&& (word - 1#64)).toNat < word.toNat := by
  have positive : 0 < word.toNat := Nat.pos_of_ne_zero fun zero => some_ (BitVec.eq_of_toNat_eq zero)
  have bound := word.isLt
  have before : (word - 1#64).toNat = word.toNat - 1 := by
    rw [BitVec.toNat_sub,BitVec.toNat_ofNat]
    omega
  rw [BitVec.toNat_and,before]
  exact Nat.lt_of_le_of_lt Nat.and_le_right (by omega)

def bitsOf (word : BitVec 64) : List Nat :=
  if _empty : word = 0#64 then [] else word.ctz.toNat :: bitsOf (word &&& (word - 1#64))
termination_by word.toNat
decreasing_by exact and_pred_lt _empty

theorem mem_bitsOf (word : BitVec 64) (index : Nat) : index ∈ bitsOf word ↔ word.getLsbD index = true := by
  fun_induction bitsOf word with
  | case1 =>
    rw [BitVec.getLsbD_zero]
    exact ⟨fun member => absurd member List.not_mem_nil,fun wrong => absurd wrong (by decide)⟩
  | case2 word some_ ih =>
    rw [List.mem_cons,ih,getLsbD_and_pred some_,Bool.and_eq_true,decide_eq_true_eq]
    constructor
    · rintro (rfl | ⟨bit,_⟩)
      · exact BitVec.getLsbD_true_ctz_of_ne_zero some_
      · exact bit
    · intro bit
      by_cases first : index = word.ctz.toNat
      · exact Or.inl first
      · exact Or.inr ⟨bit,first⟩

theorem sorted_bitsOf (word : BitVec 64) : (bitsOf word).Pairwise (· < ·) := by
  fun_induction bitsOf word with
  | case1 => exact List.Pairwise.nil
  | case2 word some_ ih =>
    refine List.pairwise_cons.mpr ⟨fun later member => ?_,ih⟩
    rw [mem_bitsOf,getLsbD_and_pred some_,Bool.and_eq_true,decide_eq_true_eq] at member
    -- no bit is below the lowest one
    rcases Nat.lt_trichotomy later word.ctz.toNat with low | same | high
    · rw [BitVec.getLsbD_false_of_lt_ctz low] at member
      exact absurd member.1 (by decide)
    · exact absurd same member.2
    · exact high

def scan (length : Nat) : Nat → Words → List Nat
  | _,[] => []
  | base,word :: rest =>
    ((bitsOf word).map (base + ·)).filter (fun index => decide (index < length)) ++ if base + 64 ≥ length then []
      else scan length (base + 64) rest

theorem mem_scan (length base : Nat) (words : Words) (index : Nat) :
    index ∈ scan length base words ↔ base ≤ index ∧ index < length ∧ get words (index - base) = true := by
  induction words generalizing base with
  | nil =>
    refine ⟨fun member => absurd member List.not_mem_nil,fun there => ?_⟩
    rw [get_of_zeros (by simp)] at there
    exact absurd there.2.2 (by decide)
  | cons word rest ih =>
    have here : index ∈ ((bitsOf word).map (base + ·)).filter (fun index => decide (index < length)) ↔
        base ≤ index ∧ index < base + 64 ∧ index < length ∧ word.getLsbD (index - base) = true := by
      rw [List.mem_filter,List.mem_map,decide_eq_true_eq]
      constructor
      · rintro ⟨⟨bit,member,rfl⟩,short⟩
        rw [mem_bitsOf] at member
        have low := BitVec.lt_of_getLsbD member
        exact ⟨Nat.le_add_right _ _,by omega,short,by rwa [Nat.add_sub_cancel_left]⟩
      · rintro ⟨from_,_,short,bit⟩
        exact ⟨⟨index - base,(mem_bitsOf _ _).mpr bit,Nat.add_sub_cancel' from_⟩,short⟩
    have first : base ≤ index → index < base + 64 → get (word :: rest) (index - base) =
      word.getLsbD (index - base) := by
      intro from_ low
      have zero : (index - base) / 64 = 0 := Nat.div_eq_of_lt (by omega)
      have same : (index - base) % 64 = index - base := Nat.mod_eq_of_lt (by omega)
      rw [get,zero,same]
      rfl
    have later : base + 64 ≤ index → get (word :: rest) (index - base) = get rest (index - (base + 64)) := by
      intro high
      have next : (index - base) / 64 = (index - (base + 64)) / 64 + 1 := by omega
      have same : (index - base) % 64 = (index - (base + 64)) % 64 := by omega
      rw [get,get,next,same,List.getElem?_cons_succ]
    rw [scan,List.mem_append,here]
    constructor
    · rintro (⟨from_,low,short,bit⟩ | member)
      · exact ⟨from_,short,by rwa [first from_ low]⟩
      · split at member
        · exact absurd member List.not_mem_nil
        · obtain ⟨high,short,bit⟩ := (ih _).mp member
          exact ⟨by omega,short,by rwa [later high]⟩
    · rintro ⟨from_,short,bit⟩
      rcases Nat.lt_or_ge index (base + 64) with low | high
      · exact Or.inl ⟨from_,low,short,by rwa [← first from_ low]⟩
      · rw [if_neg (by omega)]
        exact Or.inr ((ih _).mpr ⟨high,short,by rwa [← later high]⟩)

theorem sorted_scan (length base : Nat) (words : Words) : (scan length base words).Pairwise (· < ·) := by
  induction words generalizing base with
  | nil => exact List.Pairwise.nil
  | cons word rest ih =>
    rw [scan,List.pairwise_append]
    refine ⟨?_,?_,?_⟩
    · exact (List.pairwise_map.mpr ((sorted_bitsOf word).imp fun less => Nat.add_lt_add_left less base)).filter _
    · split
      · exact List.Pairwise.nil
      · exact ih _
    · intro near member far behind
      obtain ⟨bit,bitMember,rfl⟩ := List.mem_map.mp (List.mem_filter.mp member).1
      have low := BitVec.lt_of_getLsbD ((mem_bitsOf _ _).mp bitMember)
      split at behind
      · exact absurd behind List.not_mem_nil
      · have high := ((mem_scan _ _ _ _).mp behind).1
        omega

theorem scan_eq (length : Nat) (words : Words) : scan length 0 words = (List.range length).filter (get words) := by
  refine (sorted_scan length 0 words).eq_of_mem_iff (List.pairwise_lt_range.filter _) fun index => ?_
  rw [mem_scan,List.mem_filter,List.mem_range]
  exact ⟨fun there => there.2,fun there => ⟨Nat.zero_le _,there⟩⟩

end ApexBase.Library.WordSet
