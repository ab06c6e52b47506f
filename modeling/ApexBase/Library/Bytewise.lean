import Mathlib.Data.List.Basic
import Mathlib.Data.List.Infix
import Mathlib.Data.UInt

/-! Texts that are cut at positions counted in the bytes of their UTF-8 form. A position inside a
character, or beyond the text, cannot be cut at. -/
namespace ApexBase.Library.Bytewise

def bytesLen (text : List Char) : Nat := (text.map Char.utf8Size).sum

@[simp] theorem bytesLen_nil : bytesLen [] = 0 := rfl

@[simp] theorem bytesLen_cons (c : Char) (text : List Char) : bytesLen (c :: text) = c.utf8Size + bytesLen text := rfl

@[simp] theorem bytesLen_append (front back : List Char) :
    bytesLen (front ++ back) = bytesLen front + bytesLen back := by
  rw [bytesLen,List.map_append,List.sum_append]
  rfl

def cut : List Char → Nat → Option (List Char × List Char)
  | text,0 => some ([],text)
  | [],_ + 1 => none
  | c :: text,position + 1 =>
    if c.utf8Size ≤ position + 1 then (cut text (position + 1 - c.utf8Size)).map fun parts => (c :: parts.1,parts.2)
    else none

def isBoundary (text : List Char) (position : Nat) : Bool := (cut text position).isSome

def upTo (text : List Char) (position : Nat) : Option (List Char) := (cut text position).map (·.1)

def onFrom (text : List Char) (position : Nat) : Option (List Char) := (cut text position).map (·.2)

def between (text : List Char) (start stop : Nat) : Option (List Char) :=
  if start ≤ stop then (upTo text stop).bind (onFrom · start) else none

section Cuts
variable {text front back : List Char} {position start stop : Nat}

theorem cut_append (front back : List Char) : cut (front ++ back) (bytesLen front) = some (front,back) := by
  induction front with
  | nil => cases back <;> rfl
  | cons c rest ih =>
    have positive := c.utf8Size_pos
    obtain ⟨before,is⟩ : ∃ before, c.utf8Size + bytesLen rest = before + 1 := ⟨c.utf8Size + bytesLen rest - 1,by omega⟩
    rw [List.cons_append,bytesLen_cons,is,cut,if_pos (by omega),← is,Nat.add_sub_cancel_left,ih]
    rfl

theorem cut_some (found : cut text position = some (front,back)) :
    text = front ++ back ∧ bytesLen front = position := by
  induction text generalizing position front back with
  | nil =>
    cases position with
    | zero =>
      cases found
      exact ⟨rfl,rfl⟩
    | succ position => cases found
  | cons c rest ih =>
    cases position with
    | zero =>
      cases found
      exact ⟨rfl,rfl⟩
    | succ position =>
      rw [cut] at found
      split at found
      · rename_i room
        obtain ⟨⟨before,behind⟩,inner,same⟩ := Option.map_eq_some_iff.mp found
        cases same
        obtain ⟨rfl,size⟩ := ih inner
        exact ⟨rfl,by rw [bytesLen_cons,size]; omega⟩
      · cases found

theorem isBoundary_iff : isBoundary text position = true ↔ ∃ front back, text = front ++ back ∧
    bytesLen front = position := by
  rw [isBoundary,Option.isSome_iff_exists]
  constructor
  · rintro ⟨⟨front,back⟩,found⟩
    exact ⟨front,back,cut_some found⟩
  · rintro ⟨front,back,rfl,rfl⟩
    exact ⟨_,cut_append front back⟩

theorem upTo_append (front back : List Char) : upTo (front ++ back) (bytesLen front) = some front := by
  rw [upTo,cut_append]
  rfl

theorem onFrom_append (front back : List Char) : onFrom (front ++ back) (bytesLen front) = some back := by
  rw [onFrom,cut_append]
  rfl

theorem between_append (front middle back : List Char) :
    between (front ++ (middle ++ back)) (bytesLen front) (bytesLen front + bytesLen middle) = some middle := by
  have first := upTo_append (front ++ middle) back
  rw [bytesLen_append,List.append_assoc] at first
  rw [between,if_pos (Nat.le_add_right _ _),first]
  exact onFrom_append front middle

theorem upTo_isSome : (upTo text position).isSome = isBoundary text position := Option.isSome_map

theorem onFrom_isSome : (onFrom text position).isSome = isBoundary text position := Option.isSome_map

theorem isBoundary_narrow (narrow : ∀ c ∈ text, c.utf8Size = 1) :
    isBoundary text position = true ↔ position ≤ text.length := by
  have size {part : List Char} (narrow : ∀ c ∈ part, c.utf8Size = 1) : bytesLen part = part.length := by
    induction part with
    | nil => rfl
    | cons c rest ih =>
      rw [bytesLen_cons,narrow c List.mem_cons_self,ih fun other member => narrow other (List.mem_cons_of_mem c member),
        List.length_cons,Nat.add_comm]
  rw [isBoundary_iff]
  constructor
  · rintro ⟨front,back,rfl,rfl⟩
    rw [size fun c member => narrow c (List.mem_append_left _ member),List.length_append]
    exact Nat.le_add_right _ _
  · intro inside
    refine ⟨text.take position,text.drop position,(List.take_append_drop _ _).symm,?_⟩
    rw [size fun c member => narrow c (List.mem_of_mem_take member),List.length_take,Nat.min_eq_left inside]

end Cuts

def takeBytes : Nat → List Char → List Char
  | _,[] => []
  | budget,c :: text => if c.utf8Size ≤ budget then c :: takeBytes (budget - c.utf8Size) text else []

theorem takeBytes_le (budget : Nat) (text : List Char) : bytesLen (takeBytes budget text) ≤ budget := by
  induction text generalizing budget with
  | nil => exact Nat.zero_le _
  | cons c rest ih =>
    rw [takeBytes]
    split
    · have tail := ih (budget - c.utf8Size)
      rw [bytesLen_cons]
      omega
    · exact Nat.zero_le _

theorem takeBytes_prefix (budget : Nat) (text : List Char) : ∃ rest, text = takeBytes budget text ++ rest := by
  induction text generalizing budget with
  | nil => exact ⟨[],rfl⟩
  | cons c rest ih =>
    rw [takeBytes]
    split
    · obtain ⟨tail,is⟩ := ih (budget - c.utf8Size)
      exact ⟨tail,by rw [List.cons_append,← is]⟩
    · exact ⟨c :: rest,rfl⟩

theorem takeBytes_all {budget : Nat} {text : List Char} (fits : bytesLen text ≤ budget) :
    takeBytes budget text = text := by
  induction text generalizing budget with
  | nil => rfl
  | cons c rest ih =>
    rw [bytesLen_cons] at fits
    rw [takeBytes,if_pos (by omega),ih (by omega)]

theorem boundary_le {text : List Char} {position budget : Nat} (boundary : isBoundary text position = true)
    (inside : position ≤ budget) :
    position ≤ bytesLen (takeBytes budget text) := by
  obtain ⟨front,back,rfl,rfl⟩ := isBoundary_iff.mp boundary
  clear boundary
  induction front generalizing budget with
  | nil => exact Nat.zero_le _
  | cons c rest ih =>
    rw [bytesLen_cons] at inside ⊢
    rw [List.cons_append,takeBytes,if_pos (by omega),bytesLen_cons]
    exact Nat.add_le_add_left (ih (by omega)) _

def splitFirst (pattern : List Char) : List Char → Option (List Char × List Char)
  | [] => if pattern.isPrefixOf [] then some ([],[]) else none
  | c :: text =>
    if pattern.isPrefixOf (c :: text) then some ([],(c :: text).drop pattern.length)
    else (splitFirst pattern text).map fun parts => (c :: parts.1,parts.2)

def splitLast (pattern : List Char) : List Char → Option (List Char × List Char)
  | [] => if pattern.isPrefixOf [] then some ([],[]) else none
  | c :: text =>
    match splitLast pattern text with
    | some parts => some (c :: parts.1,parts.2)
    | none => if pattern.isPrefixOf (c :: text) then some ([],(c :: text).drop pattern.length) else none

def find (pattern text : List Char) : Option Nat := (splitFirst pattern text).map (bytesLen ·.1)

def rfind (pattern text : List Char) : Option Nat := (splitLast pattern text).map (bytesLen ·.1)

def contains (pattern text : List Char) : Bool := (splitFirst pattern text).isSome

def findChar (p : Char → Bool) : List Char → Option Nat
  | [] => none
  | c :: text => if p c then some 0 else (findChar p text).map (c.utf8Size + ·)

section Search
variable {pattern text before behind : List Char} {position : Nat}

private theorem at_start (here : pattern.isPrefixOf text = true) : text = pattern ++ text.drop pattern.length := by
  obtain ⟨rest,rfl⟩ := List.isPrefixOf_iff_prefix.mp here
  rw [List.drop_left]

theorem splitFirst_some (found : splitFirst pattern text = some (before,behind)) :
    text = before ++ (pattern ++ behind) := by
  induction text generalizing before behind with
  | nil =>
    rw [splitFirst] at found
    split at found
    · rename_i here
      cases found
      exact (List.append_nil pattern).trans (List.prefix_nil.mp (List.isPrefixOf_iff_prefix.mp here)) |>.symm
    · cases found
  | cons c rest ih =>
    rw [splitFirst] at found
    split at found
    · rename_i here
      cases found
      exact at_start here
    · obtain ⟨⟨front,back⟩,inner,same⟩ := Option.map_eq_some_iff.mp found
      cases same
      rw [ih inner]
      rfl

theorem splitLast_some (found : splitLast pattern text = some (before,behind)) :
    text = before ++ (pattern ++ behind) := by
  induction text generalizing before behind with
  | nil =>
    rw [splitLast] at found
    split at found
    · rename_i here
      cases found
      exact (List.append_nil pattern).trans (List.prefix_nil.mp (List.isPrefixOf_iff_prefix.mp here)) |>.symm
    · cases found
  | cons c rest ih =>
    rw [splitLast] at found
    split at found
    · rename_i parts inner
      cases found
      rw [ih (by rw [inner])]
      rfl
    · split at found
      · rename_i here
        cases found
        exact at_start here
      · cases found

theorem find_append (before pattern behind : List Char) :
    ∃ position, find pattern (before ++ (pattern ++ behind)) = some position := by
  have here {text : List Char} (starts : pattern.isPrefixOf text = true) : ∃ parts, splitFirst pattern text =
    some parts := by
    cases text with
    | nil => exact ⟨_,if_pos starts⟩
    | cons c text => exact ⟨_,if_pos starts⟩
  suffices found : ∃ parts, splitFirst pattern (before ++ (pattern ++ behind)) = some parts by
    obtain ⟨parts,is⟩ := found
    exact ⟨_,by rw [find,is]; rfl⟩
  induction before with
  | nil => exact here (List.isPrefixOf_iff_prefix.mpr (List.prefix_append _ _))
  | cons c before ih =>
    obtain ⟨parts,is⟩ := ih
    rw [List.cons_append,splitFirst,is]
    split
    · exact ⟨_,rfl⟩
    · exact ⟨_,rfl⟩

theorem contains_iff : contains pattern text = true ↔ pattern <:+: text := by
  constructor
  · intro found
    obtain ⟨⟨before,behind⟩,split⟩ := Option.isSome_iff_exists.mp found
    exact ⟨before,behind,by rw [splitFirst_some split,List.append_assoc]⟩
  · rintro ⟨before,behind,rfl⟩
    obtain ⟨position,found⟩ := find_append before pattern behind
    obtain ⟨parts,split,_⟩ := Option.map_eq_some_iff.mp found
    rw [List.append_assoc]
    exact Option.isSome_iff_exists.mpr ⟨parts,split⟩

theorem find_some (found : find pattern text = some position) :
    ∃ before behind, text = before ++ (pattern ++ behind) ∧ bytesLen before = position := by
  obtain ⟨⟨before,behind⟩,split,size⟩ := Option.map_eq_some_iff.mp found
  exact ⟨before,behind,splitFirst_some split,size⟩

theorem rfind_some (found : rfind pattern text = some position) :
    ∃ before behind, text = before ++ (pattern ++ behind) ∧ bytesLen before = position := by
  obtain ⟨⟨before,behind⟩,split,size⟩ := Option.map_eq_some_iff.mp found
  exact ⟨before,behind,splitLast_some split,size⟩

theorem findChar_some {p : Char → Bool} (found : findChar p text = some position) :
    ∃ before c behind, text = before ++ c :: behind ∧ bytesLen before = position ∧ p c = true := by
  induction text generalizing position with
  | nil => cases found
  | cons c rest ih =>
    rw [findChar] at found
    split at found
    · rename_i here
      cases found
      exact ⟨[],c,rest,rfl,rfl,here⟩
    · obtain ⟨inner,there,rfl⟩ := Option.map_eq_some_iff.mp found
      obtain ⟨before,d,behind,rfl,rfl,here⟩ := ih there
      exact ⟨c :: before,d,behind,rfl,rfl,here⟩

end Search

end ApexBase.Library.Bytewise
