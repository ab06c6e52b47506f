import Mathlib.Data.List.Infix
import Mathlib.Data.List.TakeDrop
import Mathlib.Data.UInt

/-! A log with a stack of named marks. A mark remembers how long the log was; rolling
back to a name cuts the log at the last mark of that name and drops this mark and all
later ones, and releasing a name only drops the mark. -/
namespace ApexBase.Library

structure UndoLog (N W : Type) where
  entries : List W
  marks : List (N × Nat)

namespace UndoLog

inductive Op (N W : Type)
  | append (entry : W)
  | mark (name : N)
  | release (name : N)
  | rollback (name : N)

variable {N W : Type} [BEq N]

def position (marks : List (N × Nat)) (name : N) : Option Nat :=
  (marks.reverse.findIdx? (fun mark => mark.1 == name)).map (fun i => marks.length - 1 - i)

def apply (log : UndoLog N W) : Op N W → Option (UndoLog N W)
  | .append entry => some {log with entries := log.entries ++ [entry]}
  | .mark name => some {log with marks := log.marks ++ [(name,log.entries.length)]}
  | .release name => (position log.marks name).map fun pos => {log with marks := log.marks.eraseIdx pos}
  | .rollback name => (position log.marks name).map fun pos =>
    ⟨log.entries.take ((log.marks[pos]?.map (·.2)).getD 0),log.marks.take pos⟩

/-- The marks grow along the stack and stay inside the log. -/
structure WellMarked (log : UndoLog N W) : Prop where
  ordered : log.marks.Pairwise (fun below above => below.2 ≤ above.2)
  bounded : ∀ mark ∈ log.marks, mark.2 ≤ log.entries.length

def spares (depth : Nat) (log : UndoLog N W) : Op N W → Bool
  | .release name | .rollback name => (position log.marks name).all fun pos => decide (depth < pos)
  | _ => true

/-- What was there when the name was marked is still there, and so is the mark. -/
structure Extends (base : UndoLog N W) (name : N) (log : UndoLog N W) : Prop where
  entries : base.entries <+: log.entries
  marks : base.marks ++ [(name,base.entries.length)] <+: log.marks

variable {log next base : UndoLog N W} {name : N}

theorem position_some [LawfulBEq N] {marks : List (N × Nat)} {pos : Nat} (found : position marks name = some pos) :
    ∃ inside : pos < marks.length, marks[pos].1 = name := by
  obtain ⟨i,first,rfl⟩ := Option.map_eq_some_iff.mp found
  obtain ⟨early,same,_⟩ := List.findIdx?_eq_some_iff_getElem.mp first
  rw [List.length_reverse] at early
  rw [List.getElem_reverse] at same
  exact ⟨by omega,eq_of_beq same⟩

omit [BEq N] in
theorem wellMarked_empty : WellMarked (⟨[],[]⟩ : UndoLog N W) := ⟨.nil,by simp⟩

theorem WellMarked.apply [LawfulBEq N] {op : Op N W} (marked : log.WellMarked) (done : log.apply op = some next) :
    next.WellMarked := by
  cases op with
  | append entry =>
    cases done
    refine ⟨marked.ordered,?_⟩
    intro mark member
    have inside := marked.bounded mark member
    simp only [List.length_append,List.length_singleton]
    omega
  | mark name =>
    cases done
    refine ⟨?_,?_⟩
    · refine List.pairwise_append.mpr ⟨marked.ordered,List.pairwise_singleton _ _,?_⟩
      intro below member above new
      rw [List.mem_singleton.mp new]
      exact marked.bounded below member
    · intro mark member
      rcases List.mem_append.mp member with old | new
      · exact marked.bounded mark old
      · rw [List.mem_singleton.mp new]
  | release name =>
    obtain ⟨pos,_,rfl⟩ := Option.map_eq_some_iff.mp done
    exact ⟨marked.ordered.sublist (List.eraseIdx_sublist _ _),fun mark member =>
      marked.bounded mark (List.mem_of_mem_eraseIdx member)⟩
  | rollback name =>
    obtain ⟨pos,found,rfl⟩ := Option.map_eq_some_iff.mp done
    obtain ⟨inside,_⟩ := position_some found
    refine ⟨marked.ordered.sublist (List.take_sublist _ _),?_⟩
    intro mark member
    -- A mark below the one rolled back to is no later than it.
    obtain ⟨i,early,rfl⟩ := List.mem_take_iff_getElem.mp member
    have below := (List.pairwise_iff_getElem.mp marked.ordered) i pos (by omega) inside (by omega)
    have kept := marked.bounded _ (List.getElem_mem inside)
    simp only [List.getElem?_eq_getElem inside,Option.map_some,Option.getD_some,List.length_take]
    omega

omit [BEq N] in
theorem extends_mark (base : UndoLog N W) (name : N) :
    Extends base name {base with marks := base.marks ++ [(name,base.entries.length)]} :=
  ⟨List.prefix_refl _,List.prefix_refl _⟩

private theorem prefix_take {α : Type} {front list : List α} (count : Nat) (starts : front <+: list)
    (long : front.length ≤ count) :
    front <+: list.take count :=
  List.prefix_take_iff.mpr ⟨starts,long⟩

theorem Extends.apply [LawfulBEq N] {op : Op N W} (extends_ : Extends base name log) (marked : log.WellMarked)
    (spared : log.spares base.marks.length op = true) (done : log.apply op = some next) : Extends base name next := by
  cases op with
  | append entry =>
    cases done
    exact ⟨extends_.entries.trans (List.prefix_append _ _),extends_.marks⟩
  | mark other =>
    cases done
    exact ⟨extends_.entries,extends_.marks.trans (List.prefix_append _ _)⟩
  | release other =>
    obtain ⟨pos,found,rfl⟩ := Option.map_eq_some_iff.mp done
    have above : base.marks.length < pos := by simpa [spares,found] using spared
    refine ⟨extends_.entries,?_⟩
    have front := prefix_take pos extends_.marks (by simp; omega)
    exact front.trans (by rw [List.eraseIdx_eq_take_drop_succ]; exact List.prefix_append _ _)
  | rollback other =>
    obtain ⟨pos,found,rfl⟩ := Option.map_eq_some_iff.mp done
    have above : base.marks.length < pos := by simpa [spares,found] using spared
    obtain ⟨inside,_⟩ := position_some found
    refine ⟨prefix_take _ extends_.entries ?_,prefix_take _ extends_.marks (by simp; omega)⟩
    -- The mark is no later than the one rolled back to.
    have below : base.marks.length < log.marks.length := by omega
    have here : log.marks[base.marks.length] = (name,base.entries.length) := by
      rw [← extends_.marks.getElem (by simp)]
      simp
    have later := (List.pairwise_iff_getElem.mp marked.ordered) base.marks.length pos (by omega) inside above
    rw [here] at later
    simpa [List.getElem?_eq_getElem inside] using later

theorem Extends.rollback (extends_ : Extends base name log) (last : position log.marks name = some base.marks.length) :
    log.apply (.rollback name) = some base := by
  have room := extends_.marks.length_le
  rw [List.length_append,List.length_singleton] at room
  have here : log.marks[base.marks.length]? = some (name,base.entries.length) := by
    rw [List.getElem?_eq_getElem (by omega),← extends_.marks.getElem (by simp)]
    simp
  have marks : log.marks.take base.marks.length = base.marks :=
    (List.prefix_iff_eq_take.mp ((List.prefix_append _ _).trans extends_.marks)).symm
  simp only [UndoLog.apply,last,Option.map_some,here,Option.getD_some,marks,
    ← List.prefix_iff_eq_take.mp extends_.entries]

end UndoLog

end ApexBase.Library
