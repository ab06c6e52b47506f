import Mathlib.Data.List.Basic
import Mathlib.Logic.Function.Basic
import Mathlib.Order.MinMax
import Mathlib.Data.UInt

/-! A snapshot and a log behind it. Operations each write one key; what is recovered is the
log replayed over the snapshot. The log may lag behind the snapshot, and the records that
wait for the log may too, as long as every key ends with a version that is late enough. -/
namespace ApexBase.Library

/-- The operations since the base, how many are flushed, the log, the records that wait for
it, how many of these are older than the snapshot, and the versions in the snapshot. -/
structure Journal (K V Op : Type) where
  base : K → V
  ops : List Op
  flushed : Nat
  log : List Op
  pending : List Op
  stale : Nat
  saved : K → V

namespace Journal

section Replay
variable {K V Op : Type} [DecidableEq K] (key : Op → K) (value : Op → V)

def replay (ops : List Op) (start : K → V) :
    K → V := ops.foldl (fun contents op => Function.update contents (key op) (value op)) start

def Touches (ops : List Op) (k : K) : Prop := ∃ op ∈ ops, key op = k

def versions (base : K → V) (ops : List Op) (n : Nat) : K → V := replay key value (ops.take n) base

variable {key value} {base start other : K → V} {ops records more : List Op} {k : K} {n m : Nat}

theorem replay_append (first second : List Op) (start : K → V) :
    replay key value (first ++ second) start = replay key value second (replay key value first start) :=
      List.foldl_append

theorem replay_untouched (untouched : ¬ Touches key ops k) (start : K → V) :
    replay key value ops start k = start k := by
  induction ops generalizing start with
  | nil => rfl
  | cons op rest ih =>
    have here : key op ≠ k := fun same => untouched ⟨op,List.mem_cons_self,same⟩
    have later : ¬ Touches key rest k := fun ⟨other,member,same⟩ => untouched ⟨other,List.mem_cons_of_mem _ member,same⟩
    exact (ih later _).trans (Function.update_of_ne (Ne.symm here) _ _)

theorem replay_touched (touched : Touches key ops k) (start other : K → V) :
    replay key value ops start k = replay key value ops other k := by
  induction ops generalizing start other with
  | nil =>
    obtain ⟨_,member,_⟩ := touched
    cases member
  | cons op rest ih =>
    by_cases later : Touches key rest k
    · exact ih later _ _
    · have here : key op = k := by
        obtain ⟨found,member,same⟩ := touched
        rcases List.mem_cons.mp member with rfl | further
        · exact same
        · exact absurd ⟨found,further,same⟩ later
      have written : ∀ start : K → V, replay key value (op :: rest) start k = value op := fun start =>
        (replay_untouched later _).trans (by subst here; exact Function.update_self _ _ _)
      rw [written start,written other]

omit [DecidableEq K] in
theorem touches_append : Touches key (ops ++ more) k ↔ Touches key ops k ∨ Touches key more k := by
  simp only [Touches,List.mem_append,or_and_right,exists_or]

theorem versions_add (base : K → V) (ops : List Op) (n m : Nat) :
    versions key value base ops (n + m) = replay key value ((ops.drop n).take m) (versions key value base ops n) := by
  rw [versions,List.take_add,replay_append]
  rfl

theorem versions_append (base : K → V) (ops more : List Op) (inside : n ≤ ops.length) :
    versions key value base (ops ++ more) n = versions key value base ops n := by
  rw [versions,List.take_append_of_le_length inside]
  rfl

theorem versions_stable (base : K → V) (untouched : ¬ Touches key (ops.drop n) k) (later : n ≤ m) :
    versions key value base ops m k = versions key value base ops n k := by
  obtain ⟨more,rfl⟩ := Nat.exists_eq_add_of_le later
  rw [versions_add,replay_untouched]
  exact fun ⟨op,member,same⟩ => untouched ⟨op,List.mem_of_mem_take member,same⟩

variable (key value) in
/-- Records that leave every key they write as it was after the first operations. -/
def Ends (base : K → V) (ops : List Op) (records : List Op) (n : Nat) : Prop :=
  ∀ k, Touches key records k → ∀ start : K → V, replay key value records start k = versions key value base ops n k

theorem Ends.nil (base : K → V) (ops : List Op) (n : Nat) : Ends key value base ops [] n := by
  rintro k ⟨_,member,_⟩
  cases member

theorem Ends.grow (ends : Ends key value base ops records n) (inside : n ≤ ops.length) (more : List Op) :
    Ends key value base (ops ++ more) records n := by
  intro k touched start
  rw [ends k touched start,versions_append base ops more inside]

theorem Ends.follow (ends : Ends key value base ops records n) (m : Nat) :
    Ends key value base ops (records ++ (ops.drop n).take m) (n + m) := by
  intro k touched start
  rw [replay_append,versions_add]
  by_cases later : Touches key ((ops.drop n).take m) k
  · exact replay_touched later _ _
  · rw [replay_untouched later,replay_untouched later]
    exact ends k ((touches_append.mp touched).resolve_right later) start

theorem Ends.append (ends : Ends key value base ops records m) (newer : Ends key value base ops more n)
    (same : ∀ k, ¬ Touches key more k → versions key value base ops m k = versions key value base ops n k) :
    Ends key value base ops (records ++ more) n := by
  intro k touched start
  rw [replay_append]
  by_cases later : Touches key more k
  · exact newer k later _
  · rw [replay_untouched later,← same k later]
    exact ends k ((touches_append.mp touched).resolve_right later) start

end Replay

variable {K V Op : Type} [DecidableEq K]

/-- The log as a crash leaves it, if need be inside an append that has written this many records. -/
def crashed (journal : Journal K V Op) : Option Nat → List Op
  | none => journal.log
  | some count => journal.log ++ journal.pending.take count

/-- The log has what was flushed, the records that wait for it follow an old part with the
operations from `first` on, and where the log is silent the snapshot is late enough. -/
structure Kept (key : Op → K) (value : Op → V) (journal : Journal K V Op) (first snapshot : Nat) (old : List Op) :
    Prop where
  flushed_le : journal.flushed ≤ first
  first_le : first ≤ snapshot
  inside : snapshot ≤ journal.ops.length
  waiting : journal.pending = old ++ journal.ops.drop first
  older : old.length = journal.stale
  old_ends : Ends key value journal.base journal.ops old first
  log_ends : Ends key value journal.base journal.ops journal.log journal.flushed
  even : first = journal.flushed ∨ journal.log = []
  written : ∀ k, ¬ Touches key journal.log k → journal.saved k = versions key value journal.base journal.ops snapshot k

def Ahead (key : Op → K) (value : Op → V) (journal : Journal K V Op) (first n count : Nat) : Prop :=
  ∃ front, journal.pending = front ++ journal.ops.drop (max first n) ∧ front.length = count ∧
    Ends key value journal.base journal.ops front (max first n)

theorem Ahead.change {key : Op → K} {value : Op → V} {journal : Journal K V Op} {first n count : Nat}
    (ahead : Ahead key value journal first n count) (inside : max first n ≤ journal.ops.length) (more : List Op) :
    Ahead key value {journal with ops := journal.ops ++ more,pending := journal.pending ++ more} first n count := by
  obtain ⟨front,waiting,same,ends⟩ := ahead
  refine ⟨front,?_,same,ends.grow inside more⟩
  simp only [waiting,List.drop_append_of_le_length inside,List.append_assoc]

theorem ahead_append (key : Op → K) (value : Op → V) (journal : Journal K V Op) {n : Nat}
    (inside : n ≤ journal.ops.length) :
    Ahead key value {journal with
      log := journal.log ++ journal.pending,pending := [],flushed := journal.ops.length,stale := 0}
      journal.ops.length n 0 := by
  refine ⟨[],?_,rfl,Ends.nil _ _ _⟩
  rw [max_eq_left inside]
  simp

namespace Kept
variable {key : Op → K} {value : Op → V} {journal : Journal K V Op} {first snapshot n : Nat} {old : List Op}
  (kept : Kept key value journal first snapshot old)
include kept

/-- After a crash, also inside an append that has got past the old records, every key has a
version that is not older than the flushed one. -/
theorem recovers (torn : Option Nat) (past : ∀ k, torn = some k → journal.stale ≤ k) (k : K) :
    ∃ n, journal.flushed ≤ n ∧ n ≤ journal.ops.length ∧
      replay key value (journal.crashed torn) journal.saved k = versions key value journal.base journal.ops n k := by
  have within := kept.first_le.trans kept.inside
  cases torn with
  | none =>
    by_cases touched : Touches key journal.log k
    · exact ⟨journal.flushed,Nat.le_refl _,kept.flushed_le.trans within,kept.log_ends k touched _⟩
    · exact ⟨snapshot,kept.flushed_le.trans kept.first_le,kept.inside,
        (replay_untouched touched _).trans (kept.written k touched)⟩
  | some count =>
    obtain ⟨more,rfl⟩ := Nat.exists_eq_add_of_le (past count rfl)
    have taken : journal.pending.take (journal.stale + more) = old ++ (journal.ops.drop first).take more := by
      rw [kept.waiting,← kept.older,List.take_length_add_append]
    simp only [crashed,taken]
    by_cases written : Touches key (old ++ (journal.ops.drop first).take more) k
    · rw [replay_append,kept.old_ends.follow more k written]
      by_cases atop : first + more ≤ journal.ops.length
      · exact ⟨first + more,kept.flushed_le.trans (Nat.le_add_right _ _),atop,rfl⟩
      · refine ⟨journal.ops.length,kept.flushed_le.trans within,Nat.le_refl _,?_⟩
        rw [versions,versions,List.take_of_length_le (by omega),List.take_length]
    · rw [replay_append,replay_untouched written]
      by_cases touched : Touches key journal.log k
      · exact ⟨journal.flushed,Nat.le_refl _,kept.flushed_le.trans within,kept.log_ends k touched _⟩
      · exact ⟨snapshot,kept.flushed_le.trans kept.first_le,kept.inside,
          (replay_untouched touched _).trans (kept.written k touched)⟩

theorem change (more : List Op) : Kept key value {journal with
    ops := journal.ops ++ more,pending := journal.pending ++ more} first snapshot old := by
  have within := kept.first_le.trans kept.inside
  refine ⟨kept.flushed_le,kept.first_le,?_,?_,kept.older,kept.old_ends.grow within more,
    kept.log_ends.grow (kept.flushed_le.trans within) more,kept.even,fun k untouched => ?_⟩
  · simp only [List.length_append]
    exact kept.inside.trans (Nat.le_add_right _ _)
  · simp only [kept.waiting,List.drop_append_of_le_length within,List.append_assoc]
  · exact (kept.written k untouched).trans (by rw [versions_append _ _ _ kept.inside])

theorem pending_ends : Ends key value journal.base journal.ops journal.pending journal.ops.length := by
  have within := kept.first_le.trans kept.inside
  have all : (journal.ops.drop first).take (journal.ops.length - first) = journal.ops.drop first :=
    List.take_of_length_le (by simp)
  have whole : first + (journal.ops.length - first) = journal.ops.length := by omega
  have follow := kept.old_ends.follow (journal.ops.length - first)
  rwa [all,whole,← kept.waiting] at follow

theorem append : Kept key value {journal with
    log := journal.log ++ journal.pending,pending := [],flushed := journal.ops.length,stale := 0}
    journal.ops.length journal.ops.length [] := by
  have within := kept.first_le.trans kept.inside
  have rest : ∀ k, ¬ Touches key journal.pending k → ¬ Touches key (journal.ops.drop first) k := by
    intro k untouched touched
    rw [kept.waiting] at untouched
    exact untouched (touches_append.mpr (Or.inr touched))
  refine ⟨Nat.le_refl _,Nat.le_refl _,Nat.le_refl _,by simp,rfl,Ends.nil _ _ _,?_,Or.inl rfl,fun k untouched => ?_⟩
  · rcases kept.even with same | empty
    · refine kept.log_ends.append kept.pending_ends fun k untouched => ?_
      rw [← same]
      exact (versions_stable journal.base (rest k untouched) within).symm
    · rw [empty,List.nil_append]
      exact kept.pending_ends
  · obtain ⟨inLog,inPending⟩ := not_or.mp (fun either => untouched (touches_append.mpr either))
    refine (kept.written k inLog).trans ?_
    rw [versions_stable journal.base (rest k inPending) kept.first_le]
    exact (versions_stable journal.base (rest k inPending) within).symm

theorem replace (since : first ≤ n) (inside : n ≤ journal.ops.length) :
    Kept key value {journal with saved := versions key value journal.base journal.ops n} first n old :=
  ⟨kept.flushed_le,since,inside,kept.waiting,kept.older,kept.old_ends,kept.log_ends,kept.even,fun _ _ => rfl⟩

theorem truncate (since : first ≤ n) (inside : n ≤ journal.ops.length)
    (same : journal.saved = versions key value journal.base journal.ops n) :
    Kept key value {journal with log := []} first n old :=
  ⟨kept.flushed_le,since,inside,kept.waiting,kept.older,kept.old_ends,Ends.nil _ _ _,Or.inr rfl,fun k _ =>
    congrFun same k⟩

theorem ahead : Ahead key value journal first journal.ops.length journal.pending.length := by
  have last := max_eq_right (kept.first_le.trans kept.inside)
  refine ⟨journal.pending,?_,rfl,?_⟩
  · rw [last,List.drop_length,List.append_nil]
  · rw [last]
    exact kept.pending_ends

theorem finish {count : Nat} (ahead : Ahead key value journal first n count) (late : n ≤ snapshot)
    (even : journal.log = [] ∨ n ≤ journal.flushed) :
    ∃ old, Kept key value {journal with flushed := max journal.flushed n,stale := count} (max first n)
      snapshot old := by
  obtain ⟨front,waiting,rfl,ends⟩ := ahead
  refine ⟨front,?_⟩
  refine ⟨?_,max_le kept.first_le late,kept.inside,waiting,rfl,ends,?_,?_,kept.written⟩
  · exact max_le_max kept.flushed_le (Nat.le_refl n)
  · rcases even with empty | before
    · simp only [empty]
      exact Ends.nil _ _ _
    · simp only [max_eq_left before]
      exact kept.log_ends
  · rcases even with empty | before
    · exact Or.inr empty
    · refine kept.even.imp (fun same => ?_) id
      rw [same]

end Kept

theorem kept_snapshot (key : Op → K) (value : Op → V) (base : K → V) (ops : List Op) {flushed : Nat}
    (inside : flushed ≤ ops.length) :
    Kept key value ⟨base,ops,flushed,[],[],0,versions key value base ops ops.length⟩ ops.length ops.length [] :=
  ⟨inside,Nat.le_refl _,Nat.le_refl _,by simp,rfl,Ends.nil _ _ _,Ends.nil _ _ _,Or.inr rfl,fun _ _ => rfl⟩

theorem kept_recovered (key : Op → K) (value : Op → V) (log : List Op) (saved : K → V) :
    Kept key value ⟨replay key value log saved,[],0,log,[],0,saved⟩ 0 0 [] := by
  refine ⟨Nat.le_refl _,Nat.le_refl _,Nat.le_refl _,rfl,rfl,Ends.nil _ _ _,fun k touched start => ?_,Or.inl rfl,
    fun k untouched => ?_⟩
  · exact replay_touched touched _ _
  · exact (replay_untouched untouched _).symm

end Journal

end ApexBase.Library
