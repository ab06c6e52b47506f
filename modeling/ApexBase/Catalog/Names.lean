import ApexBase.Catalog.Slots

/-! A catalog file as a set of names. The slots are those of a pool of names, and each operation
on the file is one on the pool as long as the names fit into a slot. -/
namespace ApexBase.Catalog
open Library Library.Wire CatalogFile

def Fit (name : String) : Prop := name ≠ "" ∧ (utf8 name).length ≤ slotNameCap

instance (name : String) : Decidable (Fit name) := inferInstanceAs (Decidable (_ ∧ _))

theorem utf8_ne_nil {name : String} (some_ : name ≠ "") : utf8 name ≠ [] := by
  intro empty
  have decoded := fromUtf8_utf8 name
  rw [empty] at decoded
  have none_ : fromUtf8 [] = some "" := fromUtf8_utf8 ""
  exact some_ (Option.some.inj (decoded.symm.trans none_))

variable (crc32 : Bytes → UInt32)

def render : Option String → Slot
  | none => .zeroed
  | some name => slotOf crc32 name

variable {crc32 : Bytes → UInt32} {path : String}

section Slot
variable {name : String}

theorem slotOf_nameLen (fit : Fit name) : (slotOf crc32 name).nameLen = (utf8 name).length := Nat.min_eq_left fit.2

theorem slotOf_name (fit : Fit name) :
    (slotOf crc32 name).name.take (min (slotOf crc32 name).nameLen slotNameCap) = utf8 name := by
  rw [slotOf_nameLen fit,Nat.min_eq_left fit.2]
  change (List.take slotNameCap (utf8 name) ++ List.replicate (slotNameCap - (utf8 name).length) 0).take
    (utf8 name).length = utf8 name
  rw [List.take_of_length_le fit.2,List.take_left]

theorem slotOf_used (fit : Fit name) : (slotOf crc32 name).nameLen ≠ 0 := by
  rw [slotOf_nameLen fit]
  exact fun zero => utf8_ne_nil fit.1 (List.eq_nil_of_length_eq_zero zero)

theorem scanSlot_render {entry : Option String} (fit : ∀ name ∈ entry, Fit name) :
    scanSlot crc32 path (render crc32 entry) = .ok entry := by
  cases entry with
  | none => rfl
  | some name =>
    have fits := fit name rfl
    have checked : (crc32 (leBytes 4 (slotOf crc32 name).nameLen ++ (slotOf crc32 name).name)).toNat =
      (slotOf crc32 name).crc := rfl
    change scanSlot crc32 path (slotOf crc32 name) = .ok (some name)
    unfold scanSlot
    rw [if_neg (slotOf_used fits),if_neg (not_not.mpr checked),slotOf_name fits,fromUtf8_utf8]

theorem render_nameLen {entry : Option String} (fit : ∀ name ∈ entry, Fit name) :
    (render crc32 entry).nameLen = 0 ↔ entry = none := by
  cases entry with
  | none => exact ⟨fun _ => rfl,fun _ => rfl⟩
  | some name => exact ⟨fun zero => absurd zero (slotOf_used (fit name rfl)),nofun⟩

end Slot

/-- The slots and the two counters of a header stand for the names of a pool. -/
structure Holds (crc32 : Bytes → UInt32) (slots : List Slot) (lastSlot count : Nat) (pool : List (Option String)) :
    Prop where
  slots : slots = pool.map (render crc32)
  fit : ∀ name ∈ pool.reduceOption, Fit name
  distinct : pool.reduceOption.Nodup
  count : count = pool.reduceOption.length
  below : Pool.Below lastSlot pool
  inside : lastSlot < pool.length

def Registers (crc32 : Bytes → UInt32) (catalog : CatalogFile) (names : Finset String) : Prop :=
  ∃ pool, Holds crc32 catalog.slots catalog.lastSlot catalog.entryCount pool ∧ pool.reduceOption.toFinset = names

namespace Holds

variable {catalog : CatalogFile} {lastSlot count : Nat} {pool : List (Option String)}

section
variable (holds : Holds crc32 catalog.slots lastSlot count pool)
include holds

theorem entry_fit {entry : Option String} (member : entry ∈ pool) :
    ∀ name ∈ entry, Fit name := by
  intro name there
  cases there
  exact holds.fit name (List.reduceOption_mem_iff.mpr member)

theorem capacity : catalog.capacity = pool.length := by
  rw [CatalogFile.capacity,holds.slots,List.length_map]

theorem visited :
    catalog.visited lastSlot = (pool.take (lastSlot + 1)).map (render crc32) := by
  have capacity := holds.capacity
  have inside := holds.inside
  rw [CatalogFile.visited,Nat.min_eq_left (by omega),holds.slots,List.map_take]

end

theorem scan (holds : Holds crc32 catalog.slots catalog.lastSlot count pool) :
    catalog.scan crc32 path = .ok pool.reduceOption.toFinset := by
  have each : ∀ (entries : List (Option String)), (∀ entry ∈ entries, entry ∈ pool) →
      (entries.map (render crc32)).mapM (scanSlot crc32 path) = .ok entries := by
    intro entries
    induction entries with
    | nil => exact fun _ => rfl
    | cons entry entries ih =>
      intro members
      have head := @scanSlot_render crc32 path entry (holds.entry_fit (members entry List.mem_cons_self))
      have tail := ih fun entry member => members entry (List.mem_cons_of_mem _ member)
      rw [List.map_cons,List.mapM_cons,head,tail]
      rfl
  unfold CatalogFile.scan
  rw [holds.visited,each _ fun entry member => List.mem_of_mem_take member]
  exact congrArg (fun names => Except.ok (List.toFinset names)) (Pool.reduceOption_take holds.below)

theorem claim (holds : Holds crc32 catalog.slots lastSlot count pool) :
    (catalog.claimSlot lastSlot = none ∧ pool.reduceOption.length = catalog.capacity) ∨
    ∃ slot, catalog.claimSlot lastSlot = some slot ∧ pool[slot]? = some none := by
  have free : ∀ entry ∈ pool, ((render crc32 entry).nameLen == 0) = true ↔ entry = none := fun entry member => by
    rw [beq_iff_eq,render_nameLen (holds.entry_fit member)]
  unfold claimSlot findFreeSlot
  rw [holds.visited,List.findIdx?_map]
  cases found : (pool.take (lastSlot + 1)).findIdx? ((fun slot => slot.nameLen == 0) ∘ render crc32) with
  | some slot =>
    obtain ⟨inside,there,-⟩ := List.findIdx?_eq_some_iff_getElem.mp found
    refine .inr ⟨slot,rfl,?_⟩
    rw [List.getElem_take] at there
    have below : slot < pool.length := by
      rw [List.length_take] at inside
      omega
    rw [List.getElem?_eq_getElem below]
    exact congrArg some ((free _ (List.getElem_mem below)).mp there)
  | none =>
    have used : ∀ entry ∈ pool.take (lastSlot + 1), entry ≠ none := fun entry member empty => by
      have not := List.findIdx?_eq_none_iff.mp found entry member
      rw [Function.comp_apply,(free entry (List.mem_of_mem_take member)).mpr empty] at not
      cases not
    have capacity := holds.capacity
    have inside := holds.inside
    by_cases more : lastSlot + 1 < catalog.capacity
    · refine .inr ⟨lastSlot + 1,by rw [if_pos more]; rfl,?_⟩
      have there : lastSlot + 1 < pool.length := by omega
      rw [List.getElem?_eq_getElem there]
      cases entry : pool[lastSlot + 1] with
      | none => rfl
      | some name =>
        have := holds.below (lastSlot + 1) name (by rw [List.getElem?_eq_getElem there,entry])
        omega
    · refine .inl ⟨by rw [if_neg more]; rfl,?_⟩
      rw [List.take_of_length_le (by omega)] at used
      rw [capacity,Pool.length_reduceOption,List.countP_eq_length]
      exact fun entry member => Option.isSome_iff_ne_none.mpr (used entry member)

theorem set (holds : Holds crc32 catalog.slots lastSlot count pool) {slot : Nat} {name : String}
    (free : pool[slot]? = some none) (fit : Fit name) (fresh : name ∉ pool.reduceOption) :
    Holds crc32 (catalog.setSlot crc32 slot name).slots (max lastSlot slot) (count + 1)
      (pool.set slot (some name)) where
  slots := by
    change catalog.slots.set slot (slotOf crc32 name) = _
    rw [holds.slots,List.map_set]
    rfl
  fit := fun other member => by
    rcases List.mem_cons.mp ((Pool.set_perm free name).mem_iff.mp member) with rfl | before
    · exact fit
    · exact holds.fit other before
  distinct := (Pool.set_perm free name).nodup_iff.mpr (List.nodup_cons.mpr ⟨fresh,holds.distinct⟩)
  count := by rw [(Pool.set_perm free name).length_eq,List.length_cons,holds.count]
  below := fun index entry there => by
    by_cases same : index = slot
    · omega
    · rw [List.getElem?_set_ne (Ne.symm same)] at there
      have := holds.below index entry there
      omega
  inside := by
    have := holds.inside
    have := (List.getElem?_eq_some_iff.mp free).1
    rw [List.length_set]
    omega

theorem persistNames {names : List String} (holds : Holds crc32 catalog.slots lastSlot count pool)
    (distinct : names.Nodup) (fit : ∀ name ∈ names, Fit name) (fresh : ∀ name ∈ names, name ∉ pool.reduceOption)
    (room : pool.reduceOption.length + names.length ≤ catalog.capacity) :
    ∃ next pool', catalog.persistNames crc32 path names lastSlot count = (.ok (),next) ∧
      Holds crc32 next.slots next.lastSlot next.entryCount pool' ∧ next.capacity = catalog.capacity ∧
      pool'.reduceOption.toFinset = pool.reduceOption.toFinset ∪ names.toFinset := by
  induction names generalizing catalog lastSlot count pool with
  | nil => exact ⟨_,pool,rfl,⟨holds.slots,holds.fit,holds.distinct,holds.count,holds.below,holds.inside⟩,rfl,by simp⟩
  | cons name names ih =>
    rw [List.length_cons] at room
    rcases holds.claim with ⟨-,full⟩ | ⟨slot,claimed,free⟩
    · omega
    · have perm := Pool.set_perm free name
      have stored := holds.set free (fit name List.mem_cons_self) (fresh name List.mem_cons_self)
      have size : (catalog.setSlot crc32 slot name).capacity = catalog.capacity := List.length_set
      obtain ⟨next,pool',done,holds',capacity,union⟩ := ih stored (List.nodup_cons.mp distinct).2
        (fun other member => fit other (List.mem_cons_of_mem _ member))
        (fun other member => by
          rw [perm.mem_iff,List.mem_cons,not_or]
          exact ⟨fun same => (List.nodup_cons.mp distinct).1 (same ▸ member),
            fresh other (List.mem_cons_of_mem _ member)⟩)
        (by
          rw [size,perm.length_eq,List.length_cons]
          omega)
      refine ⟨next,pool',?_,holds',capacity.trans size,?_⟩
      · rw [CatalogFile.persistNames,claimed]
        exact done
      · rw [union,List.toFinset_eq_of_perm _ _ perm]
        ext other
        simp only [Finset.mem_union,List.mem_toFinset,List.mem_cons]
        tauto

theorem slotOfName (holds : Holds crc32 catalog.slots catalog.lastSlot count pool) {name : String}
    (member : name ∈ pool.reduceOption) :
    ∃ index, catalog.slotOfName name = some index ∧ pool[index]? = some (some name) := by
  have carries : ∀ entry ∈ pool, ((render crc32 entry).nameLen != 0 &&
      (render crc32 entry).name.take (min (render crc32 entry).nameLen slotNameCap) == utf8 name) = true ↔
        entry = some name := by
    intro entry inside
    cases entry with
    | none => exact ⟨nofun,nofun⟩
    | some other =>
      have fit := holds.entry_fit inside other rfl
      simp only [render,Bool.and_eq_true,bne_iff_ne,beq_iff_eq,slotOf_name fit,Option.some.injEq]
      refine ⟨fun same => ?_,fun same => ⟨slotOf_used fit,congrArg utf8 same⟩⟩
      have decoded := congrArg fromUtf8 same.2
      rw [fromUtf8_utf8,fromUtf8_utf8] at decoded
      exact Option.some.inj decoded
  obtain ⟨position,there⟩ := Pool.mem_reduceOption.mp member
  have mark := holds.below position name there
  unfold CatalogFile.slotOfName
  rw [holds.visited,List.findIdx?_map]
  cases found : (pool.take (catalog.lastSlot + 1)).findIdx? ((fun slot => slot.nameLen != 0 &&
      slot.name.take (min slot.nameLen slotNameCap) == utf8 name) ∘ render crc32) with
  | none =>
    have inside : some name ∈ pool.take (catalog.lastSlot + 1) := by
      refine List.mem_iff_getElem?.mpr ⟨position,?_⟩
      rw [List.getElem?_take_of_lt (by omega)]
      exact there
    have not := List.findIdx?_eq_none_iff.mp found _ inside
    rw [Function.comp_apply,(carries _ (List.mem_of_mem_take inside)).mpr rfl] at not
    cases not
  | some index =>
    obtain ⟨inside,holdsName,-⟩ := List.findIdx?_eq_some_iff_getElem.mp found
    refine ⟨index,rfl,?_⟩
    rw [List.getElem_take] at holdsName
    have below : index < pool.length := by
      rw [List.length_take] at inside
      omega
    rw [List.getElem?_eq_getElem below]
    exact congrArg some ((carries _ (List.getElem_mem below)).mp holdsName)

/-- The loop stops at a free slot only at the first one. -/
theorem trailing_used (catalog : CatalogFile) : ∀ mark, catalog.trailing mark = 0 ∨
    catalog.slotNameLen (catalog.trailing mark) ≠ 0
  | 0 => .inl rfl
  | mark + 1 => by
    rw [CatalogFile.trailing]
    split
    · exact trailing_used catalog mark
    · rename_i used
      exact .inr used

theorem trailing (slots : catalog.slots = pool.map (render crc32)) (fit : ∀ name ∈ pool.reduceOption, Fit name) :
    ∀ mark, Pool.Below mark pool → catalog.trailing mark ≤ mark ∧ Pool.Below (catalog.trailing mark) pool
  | 0,below => ⟨Nat.le_refl 0,below⟩
  | mark + 1,below => by
    rw [CatalogFile.trailing]
    split
    · rename_i empty
      have lower : Pool.Below mark pool := fun index name there => by
        have := below index name there
        rcases Nat.lt_or_ge mark index with above | under
        · have same : index = mark + 1 := by omega
          rw [slotNameLen,slots,List.getElem?_map,← same,there] at empty
          exact absurd empty (slotOf_used (fit name (Pool.mem_reduceOption.mpr ⟨index,there⟩)))
        · exact under
      have rest := trailing slots fit mark lower
      exact ⟨Nat.le_succ_of_le rest.1,rest.2⟩
    · exact ⟨Nat.le_refl _,below⟩

theorem eraseName (holds : Holds crc32 catalog.slots catalog.lastSlot catalog.entryCount pool) {name : String}
    (member : name ∈ pool.reduceOption) : ∃ pool',
      Holds crc32 (catalog.eraseName name).slots (catalog.eraseName name).lastSlot
        (catalog.eraseName name).entryCount pool' ∧
      pool'.reduceOption.toFinset = pool.reduceOption.toFinset.erase name ∧ (catalog.eraseName name).capacity =
      catalog.capacity := by
  obtain ⟨index,found,there⟩ := holds.slotOfName member
  have perm := Pool.clear_perm there
  obtain ⟨gone,distinct⟩ := List.nodup_cons.mp (perm.nodup_iff.mp holds.distinct)
  have slots : (catalog.clearSlot index).slots = (pool.set index none).map (render crc32) := by
    change catalog.slots.set index .zeroed = _
    rw [holds.slots,List.map_set]
    rfl
  have fit : ∀ other ∈ (pool.set index none).reduceOption, Fit other := fun other inside =>
    holds.fit other (perm.mem_iff.mpr (List.mem_cons_of_mem _ inside))
  have below : Pool.Below catalog.lastSlot (pool.set index none) := by
    intro position entry at_
    by_cases same : position = index
    · have inside := (List.getElem?_eq_some_iff.mp there).1
      rw [same,List.getElem?_set_self inside] at at_
      cases at_
    · rw [List.getElem?_set_ne (Ne.symm same)] at at_
      exact holds.below position entry at_
  have back := trailing slots fit catalog.lastSlot below
  unfold CatalogFile.eraseName
  rw [found]
  refine ⟨pool.set index none,⟨slots,fit,distinct,?_,?_,?_⟩,?_,List.length_set⟩
  · rw [holds.count,perm.length_eq,List.length_cons,Nat.add_sub_cancel]
  · dsimp only
    split
    · rename_i empty
      rcases trailing_used (catalog.clearSlot index) catalog.lastSlot with zero | used
      · rw [← zero]
        exact back.2
      · exact absurd empty used
    · exact back.2
  · have := holds.inside
    dsimp only
    rw [List.length_set]
    split <;> omega
  · rw [List.toFinset_eq_of_perm _ _ perm,List.toFinset_cons,Finset.erase_insert]
    rwa [List.mem_toFinset]

end Holds

namespace Registers

variable {catalog : CatalogFile} {names : Finset String}

theorem created : Registers crc32 .created ∅ := by
  have none_ : (List.replicate defaultCapacity (none : Option String)).reduceOption = [] := by
    refine List.eq_nil_iff_forall_not_mem.mpr fun name member => ?_
    cases List.eq_of_mem_replicate (List.reduceOption_mem_iff.mp member)
  refine ⟨List.replicate defaultCapacity none,⟨?_,?_,?_,?_,?_,?_⟩,?_⟩
  · rw [List.map_replicate]
    rfl
  · rw [none_]
    exact nofun
  · rw [none_]
    exact List.nodup_nil
  · rw [none_]
    rfl
  · intro index name there
    cases List.eq_of_mem_replicate (List.mem_of_getElem? there)
  · rw [List.length_replicate]
    exact Nat.succ_pos _
  · rw [none_]
    rfl

section
variable (registers : Registers crc32 catalog names)
include registers

theorem scan : catalog.scan crc32 path = .ok names := by
  obtain ⟨pool,holds,rfl⟩ := registers
  exact holds.scan

theorem bump : Registers crc32 catalog.bumpGeneration names := registers

theorem count : catalog.entryCount = names.card := by
  obtain ⟨pool,holds,rfl⟩ := registers
  rw [holds.count,List.toFinset_card_of_nodup holds.distinct]

theorem claim :
    (catalog.claimSlot catalog.lastSlot = none ∧ names.card = catalog.capacity) ∨
    ∃ slot, catalog.claimSlot catalog.lastSlot = some slot ∧ names.card < catalog.capacity ∧ ∀ name, name ∉ names →
    Fit name →
      Registers crc32 {catalog.setSlot crc32 slot name with
        lastSlot := max catalog.lastSlot slot,entryCount := catalog.entryCount + 1} (insert name names) := by
  obtain ⟨pool,holds,rfl⟩ := registers
  rw [List.toFinset_card_of_nodup holds.distinct]
  rcases holds.claim with ⟨none_,full⟩ | ⟨slot,claimed,free⟩
  · exact .inl ⟨none_,full⟩
  · refine .inr ⟨slot,claimed,?_,fun name fresh fit => ?_⟩
    · rw [holds.capacity,Pool.length_reduceOption]
      refine lt_of_le_of_ne List.countP_le_length fun all => ?_
      exact Bool.false_ne_true (List.countP_eq_length.mp all none (List.mem_of_getElem? free))
    · rw [List.mem_toFinset] at fresh
      refine ⟨_,holds.set free fit fresh,?_⟩
      rw [List.toFinset_eq_of_perm _ _ (Pool.set_perm free name),List.toFinset_cons]

end

theorem persistTables {added : Finset String} (registers : Registers crc32 catalog names)
    (fit : ∀ name ∈ added, Fit name) (fresh : Disjoint names added)
    (room : names.card + added.card ≤ catalog.capacity) :
    ∃ next, catalog.persistTables crc32 path added = (.ok (),next) ∧ Registers crc32 next (names ∪ added) ∧
      next.capacity = catalog.capacity := by
  unfold CatalogFile.persistTables
  by_cases empty : added = ∅
  · rw [if_pos empty,empty,Finset.union_empty]
    exact ⟨catalog,rfl,registers,rfl⟩
  · rw [if_neg empty]
    obtain ⟨pool,holds,rfl⟩ := registers
    rw [List.toFinset_card_of_nodup holds.distinct] at room
    obtain ⟨next,pool',done,holds',capacity,union⟩ := holds.persistNames (Finset.sort_nodup added (· ≤ ·))
      (fun name member => fit name ((Finset.mem_sort _).mp member))
      (fun name member there => Finset.disjoint_left.mp fresh (List.mem_toFinset.mpr there)
        ((Finset.mem_sort _).mp member))
      (by rwa [Finset.length_sort])
    refine ⟨next,done,⟨pool',holds',?_⟩,capacity⟩
    rw [union,Finset.sort_toFinset]

theorem eraseName {name : String} (registers : Registers crc32 catalog names) (member : name ∈ names) :
    Registers crc32 (catalog.eraseName name) (names.erase name) := by
  obtain ⟨pool,holds,rfl⟩ := registers
  obtain ⟨pool',holds',erased,-⟩ := holds.eraseName (List.mem_toFinset.mp member)
  exact ⟨pool',holds',erased⟩

end Registers

end ApexBase.Catalog
