import ApexBase.Library.Search
import ApexBase.Column.RoundTrip
import ApexBase.Column.SliceRows

/-! Looking a text up in a stored string dictionary (`StringDictView::find_value`,
`for_each_index_eq` in `storage/on_demand/mod.rs`). -/
namespace ApexBase.Column
open Data Library.Wire Library.Wire.Reader Library.Search ColumnData

namespace StringDictView

/-- How the readers parse a dictionary payload behind its encoding byte. -/
def ofPayload : Bytes → Except IoError StringDictView
  | [] => .error (errData "read_column_encoded: empty input")
  | encoding :: dataBytes => (parse (encoding = colEncodingCompactDictionary) dataBytes).map Prod.fst

def index (view : StringDictView) (row : Nat) : Option UInt32 :=
  if row ≥ view.rowCount then none else some (UInt32.ofNat (wordAt view.indexWidth view.indices row))

def offset (view : StringDictView) (index : Nat) : Option Nat :=
  if index ≥ view.dictSize then none else some (wordAt 4 view.dictOffsets index)

def value (view : StringDictView) (dictIndex : UInt32) : Option Bytes :=
  if dictIndex.toNat = 0 ∨ dictIndex.toNat ≥ view.dictSize then none
  else do
    let start ← view.offset (dictIndex.toNat - 1)
    let stop ← view.offset dictIndex.toNat
    if start ≤ stop ∧ stop ≤ view.dictData.length then some ((view.dictData.drop start).take (stop - start)) else none

/-- The entry that ends at `offset (mid + 1)`, if it is the target. -/
def entryIs (view : StringDictView) (target : Bytes) (mid : Nat) : Option UInt32 :=
  if view.value (UInt32.ofNat (mid + 1)) = some target then some (UInt32.ofNat (mid + 1)) else none

/-- The entry that begins at `start`, by bisection of the offsets. -/
def locate (view : StringDictView) (target : Bytes) (start : Nat) : Option UInt32 :=
  let last := view.dictSize - 1
  let (hit,low,high) := bisect (fun mid => compare ((view.offset mid).getD 0) start) last 0 last
  match hit.bind (view.entryIs target) with
  | some found => some found
  | none =>
    -- An entry that begins here but is another text ends the loop: `low = high`.
    let low := if hit.isSome then high else low
    if low < last ∧ view.offset low = some start then view.entryIs target low else none

/-- The loop over the occurrences of the target in the bytes of all entries. -/
def searchFrom (memmem : Finder UInt8) (view : StringDictView) (target : Bytes) : Nat → Nat → Option UInt32
  | 0,_ => none
  | fuel + 1,from_ =>
    if from_ < view.dictData.length then
      match memmem.find (view.dictData.drop from_) target with
      | none => none
      | some relative =>
        match view.locate target (from_ + relative) with
        | some found => some found
        | none => searchFrom memmem view target fuel (from_ + relative + 1)
    else none

def findValue (memmem : Finder UInt8) (view : StringDictView) (target : Bytes) : Option UInt32 :=
  if target = [] then
    ((List.range' 1 (view.dictSize - 1)).find? fun index => view.value (UInt32.ofNat index) =
      some target).map UInt32.ofNat
  else view.searchFrom memmem target (view.dictData.length + 1) 0

/-- The rows that the comparison of the stored indices selects, for each index width. -/
def matchingRows (view : StringDictView) (target : UInt32) (limit : Nat) : List Nat :=
  let count := min view.rowCount limit
  match view.indexWidth with
  | 1 =>
    if target.toNat ≤ 255 then (List.range count).filter fun row => view.indices[row]? = some (UInt8.ofNat target.toNat)
    else []
  | 2 =>
    if target.toNat ≤ 65535 then (List.range count).filter fun row => wordAt 2 view.indices row = target.toNat else []
  | 4 => (List.range count).filter fun row => wordAt 4 view.indices row = target.toNat
  | _ => []

def visit {σ : Type} (matched : σ → Nat → σ × Bool) : List Nat → σ → σ
  | [],state => state
  | row :: rows,state => if (matched state row).2 then visit matched rows (matched state row).1
    else (matched state row).1

def forEachIndexEq {σ : Type} (view : StringDictView) (target : UInt32) (limit : Nat) (matched : σ → Nat → σ × Bool)
    (state : σ) : σ :=
  visit matched (view.matchingRows target limit) state

end StringDictView

/-! The dictionary that the builder makes. -/

def dictEntries (strings : List Bytes) : List Bytes := (strings.foldl DictBuilder.push .empty).entries

private structure Built (builder : DictBuilder) (strings : List Bytes) : Prop where
  dict : builder.dict = builder.entries.foldl Texts.push .empty
  distinct : builder.entries.Nodup
  entries : ∀ text, text ∈ builder.entries ↔ text ∈ strings

private theorem Built.push {builder : DictBuilder} {strings : List Bytes} (built : Built builder strings)
    (text : Bytes) :
    Built (builder.push text) (strings ++ [text]) := by
  unfold DictBuilder.push
  split
  · rename_i index found
    obtain ⟨inside,same,_⟩ := List.idxOf?_eq_some_iff.mp found
    have old : text ∈ builder.entries := same ▸ List.getElem_mem inside
    refine ⟨built.dict,built.distinct,fun other => ?_⟩
    rw [List.mem_append,List.mem_singleton,built.entries]
    exact ⟨Or.inl,fun either => either.elim id fun same => same ▸ (built.entries text).mp old⟩
  · rename_i absent
    have new : text ∉ builder.entries := List.idxOf?_eq_none_iff.mp absent
    refine ⟨?_,?_,fun other => ?_⟩
    · rw [List.foldl_append,← built.dict]
      rfl
    · exact List.nodup_append.mpr ⟨built.distinct,List.nodup_singleton _,fun a old b here => by
        rw [List.mem_singleton.mp here]
        exact fun same => new (same ▸ old)⟩
    · rw [List.mem_append,List.mem_append,built.entries]

private theorem built_all (strings : List Bytes) : Built (strings.foldl DictBuilder.push .empty) strings := by
  have general (strings done : List Bytes) (builder : DictBuilder) (built : Built builder done) :
      Built (strings.foldl DictBuilder.push builder) (done ++ strings) := by
    induction strings generalizing done builder with
    | nil => rwa [List.append_nil]
    | cons text rest ih =>
      have next := ih (done ++ [text]) (builder.push text) (built.push text)
      rwa [List.append_assoc] at next
  exact general strings [] .empty ⟨rfl,List.nodup_nil,fun _ => Iff.rfl⟩

theorem nodup_dictEntries (strings : List Bytes) : (dictEntries strings).Nodup := (built_all strings).distinct

theorem mem_dictEntries {strings : List Bytes} {text : Bytes} : text ∈ dictEntries strings ↔ text ∈ strings :=
  (built_all strings).entries text

def startOf (entries : List Bytes) (position : Nat) : Nat := (entries.take position).flatten.length

theorem toDictEncoded_entries {offsets : List UInt64} {data : Bytes} {strings : List Bytes} {dict : ColumnData}
    (rows : texts offsets data = some strings) (encoded : toDictEncoded (.string offsets data) = some (some dict)) :
    ∃ indices, dict = .stringDict indices (UInt64.ofNat 0 :: endsFrom 0 (dictEntries strings))
      (dictEntries strings).flatten := by
  simp only [toDictEncoded,rows,bind,Option.bind_some,pure,Option.some.injEq] at encoded
  refine ⟨(strings.foldl DictBuilder.push .empty).rowIndices,encoded.symm.trans ?_⟩
  rw [(built_all strings).dict,foldl_push]
  rfl

/-- There are fewer than 2^32 distinct texts in less than 2^32 bytes: only 257 of them
are shorter than two bytes. -/
private theorem few_entries {entries : List Bytes} (distinct : entries.Nodup)
    (small : entries.flatten.length ≤ 2^32 - 1) :
    entries.length + 1 < 2^32 := by
  have short : (entries.filter fun text => text.length < 2).length ≤ 257 := by
    have inside : (entries.filter fun text => text.length < 2) ⊆ [] :: (List.range 256).map fun byte =>
      [UInt8.ofNat byte] := by
      intro text member
      have few := of_decide_eq_true (List.mem_filter.mp member).2
      match text,few with
      | [],_ => exact List.mem_cons_self
      | [byte],_ =>
        exact List.mem_cons_of_mem _ (List.mem_map.mpr ⟨byte.toNat,List.mem_range.mpr byte.toNat_lt,by simp⟩)
    have fewer := (List.subperm_of_subset (distinct.filter _) inside).length_le
    rwa [List.length_cons,List.length_map,List.length_range] at fewer
  have long : 2 * (entries.filter fun text => ¬ text.length < 2).length ≤ entries.flatten.length := by
    clear distinct small short
    induction entries with
    | nil => simp
    | cons text rest ih =>
      rw [List.flatten_cons,List.length_append]
      by_cases few : text.length < 2
      · rw [List.filter_cons_of_neg (by simpa using few)]
        omega
      · rw [List.filter_cons_of_pos (by simpa using few),List.length_cons]
        omega
  have all := List.length_eq_length_filter_add (l := entries) fun text => decide (text.length < 2)
  simp only [decide_not] at long
  omega

/-! The lookup. -/

structure Shows (view : StringDictView) (entries : List Bytes) : Prop where
  size : view.dictSize = entries.length + 1
  data : view.dictData = entries.flatten
  offset : ∀ position ≤ entries.length, view.offset position = some (startOf entries position)
  distinct : entries.Nodup
  few : entries.length + 1 < 2^32

/-- The target follows the empty text, and the bisection of the offsets meets that one
first. -/
def Skips (entries : List Bytes) (target : Bytes) : Prop :=
  ∃ position, entries[position]? = some [] ∧ entries[position + 1]? = some target ∧
    (bisect (locateIn position (position + 1)) entries.length 0 entries.length).1 = some position

def FindsExactly (memmem : Finder UInt8) (view : StringDictView) (strings : List Bytes) (target : Bytes) : Prop :=
  (target ∈ strings → ∃ index, view.findValue memmem target = some index ∧ view.value index = some target) ∧
  (target ∉ strings → view.findValue memmem target = none)

section Lookup
variable {view : StringDictView} {entries : List Bytes} {target : Bytes}

theorem startOf_succ {position : Nat} {text : Bytes} (there : entries[position]? = some text) :
    startOf entries (position + 1) = startOf entries position + text.length := (flatten_at there).2.1

theorem startOf_le {low high : Nat} (order : low ≤ high) : startOf entries low ≤ startOf entries high := by
  have split : entries.take high = entries.take low ++ (entries.take high).drop low := by
    conv_lhs => rw [← List.take_append_drop low (entries.take high),List.take_take,Nat.min_eq_left order]
  rw [startOf,startOf,split,List.flatten_append,List.length_append]
  exact Nat.le_add_right _ _

theorem startOf_lt {low high : Nat} {text : Bytes} (there : entries[low]? = some text) (some_ : text ≠ [])
    (order : low < high) :
    startOf entries low < startOf entries high := by
  have positive := List.length_pos_iff.mpr some_
  have next := startOf_succ there
  have later : startOf entries (low + 1) ≤ startOf entries high := startOf_le order
  omega

namespace Shows
variable (shows : Shows view entries)
include shows

theorem toNat_index {position : Nat} (inside : position < entries.length) :
    (UInt32.ofNat (position + 1)).toNat = position + 1 :=
  UInt32.toNat_ofNat_of_lt' (by have few := shows.few; change position + 1 < 2^32; omega)

theorem value_at {position : Nat} {text : Bytes} (there : entries[position]? = some text) :
    view.value (UInt32.ofNat (position + 1)) = some text := by
  obtain ⟨inside,_⟩ := List.getElem?_eq_some_iff.mp there
  obtain ⟨cut,next,bounded⟩ := flatten_at there
  have size := shows.size
  unfold StringDictView.value
  rw [shows.toNat_index inside,if_neg (by omega),Nat.add_sub_cancel,shows.offset position (by omega),
    shows.offset (position + 1) (by omega)]
  simp only [Option.bind_eq_bind,Option.bind_some,startOf,shows.data,next,Nat.add_sub_cancel_left]
  rw [if_pos ⟨by omega,by omega⟩,cut]

theorem value_some {index : UInt32} {text : Bytes} (found : view.value index = some text) :
    ∃ position, index = UInt32.ofNat (position + 1) ∧ entries[position]? = some text := by
  have size := shows.size
  have inside : ¬ (index.toNat = 0 ∨ index.toNat ≥ view.dictSize) := by
    intro outside
    rw [StringDictView.value,if_pos outside] at found
    cases found
  have here : index.toNat - 1 < entries.length := by omega
  have same : index = UInt32.ofNat (index.toNat - 1 + 1) := by
    apply UInt32.toNat_inj.mp
    rw [shows.toNat_index here]
    omega
  refine ⟨index.toNat - 1,same,?_⟩
  have there := List.getElem?_eq_getElem here
  have value := shows.value_at there
  rw [← same,found] at value
  rw [there,Option.some.inj value]

theorem entryIs_at {position : Nat} (there : entries[position]? = some target) :
    view.entryIs target position = some (UInt32.ofNat (position + 1)) := by
  rw [StringDictView.entryIs,shows.value_at there,if_pos rfl]

theorem entryIs_some {position : Nat} {index : UInt32} (inside : position < entries.length)
    (found : view.entryIs target position = some index) :
    index = UInt32.ofNat (position + 1) ∧ entries[position]? = some target := by
  unfold StringDictView.entryIs at found
  split at found
  · rename_i same
    have there := List.getElem?_eq_getElem inside
    rw [shows.value_at there] at same
    exact ⟨(Option.some.inj found).symm,there.trans same⟩
  · cases found

theorem locate_some {start : Nat} {index : UInt32} (found : view.locate target start = some index) :
    ∃ position, index = UInt32.ofNat (position + 1) ∧ entries[position]? = some target ∧
    startOf entries position = start := by
  have last : view.dictSize - 1 = entries.length := by rw [shows.size,Nat.add_sub_cancel]
  unfold StringDictView.locate at found
  simp only [last] at found
  cases landed : bisect (fun mid => compare ((view.offset mid).getD 0) start) entries.length 0 entries.length with
  | mk hit bounds =>
    obtain ⟨low,high⟩ := bounds
    simp only [landed] at found
    split at found
    · rename_i index' here
      cases found
      obtain ⟨mid,rfl,isEntry⟩ := Option.bind_eq_some_iff.mp here
      obtain ⟨equal,inside⟩ := bisect_hit _ landed
      obtain ⟨same,there⟩ := shows.entryIs_some inside isEntry
      rw [shows.offset mid (by omega),Option.getD_some,Nat.compare_eq_eq] at equal
      exact ⟨mid,same,there,equal⟩
    · generalize (if hit.isSome = true then high else low) = low at found
      split at found
      · rename_i begins
        obtain ⟨same,there⟩ := shows.entryIs_some begins.1 found
        rw [shows.offset _ (by omega)] at begins
        exact ⟨_,same,there,Option.some.inj begins.2⟩
      · cases found

/-- Where an entry of the dictionary begins, the bisection finds it, or it lands on the
empty text before it and gives up. -/
theorem locate_at {position : Nat} (there : entries[position]? = some target) (some_ : target ≠ []) :
    (¬ Skips entries target → view.locate target (startOf entries position) = some (UInt32.ofNat (position + 1))) ∧
    (Skips entries target → view.locate target (startOf entries position) = none) := by
  obtain ⟨inside,atPosition⟩ := List.getElem?_eq_some_iff.mp there
  have last : view.dictSize - 1 = entries.length := by rw [shows.size,Nat.add_sub_cancel]
  have offsets (index : Nat) (low : index < entries.length) : (view.offset index).getD 0 = startOf entries index := by
    rw [shows.offset index (Nat.le_of_lt low),Option.getD_some]
  have unique {other : Nat} (same : entries[other]? = some target) : other = position := by
    obtain ⟨there_,here⟩ := List.getElem?_eq_some_iff.mp same
    exact (shows.distinct.getElem_inj_iff).mp (here.trans atPosition.symm)
  have above {index : Nat} (behind : position < index) : startOf entries position < startOf entries index :=
    startOf_lt there some_ behind
  by_cases precedes : ∃ before, position = before + 1 ∧ entries[before]? = some []
  · obtain ⟨before,rfl,empty⟩ := precedes
    obtain ⟨_,atBefore⟩ := List.getElem?_eq_some_iff.mp empty
    have same : startOf entries (before + 1) =
      startOf entries before := by rw [startOf_succ empty,List.length_nil,Nat.add_zero]
    have below {index : Nat} (less : index < before) : startOf entries index < startOf entries (before + 1) := by
      have earlier : index < entries.length := by omega
      refine same ▸ startOf_lt (List.getElem?_eq_getElem earlier) (fun also => ?_) less
      exact absurd ((shows.distinct.getElem_inj_iff).mp (also.trans atBefore.symm)) (Nat.ne_of_lt less)
    have order : ∀ index < entries.length, compare ((view.offset index).getD 0) (startOf entries (before + 1)) =
      locateIn before (before + 1) index := by
      intro index low
      rw [offsets index low,locateIn]
      split
      · exact Nat.compare_eq_lt.mpr (below ‹_›)
      · split
        · exact Nat.compare_eq_gt.mpr (above ‹_›)
        · obtain rfl | rfl : index = before ∨ index = before + 1 := by omega
          · exact Nat.compare_eq_eq.mpr same.symm
          · exact Nat.compare_eq_eq.mpr rfl
    obtain ⟨mid,bottom,top,landed,low,high,beyond,upper⟩ :=
      bisect_locateIn entries.length (Nat.le_succ before) (Nat.zero_le _) inside (Nat.le_refl _)
    have skips : Skips entries target ↔ mid = before := by
      refine ⟨?_,fun here => ⟨before,empty,there,by rw [landed,here]⟩⟩
      rintro ⟨other,_,follows,hits⟩
      obtain rfl : other = before := Nat.succ.inj (unique follows)
      rw [landed] at hits
      exact Option.some.inj hits
    unfold StringDictView.locate
    simp only [last,bisect_congr entries.length order,landed,skips,Option.bind_some]
    refine ⟨fun other => ?_,fun here => ?_⟩
    · obtain rfl : mid = before + 1 := by omega
      rw [shows.entryIs_at there]
    · have missed : view.entryIs target mid = none := by
        rw [here,StringDictView.entryIs,shows.value_at empty,if_neg fun same => some_ (Option.some.inj same).symm]
      rw [missed]
      simp only [Option.isSome_some,if_true]
      rw [if_neg]
      rintro ⟨less,begins⟩
      have later : startOf entries (before + 1) < startOf entries top := above (by omega)
      rw [shows.offset top upper] at begins
      exact absurd (Option.some.inj begins) (Nat.ne_of_gt later)
  · have below {index : Nat} (less : index < position) : startOf entries index < startOf entries position := by
      obtain ⟨before,rfl⟩ := Nat.exists_eq_succ_of_ne_zero (Nat.ne_of_gt (Nat.lt_of_le_of_lt (Nat.zero_le _) less))
      have earlier : before < entries.length := by omega
      have here := List.getElem?_eq_getElem earlier
      have step := startOf_lt here (fun empty => precedes ⟨before,rfl,here.trans (congrArg some empty)⟩)
        (Nat.lt_succ_self before)
      have upTo : startOf entries index ≤ startOf entries before := startOf_le (Nat.le_of_lt_succ less)
      exact Nat.lt_of_le_of_lt upTo step
    have order : ∀ index < entries.length, compare ((view.offset index).getD 0) (startOf entries position) =
      locateIn position position index := by
      intro index low
      rw [offsets index low,locateIn]
      split
      · exact Nat.compare_eq_lt.mpr (below ‹_›)
      · split
        · exact Nat.compare_eq_gt.mpr (above ‹_›)
        · obtain rfl : index = position := by omega
          exact Nat.compare_eq_eq.mpr rfl
    obtain ⟨mid,bottom,top,landed,low,high,_⟩ :=
      bisect_locateIn entries.length (Nat.le_refl position) (Nat.zero_le _) inside (Nat.le_refl _)
    obtain rfl : mid = position := Nat.le_antisymm high low
    have notSkips : ¬ Skips entries target := by
      rintro ⟨other,empty,follows,_⟩
      exact precedes ⟨other,(unique follows).symm,empty⟩
    refine ⟨fun _ => ?_,fun skips => absurd skips notSkips⟩
    unfold StringDictView.locate
    simp only [last,bisect_congr entries.length order,landed,Option.bind_some]
    rw [shows.entryIs_at there]

end Shows

/-! The loop over the occurrences. -/

theorem searchFrom_none (nowhere : ∀ start, view.locate target start = none) (memmem : Finder UInt8)
    (fuel from_ : Nat) : view.searchFrom memmem target fuel from_ = none := by
  induction fuel generalizing from_ with
  | zero => rfl
  | succ fuel ih =>
    unfold StringDictView.searchFrom
    split
    · split
      · rfl
      · rw [nowhere]
        exact ih _
    · rfl

/-- The loop comes to every occurrence of the target that it does not return before. -/
theorem searchFrom_some {place : Nat} {index : UInt32} (located : view.locate target place = some index)
    (elsewhere : ∀ start, start ≠ place → view.locate target start = none)
    (occurs : occursAt target view.dictData place = true) (inside : place < view.dictData.length)
    (memmem : Finder UInt8) (fuel : Nat) {from_ : Nat} (ahead : from_ ≤ place) (enough : place - from_ < fuel) :
    view.searchFrom memmem target fuel from_ = some index := by
  induction fuel generalizing from_ with
  | zero => omega
  | succ fuel ih =>
    have shifted : occursAt target (view.dictData.drop from_) (place - from_) = true := by
      rw [occursAt_drop,Nat.add_sub_cancel' ahead]
      exact occurs
    obtain ⟨first,upTo,found⟩ := memmem.of_occurs (by rw [List.length_drop]; omega) shifted
    unfold StringDictView.searchFrom
    rw [if_pos (by omega)]
    simp only [found]
    by_cases here : from_ + first = place
    · rw [here,located]
    · rw [elsewhere _ here]
      exact ih (by omega) (by omega)

theorem Shows.findValue_iff (shows : Shows view entries) (memmem : Finder UInt8) (target : Bytes) :
    (target ∈ entries → ((∃ index, view.findValue memmem target = some index ∧ view.value index = some target) ↔
      ¬ Skips entries target)) ∧
    (target ∉ entries → view.findValue memmem target = none ∧ ¬ Skips entries target) := by
  have notIn (absent : target ∉ entries) (index : UInt32) : view.value index ≠ some target := fun found =>
    have ⟨_,_,there⟩ := shows.value_some found
    absent (List.mem_of_getElem? there)
  have skips_mem (skips : Skips entries target) : target ∈ entries :=
    have ⟨_,_,there,_⟩ := skips
    List.mem_of_getElem? there
  by_cases empty : target = []
  · subst empty
    have notSkips : ¬ Skips entries [] := by
      rintro ⟨position,first,second,_⟩
      obtain ⟨_,here⟩ := List.getElem?_eq_some_iff.mp first
      obtain ⟨_,next⟩ := List.getElem?_eq_some_iff.mp second
      exact Nat.succ_ne_self position ((shows.distinct.getElem_inj_iff).mp (next.trans here.symm))
    unfold StringDictView.findValue
    rw [if_pos rfl]
    refine ⟨fun member => iff_of_true ?_ notSkips,fun absent => ⟨?_,notSkips⟩⟩
    · obtain ⟨position,there⟩ := List.getElem?_of_mem member
      obtain ⟨inside,_⟩ := List.getElem?_eq_some_iff.mp there
      have size := shows.size
      have found : ((List.range' 1 (view.dictSize - 1)).find? fun index => view.value (UInt32.ofNat index) =
        some []).isSome :=
        List.find?_isSome.mpr ⟨position + 1,List.mem_range'_1.mpr ⟨by omega,by omega⟩,
          by simpa using shows.value_at there⟩
      obtain ⟨index,first⟩ := Option.isSome_iff_exists.mp found
      exact ⟨UInt32.ofNat index,by rw [first,Option.map_some],by simpa using List.find?_some first⟩
    · rw [Option.map_eq_none_iff,List.find?_eq_none]
      intro index _
      simpa using notIn absent (UInt32.ofNat index)
  · unfold StringDictView.findValue
    rw [if_neg empty]
    refine ⟨fun member => ?_,fun absent => ⟨?_,fun skips => absent (skips_mem skips)⟩⟩
    · obtain ⟨position,there⟩ := List.getElem?_of_mem member
      obtain ⟨found,missed⟩ := shows.locate_at there empty
      have elsewhere (start : Nat) (other : start ≠ startOf entries position) : view.locate target start = none := by
        cases located : view.locate target start with
        | none => rfl
        | some index =>
          obtain ⟨place,_,same,begins⟩ := shows.locate_some located
          obtain ⟨_,here⟩ := List.getElem?_eq_some_iff.mp same
          obtain ⟨_,atPosition⟩ := List.getElem?_eq_some_iff.mp there
          obtain rfl := (shows.distinct.getElem_inj_iff).mp (here.trans atPosition.symm)
          exact absurd begins.symm other
      constructor
      · rintro ⟨index,result,_⟩ skips
        have nowhere (start : Nat) : view.locate target start = none := by
          by_cases here : start = startOf entries position
          · rw [here]
            exact missed skips
          · exact elsewhere start here
        rw [searchFrom_none nowhere memmem] at result
        cases result
      · intro notSkips
        obtain ⟨cut,next,bounded⟩ := flatten_at there
        have positive := List.length_pos_iff.mpr empty
        have occurs : occursAt target view.dictData (startOf entries position) = true := by
          rw [occursAt_iff,shows.data]
          exact cut
        have inside : startOf entries position < view.dictData.length := by
          rw [shows.data,startOf]
          omega
        exact ⟨_,searchFrom_some (found notSkips) elsewhere occurs inside memmem _ (Nat.zero_le _) (by omega),
          shows.value_at there⟩
    · refine searchFrom_none (fun start => ?_) memmem _ _
      cases located : view.locate target start with
      | none => rfl
      | some index =>
        obtain ⟨_,_,there,_⟩ := shows.locate_some located
        exact absurd (List.mem_of_getElem? there) absent

end Lookup

/-! The rows of an index. -/

theorem wordAt_lt (width : Nat) (bytes : Bytes) (index : Nat) : wordAt width bytes index < 256^width := by
  have bound := ofLe_lt ((bytes.drop (index * width)).take width)
  exact Nat.lt_of_lt_of_le bound (Nat.pow_le_pow_right (by decide) (List.length_take_le _ _))

theorem matchingRows_eq {view : StringDictView}
    (width : view.indexWidth = 1 ∨ view.indexWidth = 2 ∨ view.indexWidth = 4)
    (length : view.indices.length = view.rowCount * view.indexWidth) (target : UInt32) (limit : Nat) :
    view.matchingRows target limit = (List.range (min view.rowCount limit)).filter fun row => view.index row =
    some target := by
  have small (row : Nat) := wordAt_lt view.indexWidth view.indices row
  have index (row : Nat) (member : row ∈ List.range (min view.rowCount limit)) :
      view.index row = some target ↔ wordAt view.indexWidth view.indices row = target.toNat := by
    have inside := List.mem_range.mp member
    have fits : wordAt view.indexWidth view.indices row < 2^32 := by
      have bound := small row
      rcases width with width | width | width <;> rw [width] at bound ⊢ <;> omega
    rw [StringDictView.index,if_neg (by omega),Option.some.injEq,← UInt32.toNat_inj,UInt32.toNat_ofNat_of_lt' fits]
  have rows : ((List.range (min view.rowCount limit)).filter fun row => view.index row = some target) =
      (List.range (min view.rowCount limit)).filter fun row => wordAt view.indexWidth view.indices row = target.toNat :=
    List.filter_congr fun row member => by simp only [index row member]
  rw [rows]
  have none_ (large : 256^view.indexWidth ≤ target.toNat) :
      [] = (List.range (min view.rowCount limit)).filter fun row => wordAt view.indexWidth view.indices row =
      target.toNat := by
    symm
    rw [List.filter_eq_nil_iff]
    intro row _
    have bound := small row
    simp only [decide_eq_true_eq]
    omega
  unfold StringDictView.matchingRows
  rcases width with width | width | width
  · simp only [width]
    rw [width] at none_
    split
    · rename_i byte
      refine List.filter_congr fun row member => ?_
      have inside := List.mem_range.mp member
      have there : row < view.indices.length := by rw [length,width]; omega
      have word : wordAt 1 view.indices row = view.indices[row].toNat := by
        rw [wordAt,Nat.mul_one,List.drop_eq_getElem_cons there]
        rfl
      have same : (view.indices[row]? = some (UInt8.ofNat target.toNat)) ↔
        wordAt 1 view.indices row = target.toNat := by
        rw [List.getElem?_eq_getElem there,Option.some.injEq,word,← UInt8.toNat_inj,
          UInt8.toNat_ofNat_of_lt' (by change _ < 256; omega)]
      simp only [same]
    · exact none_ (by omega)
  · simp only [width]
    rw [width] at none_
    split
    · rfl
    · exact none_ (by omega)
  · simp only [width]

/-! Written dictionaries. -/

private theorem shows_written {indices : List UInt32} {entries : List Bytes} (distinct : entries.Nodup) (width : Nat)
    (sound : (ColumnData.stringDict indices (UInt64.ofNat 0 :: endsFrom 0 entries) entries.flatten).Sound)
    (fits : ∀ offset ∈ UInt64.ofNat 0 :: endsFrom 0 entries, offset.toNat ≤ 2^32 - 1) :
    Shows (writtenView width indices (UInt64.ofNat 0 :: endsFrom 0 entries) entries.flatten) entries := by
  obtain ⟨_,_,smallData⟩ := sound
  have startOf_all (position : Nat) : startOf entries position ≤ entries.flatten.length :=
    calc startOf entries position ≤ startOf entries (max position entries.length) := startOf_le (Nat.le_max_left _ _)
      _ = entries.flatten.length := by rw [startOf,List.take_of_length_le (Nat.le_max_right _ _)]
  have stored {position : Nat} (inside : position ≤ entries.length) :
      (UInt64.ofNat 0 :: endsFrom 0 entries)[position]? = some (UInt64.ofNat (startOf entries position)) ∧
      startOf entries position ≤ 2^32 - 1 := by
    have there := endsFrom_at 0 entries inside
    rw [Nat.zero_add] at there
    have low := fits _ (List.mem_of_getElem? there)
    have all := startOf_all position
    rw [UInt64.toNat_ofNat_of_lt' (by change startOf entries position < 2^64; omega)] at low
    exact ⟨there,low⟩
  have length : (UInt64.ofNat 0 :: endsFrom 0 entries).length = entries.length + 1 := by
    rw [List.length_cons,length_endsFrom]
  refine ⟨length,rfl,fun position inside => ?_,distinct,few_entries distinct ?_⟩
  · obtain ⟨there,low⟩ := stored inside
    obtain ⟨short,at_⟩ := List.getElem?_eq_some_iff.mp there
    have words : ∀ value ∈ (offsetsToU32 (UInt64.ofNat 0 :: endsFrom 0 entries)).map (·.toNat), value < 256^4 := by
      intro value member
      obtain ⟨word,_,rfl⟩ := List.mem_map.mp member
      exact word.toNat_lt
    have read := wordAt_leWords words position (by simpa [offsetsToU32] using short) []
    rw [List.append_nil] at read
    unfold StringDictView.offset
    rw [if_neg (by change ¬ position ≥ (UInt64.ofNat 0 :: endsFrom 0 entries).length; omega)]
    change some (wordAt 4 (leWords 4 _) position) = _
    rw [read]
    simp only [offsetsToU32,List.getElem_map,at_,UInt64.toNat_toUInt32,UInt64.toNat_ofNat',Option.some.injEq]
    omega
  · have low := (stored (Nat.le_refl _)).2
    rwa [startOf,List.take_length] at low

section Written
variable {offsets : List UInt64} {data : Bytes} {strings : List Bytes} {dict : ColumnData} {colType : ColumnType}
  {options : ColumnEncodingOptions} {payload : Bytes}

theorem ofPayload_written (rows : texts offsets data = some strings)
    (encoded : toDictEncoded (.string offsets data) = some (some dict)) (sound : dict.Sound)
    (written : writeColumnEncoded dict colType options = .ok payload) (rest : Bytes) :
    ∃ view, StringDictView.ofPayload (payload ++ rest) = .ok view ∧ Shows view (dictEntries strings) ∧
      (view.indexWidth = 1 ∨ view.indexWidth = 2 ∨ view.indexWidth = 4) ∧ view.indices.length =
      view.rowCount * view.indexWidth := by
  obtain ⟨indices,rfl⟩ := toDictEncoded_entries rows encoded
  have length (width : Nat) : (leWords width (indices.map (·.toNat))).length = indices.length * width := by
    rw [length_leWords,List.length_map]
  obtain ⟨fits,⟨width,widths,_,rfl⟩ | rfl⟩ := write_stringDict written
  · refine ⟨_,?_,shows_written (nodup_dictEntries strings) width sound fits,widths.elim Or.inl fun two =>
      Or.inr (Or.inl two),length width⟩
    rw [List.cons_append,StringDictView.ofPayload]
    simp only [decide_true,parse_compact widths sound rest]
    rfl
  · refine ⟨_,?_,shows_written (nodup_dictEntries strings) 4 sound fits,Or.inr (Or.inr rfl),length 4⟩
    rw [List.cons_append,StringDictView.ofPayload]
    have plain : decide (colEncodingPlain = colEncodingCompactDictionary) = false := by decide
    simp only [plain,parse_plain sound rest]
    rfl

/-- In a written dictionary every text but a skipped one is found exactly when it is
there, and the rows of an index are visited in order. -/
theorem dictionary_lookup_iff (memmem : Finder UInt8) (rows : texts offsets data = some strings)
    (encoded : toDictEncoded (.string offsets data) = some (some dict)) (sound : dict.Sound)
    (written : writeColumnEncoded dict colType options = .ok payload) (rest : Bytes) :
    ∃ view, StringDictView.ofPayload (payload ++ rest) = .ok view ∧
      (∀ target, FindsExactly memmem view strings target ↔ ¬ Skips (dictEntries strings) target) ∧
      ∀ (index : UInt32) (limit : Nat) (σ : Type) (matched : σ → Nat → σ × Bool) (state : σ),
        view.forEachIndexEq index limit matched state =
          StringDictView.visit matched ((List.range (min view.rowCount limit)).filter fun row => view.index row =
            some index) state := by
  obtain ⟨view,parsed,shows,width,length⟩ := ofPayload_written rows encoded sound written rest
  refine ⟨view,parsed,fun target => ?_,fun index limit σ matched state => ?_⟩
  · obtain ⟨present,absent⟩ := shows.findValue_iff memmem target
    rw [mem_dictEntries] at present absent
    unfold FindsExactly
    by_cases member : target ∈ strings
    · simp only [member,true_implies,not_true,false_implies,and_true]
      exact present member
    · simp only [member,false_implies,not_false_iff,true_implies,true_and]
      exact iff_of_true (absent member).1 (absent member).2
  · rw [StringDictView.forEachIndexEq,matchingRows_eq width length]

end Written

/-- The dictionary of "a", "" and "b" does not find "b". -/
theorem dictionary_misses : ∃ dict payload view, toDictEncoded (.string [0,1,1,2] [97,98]) = some (some dict) ∧
    writeColumnEncoded dict .stringDict ⟨false⟩ = .ok payload ∧ StringDictView.ofPayload payload = .ok view ∧
    view.findValue .scan [98] = none ∧ ¬ FindsExactly .scan view [[97],[],[98]] [98] := by
  refine ⟨.stringDict [1,2,3] [0,1,1,2] [97,98],colEncodingCompactDictionary :: writeCompact 1 [1,2,3] [0,1,1,
    2] [97,98],
    writtenView 1 [1,2,3] [0,1,1,2] [97,98],by decide,rfl,rfl,by decide,?_⟩
  intro finds
  obtain ⟨index,found,_⟩ := finds.1 (by decide)
  have missed : (writtenView 1 [1,2,3] [0,1,1,2] [97,98]).findValue .scan [98] = none := by decide
  rw [missed] at found
  cases found

theorem dictionary_lookup_of_two : ∃ view, StringDictView.ofPayload (colEncodingCompactDictionary :: writeCompact 1 [1,
    2] [0,1,2] [97,98] ++ []) = .ok view ∧
    (∀ target, FindsExactly .scan view [[97],[98]] target ↔ ¬ Skips (dictEntries [[97],[98]]) target) ∧
    ∀ (index : UInt32) (limit : Nat) (σ : Type) (matched : σ → Nat → σ × Bool) (state : σ),
      view.forEachIndexEq index limit matched state =
        StringDictView.visit matched ((List.range (min view.rowCount limit)).filter fun row => view.index row =
          some index) state :=
  @dictionary_lookup_iff [0,1,2] [97,98] _ (.stringDict [1,2] [0,1,2] [97,98]) .stringDict ⟨false⟩ _
    .scan (by decide) (by decide) ⟨by decide,by decide,by decide⟩ rfl []

end ApexBase.Column
