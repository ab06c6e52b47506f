import Mathlib.Data.Finset.Sort
import Mathlib.Data.String.Basic
import ApexBase.Library.Wire
import ApexBase.Library.Pool

/-! The mapped table catalog of `storage/table_catalog.rs`: a header and a fixed number of
slots, one for each table name. The catalog of a directory is written with `defaultCapacity`
slots and never grows. -/
namespace ApexBase.Catalog
open Library Library.Wire

def slotNameCap : Nat := 128
def defaultCapacity : Nat := 1024

inductive ErrorKind
  | alreadyExists | invalidData | other
  deriving DecidableEq

structure IoError where
  kind : ErrorKind
  message : String
  deriving DecidableEq

structure Slot where
  nameLen : Nat
  name : Bytes
  crc : Nat
  deriving DecidableEq

def Slot.zeroed : Slot := ⟨0,List.replicate slotNameCap 0,0⟩

structure CatalogFile where
  generation : UInt64
  entryCount : Nat
  lastSlot : Nat
  slots : List Slot
  room : 0 < slots.length

namespace CatalogFile

def created : CatalogFile where
  generation := 0
  entryCount := 0
  lastSlot := 0
  slots := List.replicate defaultCapacity .zeroed
  room := by rw [List.length_replicate]; exact Nat.succ_pos _

def capacity (catalog : CatalogFile) : Nat := catalog.slots.length

def bumpGeneration (catalog : CatalogFile) : CatalogFile := {catalog with generation := catalog.generation + 1}

section Names
variable (crc32 : Bytes → UInt32)

/-- What `set_slot` writes: a longer name is cut to the width of the slot. -/
def slotOf (name : String) : Slot :=
  let nameBytes := utf8 name
  let len := min nameBytes.length slotNameCap
  let area := nameBytes.take slotNameCap ++ List.replicate (slotNameCap - nameBytes.length) 0
  ⟨len,area,(crc32 (leBytes 4 len ++ area)).toNat⟩

def setSlot (catalog : CatalogFile) (index : Nat) (name : String) : CatalogFile where
  __ := catalog
  slots := catalog.slots.set index (slotOf crc32 name)
  room := by simpa using catalog.room

def clearSlot (catalog : CatalogFile) (index : Nat) : CatalogFile where
  __ := catalog
  slots := catalog.slots.set index .zeroed
  room := by simpa using catalog.room

def visited (catalog : CatalogFile) (lastSlot : Nat) :
    List Slot := catalog.slots.take (min lastSlot (catalog.capacity - 1) + 1)

def checksumError (path : String) : IoError :=
  ⟨.invalidData,"table catalog " ++ path ++ " failed its checksum (corrupt or tampered)"⟩

def scanSlot (path : String) (slot : Slot) : Except IoError (Option String) :=
  if slot.nameLen = 0 then .ok none
  else if (crc32 (leBytes 4 slot.nameLen ++ slot.name)).toNat ≠ slot.crc then .error (checksumError path)
  else
    match fromUtf8 (slot.name.take (min slot.nameLen slotNameCap)) with
    | none => .error ⟨.invalidData,"table catalog name is not UTF-8"⟩
    | some name => .ok (some name)

def scan (path : String) (catalog : CatalogFile) : Except IoError (Finset String) := do
  let names ← (catalog.visited catalog.lastSlot).mapM (scanSlot crc32 path)
  return names.reduceOption.toFinset

def findFreeSlot (catalog : CatalogFile) (lastSlot : Nat) : Option Nat :=
  (catalog.visited lastSlot).findIdx? fun slot => slot.nameLen == 0

/-- A free slot among those in use, or the slot behind them. -/
def claimSlot (catalog : CatalogFile) (lastSlot : Nat) : Option Nat :=
  (catalog.findFreeSlot lastSlot).or (if lastSlot + 1 < catalog.capacity then some (lastSlot + 1) else none)

def fullError (path : String) (catalog : CatalogFile) : IoError :=
  ⟨.other,"table catalog " ++ path ++ " is full (" ++ toString catalog.capacity ++ " tables)"⟩

/-- The loop of `persist_tables`. The header is written behind the loop, so that slots set before
the catalog turns out to be full stay set under the old header. -/
def persistNames (path : String) : List String → CatalogFile → Nat → Nat → Except IoError Unit × CatalogFile
  | [],catalog,lastSlot,count => (.ok (),bumpGeneration {catalog with lastSlot,entryCount := count})
  | name :: names,catalog,lastSlot,count =>
    match catalog.claimSlot lastSlot with
    | none => (.error (fullError path catalog),catalog)
    | some slot => persistNames path names (catalog.setSlot crc32 slot name) (max lastSlot slot) (count + 1)

def persistTables (path : String) (tables : Finset String) (catalog : CatalogFile) :
    Except IoError Unit × CatalogFile :=
  if tables = ∅ then (.ok (),catalog)
  else persistNames crc32 path (tables.sort (· ≤ ·)) catalog catalog.lastSlot catalog.entryCount

end Names

def slotNameLen (catalog : CatalogFile) (index : Nat) : Nat := (catalog.slots[index]?.getD .zeroed).nameLen

/-- The loop of `remove` that steps back over trailing free slots. -/
def trailing (catalog : CatalogFile) : Nat → Nat
  | 0 => 0
  | index + 1 => if catalog.slotNameLen (index + 1) = 0 then catalog.trailing index else index + 1

def slotOfName (catalog : CatalogFile) (name : String) : Option Nat :=
  (catalog.visited catalog.lastSlot).findIdx? fun slot =>
    slot.nameLen != 0 && slot.name.take (min slot.nameLen slotNameCap) == utf8 name

/-- Clears the slot of a name, if one carries exactly its bytes. -/
def eraseName (catalog : CatalogFile) (name : String) : CatalogFile :=
  match catalog.slotOfName name with
  | none => catalog
  | some index =>
    let cleared := catalog.clearSlot index
    let newLast := cleared.trailing catalog.lastSlot
    {cleared with
      entryCount := catalog.entryCount - 1
      lastSlot := if cleared.slotNameLen newLast = 0 then 0 else newLast}

end CatalogFile

end ApexBase.Catalog
