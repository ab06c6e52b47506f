import ApexBase.Library.Wire

/-! Overwriting bytes in place. -/
namespace ApexBase.Library.Patch
open Wire

/-- A write at a position that has as many bytes behind it. -/
def overwrite (bytes : Bytes) (patch : Nat × Bytes) :
    Bytes := bytes.take patch.1 ++ (patch.2 ++ bytes.drop (patch.1 + patch.2.length))

def overwriteAll (bytes : Bytes) (patches : List (Nat × Bytes)) : Bytes := patches.foldl overwrite bytes

def Within (size : Nat) (patch : Nat × Bytes) : Prop := patch.1 + patch.2.length ≤ size

def shift (by_ : Nat) (patch : Nat × Bytes) : Nat × Bytes := (by_ + patch.1,patch.2)

variable {bytes front back : Bytes} {patch : Nat × Bytes} {patches : List (Nat × Bytes)}

theorem length_overwrite (within : Within bytes.length patch) : (overwrite bytes patch).length = bytes.length := by
  unfold Within at within
  simp only [overwrite,List.length_append,List.length_take,List.length_drop]
  omega

theorem overwrite_append_right (within : Within bytes.length patch) :
    overwrite (bytes ++ back) patch = overwrite bytes patch ++ back := by
  unfold Within at within
  rw [overwrite,overwrite,List.take_append_of_le_length (by omega),List.drop_append_of_le_length within]
  simp only [List.append_assoc]

theorem overwrite_append_left (front bytes : Bytes) (patch : Nat × Bytes) :
    overwrite (front ++ bytes) (shift front.length patch) = front ++ overwrite bytes patch := by
  simp only [overwrite,shift]
  rw [List.take_append,List.take_of_length_le (by omega),Nat.add_sub_cancel_left,Nat.add_assoc,List.drop_append,
    List.drop_eq_nil_of_le (Nat.le_add_right _ _),Nat.add_sub_cancel_left]
  simp only [List.append_assoc,List.nil_append]

theorem length_overwriteAll (within : ∀ patch ∈ patches, Within bytes.length patch) :
    (overwriteAll bytes patches).length = bytes.length := by
  induction patches generalizing bytes with
  | nil => rfl
  | cons patch patches ih =>
    have first := length_overwrite (within patch List.mem_cons_self)
    have rest := @ih (overwrite bytes patch)
      (by rw [first]; exact fun patch member => within patch (List.mem_cons_of_mem _ member))
    exact rest.trans first

theorem overwriteAll_append_right (back : Bytes) (within : ∀ patch ∈ patches, Within bytes.length patch) :
    overwriteAll (bytes ++ back) patches = overwriteAll bytes patches ++ back := by
  induction patches generalizing bytes with
  | nil => rfl
  | cons patch patches ih =>
    have here := within patch List.mem_cons_self
    have rest := @ih (overwrite bytes patch)
      (by rw [length_overwrite here]; exact fun patch member => within patch (List.mem_cons_of_mem _ member))
    rw [overwriteAll,List.foldl_cons,overwrite_append_right here]
    exact rest

theorem overwriteAll_append_left (front bytes : Bytes) (patches : List (Nat × Bytes)) :
    overwriteAll (front ++ bytes) (patches.map (shift front.length)) = front ++ overwriteAll bytes patches := by
  induction patches generalizing bytes with
  | nil => rfl
  | cons patch patches ih =>
    rw [List.map_cons,overwriteAll,List.foldl_cons,overwrite_append_left]
    exact ih (overwrite bytes patch)

theorem overwriteAll_append (first second : List (Nat × Bytes)) :
    overwriteAll bytes (first ++ second) = overwriteAll (overwriteAll bytes first) second := List.foldl_append

theorem overwriteAll_parts {first second : List (Nat × Bytes)} (within : ∀ patch ∈ first, Within front.length patch) :
    overwriteAll (front ++ back) (first ++ second.map (shift front.length)) =
    overwriteAll front first ++ overwriteAll back second := by
  rw [overwriteAll_append,overwriteAll_append_right back within,← length_overwriteAll within]
  exact overwriteAll_append_left _ _ _

end ApexBase.Library.Patch
