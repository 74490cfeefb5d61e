import RegistryHive.Cell.Content

/-!
# Reading the same bytes elsewhere

A structure is read where it lies, but where that is plays no part: two views
that hold the same bytes are read alike. This is so for texts, for each structure
and so for whole cells (`Cell.decode_congr`). Views that agree in their first
bytes only are read alike as far as these bytes reach (`ByteView.AgreeBelow`).
-/

namespace RegistryHive

namespace ByteView

/-- The views hold the same bytes, perhaps in different places. -/
def SameContent (view other : ByteView) : Prop := view.content = other.content

namespace SameContent

variable {view other : ByteView} (same : view.SameContent other)

include same

theorem size_eq : view.size = other.size := by
  rw [← size_content, same, size_content]

theorem byteAt_eq (i : Nat) : view.byteAt i = other.byteAt i := by
  rw [← byteAt_content, same, byteAt_content]

theorem u16At_eq (i : Nat) : view.u16At i = other.u16At i := by
  rw [← u16At_content, same, u16At_content]

theorem u32At_eq (i : Nat) : view.u32At i = other.u32At i := by
  rw [← u32At_content, same, u32At_content]

theorem u64At_eq (i : Nat) : view.u64At i = other.u64At i := by
  rw [← u64At_content, same, u64At_content]

theorem toList_eq : view.toList = other.toList := by
  rw [toList, toList, same.size_eq, funext same.byteAt_eq]

theorem part (first last : Nat) : (view.part first last).SameContent (other.part first last) := by
  rw [SameContent, content_part, content_part, same]

end SameContent

/-- The views begin with the same bytes, as many as the length says. -/
structure AgreeBelow (view other : ByteView) (length : Nat) : Prop where
  le_size : length ≤ view.size
  le_size' : length ≤ other.size
  byteAt_eq : ∀ i < length, view.byteAt i = other.byteAt i

namespace AgreeBelow

variable {view other : ByteView} {length i : Nat} (agree : view.AgreeBelow other length)

include agree

theorem mono {length' : Nat} (le : length' ≤ length) : view.AgreeBelow other length' where
  le_size := Nat.le_trans le agree.le_size
  le_size' := Nat.le_trans le agree.le_size'
  byteAt_eq i inside := agree.byteAt_eq i (Nat.lt_of_lt_of_le inside le)

theorem u16At_eq (inside : i + 2 ≤ length) : view.u16At i = other.u16At i := by
  rw [u16At, u16At, agree.byteAt_eq i (by omega), agree.byteAt_eq (i + 1) (by omega)]

theorem u32At_eq (inside : i + 4 ≤ length) : view.u32At i = other.u32At i := by
  rw [u32At, u32At, agree.byteAt_eq i (by omega), agree.byteAt_eq (i + 1) (by omega),
    agree.byteAt_eq (i + 2) (by omega), agree.byteAt_eq (i + 3) (by omega)]

theorem u64At_eq (inside : i + 8 ≤ length) : view.u64At i = other.u64At i := by
  rw [u64At, u64At, agree.u32At_eq (by omega), agree.u32At_eq (by omega)]

/-- The parts that end inside the common bytes are the same. -/
theorem part {last : Nat} (inside : last ≤ length) (first : Nat) :
    (view.part first last).SameContent (other.part first last) := by
  have le := agree.le_size
  have le' := agree.le_size'
  apply bytes_ext
  · rw [size_content, size_content, size_part, size_part]
    omega
  · intro i _
    rw [byteAt_content, byteAt_content, byteAt_part, byteAt_part]
    split
    · exact agree.byteAt_eq (first + i) (by omega)
    · rfl

end AgreeBelow

/-- Bytes that are put behind others leave these as they are. -/
theorem agreeBelow_append (bytes behind : ByteArray) :
    (ofBytes bytes).AgreeBelow (ofBytes (bytes ++ behind)) bytes.size where
  le_size := Nat.le_refl _
  le_size' := by
    rw [size_ofBytes, ByteArray.size_append]
    exact Nat.le_add_right _ _
  byteAt_eq i inside := by
    rw [byteAt_ofBytes, byteAt_ofBytes, byteAt_append, if_pos inside]

end ByteView

section Congr

variable {view other : ByteView} (same : view.SameContent other)

include same

theorem OneByte.decode_congr : decode view = decode other := by
  apply String.toList_inj.mp
  rw [toList_decode, toList_decode, same.toList_eq]

theorem Utf16.decode_congr : decode view = decode other := by
  simp only [decode_eq, units_eq, same.size_eq, same.u16At_eq]

theorem decodeName_congr (compressed : Bool) :
    decodeName compressed view = decodeName compressed other := by
  rw [decodeName, decodeName, OneByte.decode_congr same, Utf16.decode_congr same]

theorem CellTag.isAtStart_congr (tag : CellTag) : tag.isAtStart view = tag.isAtStart other := by
  simp only [isAtStart, same.byteAt_eq]

namespace KeyNode

theorem nameAt?_congr (flags : KeyFlags) (layout : NameLayout) :
    nameAt? view flags layout = nameAt? other flags layout := by
  simp only [nameAt?, same.u16At_eq, same.size_eq, decodeName_congr (same.part _ _)]

theorem decode_congr (offset : UInt32) : decode view offset = decode other offset := by
  simp only [decode, readName?, nameAt?_congr same, CellTag.isAtStart_congr same, same.size_eq,
    same.u16At_eq, same.u32At_eq, same.u64At_eq]

end KeyNode

theorem ValueNode.decode_congr (offset : UInt32) : decode view offset = decode other offset := by
  simp only [decode, CellTag.isAtStart_congr same, same.size_eq, same.u16At_eq, same.u32At_eq,
    decodeName_congr (same.part _ _)]

theorem BigData.decode_congr (offset : UInt32) : decode view offset = decode other offset := by
  simp only [decode, CellTag.isAtStart_congr same, same.size_eq, same.u16At_eq, same.u32At_eq]

namespace SubkeyList

theorem ofTable_congr (shape : ListShape) :
    ofTable { shape := shape, body := view } = ofTable { shape := shape, body := other } := by
  have slot (i : Nat) : SlotTable.slotAt { shape := shape, body := view } i =
      SlotTable.slotAt { shape := shape, body := other } i := by
    simp only [SlotTable.slotAt, SlotTable.offsetAt, SlotTable.hintAt?, same.u32At_eq]
  simp only [ofTable, SlotTable.slots_eq, SlotTable.count, funext slot, same.size_eq,
    same.u16At_eq]

theorem decode_congr (offset : UInt32) : decode view offset = decode other offset := by
  simp only [decode, SlotTable.decode, same.size_eq, same.byteAt_eq]
  split
  · rfl
  · cases ListShape.ofBytes (other.byteAt 0) (other.byteAt 1) with
    | error error => rfl
    | ok shape => exact congrArg Except.ok (ofTable_congr same shape)

end SubkeyList

/-- The same bytes are read as the same cell, or refused for the same reason. -/
theorem Cell.decode_congr (offset : UInt32) : decode view offset = decode other offset := by
  simp only [decode, same.size_eq, same.byteAt_eq, KeyNode.decode_congr same,
    ValueNode.decode_congr same, SubkeyList.decode_congr same, BigData.decode_congr same]

end Congr

end RegistryHive
