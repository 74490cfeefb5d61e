import RegistryHive.Proofs.Cell.SameContent
import RegistryHive.Proofs.Writing.Heap

/-!
# Cells where they stand

A cell stands in an image as a size field with its body behind it. The field is
the negative of the size of the whole cell. `HiveImage.HasCell` says this of the
bytes of the image, and a cell is read from an offset exactly if it stands there
(`HiveImage.readCell_eq_ok_iff_hasCell`). What it holds depends on its bytes
alone (`HiveImage.decode_eq_of_readCell_eq`).
-/

namespace RegistryHive

open HiveWriter

/-- The size field of an allocated cell is the negative of its size. -/
theorem toInt_zero_sub_ofNat {size : Nat} (le : size ≤ 2 ^ 31) :
    (0 - UInt32.ofNat size).toInt32.toInt = -(size : Int) := by
  have word : (0 - UInt32.ofNat size).toInt32.toInt = Int.bmod (-(size : Int)) 4294967296 := by
    rw [UInt32.toInt32_sub, UInt32.toInt32_ofNat', Int32.toInt_sub, Int32.toInt_ofNat']
    change Int.bmod (0 - Int.bmod size 4294967296) 4294967296 = _
    rw [Int.sub_bmod_bmod, Int.zero_sub]
  rw [word, Int.bmod_def]
  omega

/-- A negative size field is that of an allocated cell. -/
theorem eq_zero_sub_ofNat {field : UInt32} (negative : field.toInt32.toInt < 0) :
    field = 0 - UInt32.ofNat field.toInt32.toInt.natAbs := by
  have least : -2 ^ 31 ≤ field.toInt32.toInt := Int32.le_toInt field.toInt32
  have number : (0 - UInt32.ofNat field.toInt32.toInt.natAbs).toInt32 = field.toInt32 := by
    apply Int32.toInt_inj.mp
    rw [toInt_zero_sub_ofNat (by omega)]
    omega
  simpa only [UInt32.toUInt32_toInt32] using congrArg Int32.toUInt32 number.symm

namespace HiveImage

/-- A cell with this body stands at an offset of the image. -/
structure HasCell (image : HiveImage) (offset : UInt32) (body : ByteArray) : Prop where
  ne_null : offset ≠ nullOffset
  /-- The position of the cell is a number of 32 bits. -/
  position_lt : offset.toNat + baseBlockSize < UInt32.size
  /-- The size of the cell is the negative of a number of 32 bits. -/
  size_le : 4 + body.size ≤ 2 ^ 31
  stands : HoldsAt image.bytes (offset.toNat + baseBlockSize) (cellBytes body)

variable {image : HiveImage} {offset : UInt32} {body : ByteArray}

/-- A cell ends inside the image. -/
theorem HasCell.end_le (cell : image.HasCell offset body) :
    offset.toNat + baseBlockSize + (4 + body.size) ≤ image.size := by
  have inside := cell.stands.inside
  rwa [size_cellBytes] at inside

theorem HasCell.cellSize_eq (cell : image.HasCell offset body) :
    image.cellSize offset = .ok { size := 4 + body.size, allocated := true } := by
  have inside := cell.end_le
  have position : absolutePosition? offset = some (offset.toNat + baseBlockSize) := by
    rw [absolutePosition?, if_pos]
    exact cell.position_lt
  have four : image.holds (offset.toNat + baseBlockSize) 4 = true := decide_eq_true (by omega)
  have field : u32At image.bytes (offset.toNat + baseBlockSize) =
      0 - UInt32.ofNat (4 + body.size) := cell.stands.split.1.u32At_eq
  have negative : -((4 + body.size : Nat) : Int) < 0 := by omega
  unfold cellSize
  simp only [position, four, if_true, field, toInt_zero_sub_ofNat cell.size_le, Int.natAbs_neg,
    Int.natAbs_natCast, decide_eq_true negative]

/-- The body of a cell is found between its size field and its end. -/
theorem HasCell.readCell_eq (cell : image.HasCell offset body) :
    image.readCell offset = .ok body := by
  have inside : image.holds (offset.toNat + baseBlockSize) (4 + body.size) = true :=
    decide_eq_true cell.end_le
  have four : ¬ 4 + body.size < 4 := by omega
  rw [readCell, cellBody, if_neg cell.ne_null, cell.cellSize_eq]
  simp only [Bool.not_true, Bool.false_eq_true, if_false, if_neg four, inside]
  have behind : HoldsAt image.bytes (offset.toNat + baseBlockSize + 4) body := by
    have rest := cell.stands.split.2
    rwa [size_u32Bytes] at rest
  have cut := behind.extract_eq
  rw [Nat.add_assoc _ 4] at cut
  change Except.ok ((ByteView.ofBytes image.bytes).part _ _).content = _
  rw [ByteView.content_part, ByteView.content_ofBytes, cut]

/-- A size field that is read is a number at the position of the cell. -/
theorem of_cellSize_eq {size : Nat} {allocated : Bool}
    (found : image.cellSize offset = .ok { size := size, allocated := allocated }) :
    offset.toNat + baseBlockSize < UInt32.size ∧
      offset.toNat + baseBlockSize + 4 ≤ image.size ∧
      (u32At image.bytes (offset.toNat + baseBlockSize)).toInt32.toInt.natAbs = size ∧
      decide ((u32At image.bytes (offset.toNat + baseBlockSize)).toInt32.toInt < 0) =
        allocated := by
  unfold cellSize absolutePosition? at found
  by_cases addressed : offset.toNat + baseBlockSize < UInt32.size
  · by_cases four : image.holds (offset.toNat + baseBlockSize) 4 = true
    · simp only [if_pos addressed, if_pos four, Except.ok.injEq, CellSize.mk.injEq] at found
      exact ⟨addressed, of_decide_eq_true four, found⟩
    · simp only [if_pos addressed, if_neg four] at found
      cases found
  · simp only [if_neg addressed] at found
    cases found

/-- A cell stands where a size field is followed by as many bytes as it says. -/
theorem hasCell_of_sizeField (ne_null : offset ≠ nullOffset)
    (position_lt : offset.toNat + baseBlockSize < UInt32.size) {size : Nat}
    (field : u32At image.bytes (offset.toNat + baseBlockSize) = 0 - UInt32.ofNat size)
    (four_le : 4 ≤ size) (size_le : size ≤ 2 ^ 31)
    (inside : offset.toNat + baseBlockSize + size ≤ image.size) :
    image.HasCell offset (image.bytes.extract (offset.toNat + baseBlockSize + 4)
      (offset.toNat + baseBlockSize + size)) := by
  obtain ⟨length, rfl⟩ := Nat.exists_eq_add_of_le four_le
  change _ ≤ image.bytes.size at inside
  have number : HoldsAt image.bytes (offset.toNat + baseBlockSize)
      (u32Bytes (0 - UInt32.ofNat (4 + length))) := by
    rw [← field]
    exact holdsAt_u32At (by omega)
  have rest : HoldsAt image.bytes (offset.toNat + baseBlockSize + 4)
      (image.bytes.extract (offset.toNat + baseBlockSize + 4)
        (offset.toNat + baseBlockSize + 4 + length)) := holdsAt_extract (by omega)
  have length_eq : (image.bytes.extract (offset.toNat + baseBlockSize + 4)
      (offset.toNat + baseBlockSize + 4 + length)).size = length := by
    rw [ByteArray.size_extract]
    omega
  rw [← Nat.add_assoc _ 4]
  refine ⟨ne_null, position_lt, by rwa [length_eq], ?_⟩
  rw [cellBytes, length_eq]
  exact number.join (size_u32Bytes _) rest

/-- What is read from an offset stands there. -/
theorem hasCell_of_readCell (read : image.readCell offset = .ok body) :
    image.HasCell offset body := by
  obtain ⟨view, found, rfl⟩ := readCell_eq_ok_iff.mp read
  have ne_null := ne_nullOffset_of_readCell read
  rw [cellBody, if_neg ne_null] at found
  cases sizeField : image.cellSize offset with
  | error error => simp [sizeField] at found
  | ok cellSize =>
      obtain ⟨size, allocated⟩ := cellSize
      obtain ⟨position_lt, -, rfl, rfl⟩ := of_cellSize_eq sizeField
      simp only [sizeField] at found
      -- The cell is allocated, its size counts the size field, and it ends inside the image.
      split at found
      · cases found
      rename_i allocated
      split at found
      · cases found
      rename_i four_le
      split at found
      · cases found
      rename_i inside
      have negative : (u32At image.bytes (offset.toNat + baseBlockSize)).toInt32.toInt < 0 := by
        simpa using allocated
      have least := Int32.le_toInt (u32At image.bytes (offset.toNat + baseBlockSize)).toInt32
      obtain rfl := Except.ok.inj found
      rw [part, ByteView.content_part, ByteView.content_ofBytes]
      apply hasCell_of_sizeField ne_null position_lt (eq_zero_sub_ofNat negative)
      · omega
      · omega
      · simpa [holds] using inside

/-- A cell is read exactly if it stands in the image. -/
theorem readCell_eq_ok_iff_hasCell : image.readCell offset = .ok body ↔ image.HasCell offset body :=
  ⟨hasCell_of_readCell, HasCell.readCell_eq⟩

/-- Where the same bytes are read, they hold the same. -/
theorem decode_eq_of_readCell_eq {other : HiveImage}
    (same : image.readCell offset = other.readCell offset) :
    image.decode offset = other.decode offset := by
  rw [readCell, readCell] at same
  rw [decode, decode]
  cases found : image.cellBody offset with
  | error error =>
      rw [found] at same
      have found' := readCell_eq_error_iff.mp same.symm
      rw [found']
  | ok view =>
      rw [found] at same
      obtain ⟨view', found', content⟩ := readCell_eq_ok_iff.mp same.symm
      rw [found']
      exact Cell.decode_congr content.symm offset

end HiveImage

end RegistryHive
