import RegistryHive.BaseBlock
import RegistryHive.Cell.Content

/-!
# Hive images

An image is the content of a hive file together with its base block. Structures
refer to each other by cell offsets, which count from the end of the base block.
A cell begins with a signed size, which is negative for an allocated cell and
counts the size field itself. `cellBody` is the rest of an allocated cell where it
lies in the image, `readCell` its bytes on their own, and `decode` what it holds.
-/

namespace RegistryHive

/-- The offset that stands for no cell. -/
def nullOffset : UInt32 := 0xFFFFFFFF

/-- The position of a cell offset in the file; there is none past 32 bits. -/
def absolutePosition? (offset : UInt32) : Option Nat :=
  if offset.toNat + baseBlockSize < UInt32.size then some (offset.toNat + baseBlockSize) else none

/-- The position of a cell offset in the file as a 32-bit number, or the error of an offset that
has none, which names no image size. -/
def absolutePosition (offset : UInt32) : Except HiveError UInt32 :=
  match absolutePosition? offset with
  | some position => .ok (UInt32.ofNat position)
  | none => .error (.invalidOffset offset 0)

/-- The content of a hive file and its base block. -/
structure HiveImage where
  bytes : ByteArray
  baseBlock : BaseBlock
  deriving DecidableEq

/-- The size of a cell and whether it is allocated. -/
structure CellSize where
  size : Nat
  allocated : Bool
  deriving DecidableEq, Repr

namespace HiveImage

/-- The image of a hive file. -/
def ofBytes (bytes : ByteArray) : Except HiveError HiveImage :=
  (BaseBlock.decode bytes).map fun block => { bytes := bytes, baseBlock := block }

/-- The number of bytes of the image. -/
def size (image : HiveImage) : Nat := image.bytes.size

/-- So many bytes from a position in the file on lie inside the image. -/
def holds (image : HiveImage) (position count : Nat) : Bool := position + count ≤ image.size

/-- The size field of the cell at an offset. -/
def cellSize (image : HiveImage) (offset : UInt32) : Except HiveError CellSize :=
  match absolutePosition? offset with
  | none => .error (.invalidOffset offset image.size)
  | some position =>
    if image.holds position 4 then
      let raw := (u32At image.bytes position).toInt32.toInt
      .ok { size := raw.natAbs, allocated := raw < 0 }
    else .error (.invalidOffset offset image.size)

/-- The bytes of the image from one position up to another, as far as the image reaches. -/
def part (image : HiveImage) (first last : Nat) : ByteView :=
  (ByteView.ofBytes image.bytes).part first last

/-- The body of the allocated cell at an offset: its bytes after the size field. -/
def cellBody (image : HiveImage) (offset : UInt32) : Except HiveError ByteView :=
  if offset = nullOffset then .error (.invalidOffset offset image.size)
  else
    match image.cellSize offset with
    | .error error => .error error
    | .ok ⟨size, allocated⟩ =>
      let position := offset.toNat + baseBlockSize
      if !allocated then .error (.unallocatedCell offset)
      else if size < 4 then .error (.invalidCellSize (-size) offset)
      else if !image.holds position size then
        .error (.truncated offset size (image.size - position))
      else .ok (image.part (position + 4) (position + size))

/-- The bytes of the allocated cell at an offset after its size field. -/
def readCell (image : HiveImage) (offset : UInt32) : Except HiveError ByteArray :=
  (image.cellBody offset).map ByteView.content

/-- A cell is read exactly if its body is found. -/
theorem readCell_eq_ok_iff {image : HiveImage} {offset : UInt32} {body : ByteArray} :
    image.readCell offset = .ok body ↔
      ∃ view, image.cellBody offset = .ok view ∧ view.content = body := by
  rw [readCell]
  cases image.cellBody offset <;> simp [Except.map]

theorem readCell_eq_error_iff {image : HiveImage} {offset : UInt32} {error : HiveError} :
    image.readCell offset = .error error ↔ image.cellBody offset = .error error := by
  rw [readCell]
  cases image.cellBody offset <;> simp [Except.map]

/-- There is no cell at the null offset. -/
theorem ne_nullOffset_of_readCell {image : HiveImage} {offset : UInt32} {body : ByteArray}
    (read : image.readCell offset = .ok body) : offset ≠ nullOffset := by
  rintro rfl
  rw [readCell, cellBody, if_pos rfl] at read
  cases read

/-- What the allocated cell at an offset holds. -/
def decode (image : HiveImage) (offset : UInt32) : Except HiveError Cell :=
  match image.cellBody offset with
  | .error error => .error error
  | .ok body => Cell.decode body offset

/-- The key node at an offset. -/
def keyNode? (image : HiveImage) (offset : UInt32) : Option KeyNode :=
  (image.decode offset).toOption.bind Cell.key?

/-- The value node at an offset. -/
def valueNode? (image : HiveImage) (offset : UInt32) : Option ValueNode :=
  (image.decode offset).toOption.bind Cell.value?

/-- The subkey list at an offset. -/
def subkeyList? (image : HiveImage) (offset : UInt32) : Option SubkeyList :=
  (image.decode offset).toOption.bind Cell.subkeyList?

/-- The big data header at an offset. -/
def bigData? (image : HiveImage) (offset : UInt32) : Option BigData :=
  (image.decode offset).toOption.bind Cell.bigData?

/-- The slots of the subkey list at an offset. -/
def slotTable? (image : HiveImage) (offset : UInt32) : Option SlotTable :=
  match image.cellBody offset with
  | .error _ => none
  | .ok body => (SlotTable.decode body offset).toOption

/-- The subkey list at an offset is that of its slots. -/
theorem subkeyList?_eq (image : HiveImage) (offset : UInt32) :
    image.subkeyList? offset = (image.slotTable? offset).map SubkeyList.ofTable := by
  rw [subkeyList?, slotTable?, decode]
  cases image.cellBody offset with
  | error error => rfl
  | ok body => exact Cell.subkeyList?_decode body offset

end HiveImage

end RegistryHive
