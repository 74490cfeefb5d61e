import RegistryHive.Payload
import RegistryHive.Proofs.ByteParts

/-!
# Writing hive files

A writer builds a hive file with a single bin. Cells are appended one after the
other, each padded to a multiple of eight bytes, and a key cell is patched when
its subkeys or its values have been written. What is written is found again by
`RegistryHive.Proofs.Writing.Heap` in terms of whole cells.

A list of subkeys carries a zero hint in the shapes that have one. A payload of
at most four bytes stands in its value node, and a payload that is longer than
`segmentLimit` is cut into segments.
-/

namespace RegistryHive

/-- The time that a writer gives to the file and to every key, the start of the year 2021. -/
def writtenTime : UInt64 := 132539328000000000

/-- A value to be written. -/
structure WrittenValue where
  name : String
  /-- The number of the type. -/
  code : UInt32
  payload : ByteArray

/-- What a value node says about the place of its payload. -/
structure PayloadFields where
  size : UInt32
  location : UInt32

/-- The state of a writer. -/
structure HiveWriter where
  /-- The bin as far as it is written. -/
  bins : ByteArray
  /-- The cell of the root key. -/
  root : UInt32
  primarySequence : UInt32
  secondarySequence : UInt32

namespace HiveWriter

/-- A cell that has been written, and the writer after it. -/
structure Written where
  offset : UInt32
  writer : HiveWriter

/-- The number of bytes before the first cell. -/
def binHeaderSize : Nat := 0x20

/-- The number of bytes in a page of the file. -/
def pageSize : Nat := 0x1000

/-- Nothing is written but the header of the bin. -/
def start : HiveWriter where
  bins := overwrite (zeros binHeaderSize) 0 [0x68, 0x62, 0x69, 0x6E].toByteArray
  root := nullOffset
  primarySequence := 1
  secondarySequence := 1

/-- The number of bytes of a cell with a body of the given length. -/
def cellSpace (length : Nat) : Nat := (length + 4 + 7) / 8 * 8

/-- Appends an allocated cell. -/
def alloc (writer : HiveWriter) (body : ByteArray) : Written :=
  let size := cellSpace body.size
  let bins := writer.bins ++ u32Bytes (0 - UInt32.ofNat size) ++ body
  { offset := UInt32.ofNat writer.bins.size
    writer := { writer with bins := growTo bins (writer.bins.size + size) } }

/-- Appends a cell for each body, and gives their offsets. -/
def allocAll (writer : HiveWriter) : List ByteArray → List UInt32 × HiveWriter
  | [] => ([], writer)
  | body :: rest =>
      let first := writer.alloc body
      let others := first.writer.allocAll rest
      (first.offset :: others.1, others.2)

/-- Replaces bytes in the body of a cell. -/
def patch (writer : HiveWriter) (cell : UInt32) (field : Nat) (bytes : ByteArray) : HiveWriter :=
  { writer with bins := overwrite writer.bins (cell.toNat + 4 + field) bytes }

/-- What is written into a key cell without subkeys and values. -/
def keyParts (flags : UInt16) (name : ByteArray) : List (Nat × ByteArray) :=
  [(0, CellTag.keyNode.mark), (0x02, u16Bytes flags), (0x04, u64Bytes writtenTime),
    (0x10, u32Bytes nullOffset), (0x1C, u32Bytes nullOffset), (0x20, u32Bytes nullOffset),
    (0x28, u32Bytes nullOffset), (0x2C, u32Bytes nullOffset), (0x30, u32Bytes nullOffset),
    (0x48, u16Bytes (UInt16.ofNat name.size)), (0x4C, name)]

/-- The body of a key cell without subkeys and values. -/
def keyBody (flags : UInt16) (name : ByteArray) : ByteArray :=
  writeParts (zeros (0x4C + name.size)) (keyParts flags name)

/-- Writes a key. -/
def key (writer : HiveWriter) (name : String) : Written :=
  writer.alloc (keyBody 0x0020 name.toUTF8)

/-- Writes a key and makes it the root. -/
def rootKey (writer : HiveWriter) (name : String) : Written :=
  let written := writer.alloc (keyBody 0x0024 name.toUTF8)
  { written with writer := { written.writer with root := written.offset } }

/-- A slot of a subkey list. -/
def slotBytes (shape : ListShape) (offset : UInt32) : ByteArray :=
  if shape.hasHints then u32Bytes offset ++ u32Bytes 0 else u32Bytes offset

/-- The body of a subkey list. -/
def listBody (shape : ListShape) (offsets : List UInt32) : ByteArray :=
  (CellTag.subkeyList shape).mark ++ u16Bytes (UInt16.ofNat offsets.length) ++
    joined (offsets.map (slotBytes shape))

/-- Writes a subkey list. -/
def list (writer : HiveWriter) (shape : ListShape) (offsets : List UInt32) : Written :=
  writer.alloc (listBody shape offsets)

/-- Hangs a list with the given number of subkeys under a key. -/
def setSubkeys (writer : HiveWriter) (key list count : UInt32) : HiveWriter :=
  (writer.patch key 0x14 (u32Bytes count)).patch key 0x1C (u32Bytes list)

/-- The body of a list of bare offsets. -/
def offsetsBody (offsets : List UInt32) : ByteArray := joined (offsets.map u32Bytes)

/-- The segments of a long payload. -/
def segments (payload : ByteArray) : List ByteArray :=
  (List.range ((payload.size + (segmentLimit - 1)) / segmentLimit)).map fun i =>
    payload.extract (segmentLimit * i) (segmentLimit * (i + 1))

/-- The body of a big data header. -/
def bigDataBody (count : Nat) (list : UInt32) : ByteArray :=
  CellTag.bigData.mark ++ u16Bytes (UInt16.ofNat count) ++ u32Bytes list

/-- Writes the segments of a payload and their header. -/
def bigData (writer : HiveWriter) (payload : ByteArray) : Written :=
  let parts := writer.allocAll (segments payload)
  let list := parts.2.alloc (offsetsBody parts.1)
  list.writer.alloc (bigDataBody parts.1.length list.offset)

/-- The fields of a payload that stands in its value node. -/
def inlineFields (payload : ByteArray) : PayloadFields where
  size := ValueNode.inlineMark ||| UInt32.ofNat payload.size
  location := u32At (overwrite (zeros 4) 0 payload) 0

/-- Writes a payload, unless it stands in its value node. -/
def payload (writer : HiveWriter) (payload : ByteArray) : PayloadFields × HiveWriter :=
  if payload.size ≤ 4 then (inlineFields payload, writer)
  else
    let data :=
      if segmentLimit < payload.size then writer.bigData payload else writer.alloc payload
    ({ size := UInt32.ofNat payload.size, location := data.offset }, data.writer)

/-- What is written into a value node. -/
def valueParts (name : ByteArray) (code : UInt32) (fields : PayloadFields) :
    List (Nat × ByteArray) :=
  [(0, CellTag.valueNode.mark), (0x02, u16Bytes (UInt16.ofNat name.size)),
    (0x04, u32Bytes fields.size), (0x08, u32Bytes fields.location), (0x0C, u32Bytes code),
    (0x10, u16Bytes 1), (0x14, name)]

/-- The body of a value node. -/
def valueBody (name : ByteArray) (code : UInt32) (fields : PayloadFields) : ByteArray :=
  writeParts (zeros (0x14 + name.size)) (valueParts name code fields)

/-- Writes a value and its payload. -/
def value (writer : HiveWriter) (value : WrittenValue) : Written :=
  let data := writer.payload value.payload
  data.2.alloc (valueBody value.name.toUTF8 value.code data.1)

/-- Writes a list of values and hangs it under a key. -/
def setValues (writer : HiveWriter) (key : UInt32) (values : List UInt32) : HiveWriter :=
  let list := writer.alloc (offsetsBody values)
  (list.writer.patch key 0x24 (u32Bytes (UInt32.ofNat values.length))).patch key 0x28
    (u32Bytes list.offset)

/-- The number of bytes of the finished bin, which are whole pages. -/
def binsSize (writer : HiveWriter) : Nat :=
  max ((writer.bins.size + (pageSize - 1)) / pageSize) 1 * pageSize

/-- The finished bin. -/
def finishedBins (writer : HiveWriter) : ByteArray :=
  overwrite (growTo writer.bins writer.binsSize) 8 (u32Bytes (UInt32.ofNat writer.binsSize))

/-- What is written into the base block, apart from the checksum. -/
def baseBlockParts (writer : HiveWriter) : List (Nat × ByteArray) :=
  [(0, hiveSignature), (0x04, u32Bytes writer.primarySequence),
    (0x08, u32Bytes writer.secondarySequence), (0x0C, u64Bytes writtenTime),
    (0x14, u32Bytes 1), (0x18, u32Bytes 5), (0x20, u32Bytes 1), (0x24, u32Bytes writer.root),
    (0x28, u32Bytes (UInt32.ofNat writer.binsSize)), (0x2C, u32Bytes 1),
    (0x30, Utf16.encode "SYSTEM")]

/-- The base block of the file. -/
def baseBlock (writer : HiveWriter) : ByteArray :=
  let block := writeParts (zeros baseBlockSize) writer.baseBlockParts
  overwrite block checksumPosition (u32Bytes (checksum block))

/-- The finished hive file. -/
def build (writer : HiveWriter) : ByteArray := writer.baseBlock ++ writer.finishedBins

end HiveWriter

end RegistryHive
