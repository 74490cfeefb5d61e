import RegistryHive.Cell.Tag
import RegistryHive.Text.OneByte
import RegistryHive.Text.Utf16
import RegistryHive.Timestamp

/-!
# Key nodes

A key node holds the name, the time of the last change and the counts and
offsets that link a key to its subkeys and values. Some writers place the length
of the name and the name four bytes later than others; `readName?` chooses
between the two layouts. A layout can be read when its length is not zero and
its name ends inside the cell. The canonical reading is taken unless its name is
implausible and the shifted reading gives a plausible one.
-/

namespace RegistryHive

/-- The flag word of a key node. -/
structure KeyFlags where
  bits : UInt16
  deriving DecidableEq, Repr

namespace KeyFlags

/-- Some bit of the mask is set. -/
def contains (flags : KeyFlags) (mask : UInt16) : Bool := flags.bits &&& mask != 0

/-- The key exists only in memory. -/
def isVolatile (flags : KeyFlags) : Bool := flags.contains 0x0001

/-- The key is the root of its hive. -/
def isRoot (flags : KeyFlags) : Bool := flags.contains 0x0004

/-- The key stands for another key. -/
def isSymlink (flags : KeyFlags) : Bool := flags.contains 0x0010

/-- The name is stored in one byte for each character. -/
def isCompressed (flags : KeyFlags) : Bool := flags.contains 0x0020

end KeyFlags

/-- The two places where a key node can keep its name. -/
inductive NameLayout
  | canonical
  | shifted
  deriving DecidableEq, Repr

namespace NameLayout

/-- The position of the length of the name. -/
def lengthPosition : NameLayout → Nat
  | canonical => 0x48
  | shifted => 0x4C

/-- The position of the name. -/
def namePosition (layout : NameLayout) : Nat := layout.lengthPosition + 4

end NameLayout

/-- A key node. Offsets are relative to the first bin. -/
structure KeyNode where
  flags : KeyFlags
  /-- The time of the last change, as stored. -/
  lastWritten : UInt64
  parent : UInt32
  subkeyCount : UInt32
  volatileSubkeyCount : UInt32
  /-- The list of the subkeys. -/
  subkeyList : UInt32
  volatileSubkeyList : UInt32
  valueCount : UInt32
  /-- The cell with the offsets of the value nodes. -/
  valueList : UInt32
  security : UInt32
  className : UInt32
  classNameLength : UInt16
  /-- The layout that the name was read from. -/
  layout : NameLayout
  name : String
  deriving DecidableEq

/-- A name of a key or a value, in one byte for each character or in UTF-16. -/
def decodeName (compressed : Bool) (bytes : ByteView) : String :=
  if compressed then OneByte.decode bytes else Utf16.decode bytes

/-- The character is a control character. -/
def isControl (c : Char) : Bool :=
  c.toNat < 0x20 || (0x7F ≤ c.toNat && c.toNat < 0xA0)

/-- A plausible name is not empty and holds neither control characters nor backslashes. -/
def isPlausibleName (name : String) : Bool :=
  !name.isEmpty && name.all fun (c : Char) => !isControl c && c != '\\'

namespace KeyNode

/-- The number of bytes of a key node before a name in canonical layout. -/
def minimumSize : Nat := 0x4C

/-- The name that a cell body holds in a layout, if that layout can be read. -/
def nameAt? (body : ByteView) (flags : KeyFlags) (layout : NameLayout) : Option String :=
  let length := (body.u16At layout.lengthPosition).toNat
  let start := layout.namePosition
  if layout.lengthPosition + 2 ≤ body.size ∧ 0 < length ∧ start + length ≤ body.size then
    some (decodeName flags.isCompressed (body.part start (start + length)))
  else none

/-- The name of a cell body and the layout it is read from. -/
def readName? (body : ByteView) (flags : KeyFlags) : Option (NameLayout × String) :=
  match nameAt? body flags .canonical with
  | none => (nameAt? body flags .shifted).map (.shifted, ·)
  | some name =>
    if isPlausibleName name then some (.canonical, name)
    else
      match (nameAt? body flags .shifted).filter isPlausibleName with
      | some shiftedName => some (.shifted, shiftedName)
      | none => some (.canonical, name)

/-- Reads a key node from a cell body. The offset is only named in errors. -/
def decode (body : ByteView) (offset : UInt32) : Except HiveError KeyNode :=
  if body.size < minimumSize then .error (.truncated offset minimumSize body.size)
  else if !CellTag.keyNode.isAtStart body then .error (.malformed (.notKeyNode offset))
  else
    let flags : KeyFlags := ⟨body.u16At 0x02⟩
    match readName? body flags with
    | none => .error (.malformed (.nameOverrun offset))
    | some (layout, name) =>
      .ok {
        flags := flags
        lastWritten := body.u64At 0x04
        parent := body.u32At 0x10
        subkeyCount := body.u32At 0x14
        volatileSubkeyCount := body.u32At 0x18
        subkeyList := body.u32At 0x1C
        volatileSubkeyList := body.u32At 0x20
        valueCount := body.u32At 0x24
        valueList := body.u32At 0x28
        security := body.u32At 0x2C
        className := body.u32At 0x30
        classNameLength := body.u16At 0x4A
        layout := layout
        name := name }

/-- The time of the last change. -/
def lastWrittenTime (node : KeyNode) : Instant := .ofFiletime node.lastWritten

/-- The node declares a subkey. -/
def hasSubkeys (node : KeyNode) : Bool := node.subkeyCount != 0

/-- The node declares a value. -/
def hasValues (node : KeyNode) : Bool := node.valueCount != 0

end KeyNode

end RegistryHive
