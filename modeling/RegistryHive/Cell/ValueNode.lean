import RegistryHive.Cell.KeyNode
import RegistryHive.ValueType

/-!
# Value nodes

A value node holds the name and the type of a value and says where its payload
is. A payload of at most four bytes may stand in the offset field itself; the
high bit of the size field marks this, and a size field of zero counts as such a
payload too.
-/

namespace RegistryHive

/-- A value node. -/
structure ValueNode where
  nameLength : UInt16
  /-- The size field as stored, with the mark of an inline payload. -/
  rawSize : UInt32
  /-- The data cell, or the bytes of an inline payload. -/
  dataOffset : UInt32
  type : ValueType
  flags : UInt16
  /-- The name, which is empty for the default value. -/
  name : String
  deriving DecidableEq

namespace ValueNode

/-- The number of bytes of a value node before its name. -/
def minimumSize : Nat := 0x14

/-- The bit of the size field that marks an inline payload. -/
def inlineMark : UInt32 := 0x80000000

/-- Reads a value node from a cell body. The offset is only named in errors. -/
def decode (body : ByteView) (offset : UInt32) : Except HiveError ValueNode :=
  let nameLength := body.u16At 0x02
  let nameEnd := minimumSize + nameLength.toNat
  let flags := body.u16At 0x10
  if body.size < minimumSize then .error (.truncated offset minimumSize body.size)
  else if !CellTag.valueNode.isAtStart body then .error (.malformed (.notValueNode offset))
  else if body.size < nameEnd then .error (.truncated offset nameEnd body.size)
  else
    .ok {
      nameLength := nameLength
      rawSize := body.u32At 0x04
      dataOffset := body.u32At 0x08
      type := .ofCode (body.u32At 0x0C)
      flags := flags
      name := decodeName (flags &&& 1 != 0) (body.part minimumSize nameEnd) }

/-- The length of the payload. -/
def dataLength (node : ValueNode) : UInt32 := node.rawSize &&& 0x7FFFFFFF

/-- The payload stands in the offset field. -/
def isInline (node : ValueNode) : Bool :=
  node.rawSize &&& inlineMark != 0 || node.rawSize == 0

/-- The payload that stands in the offset field, at most four bytes. -/
def inlineData (node : ValueNode) : ByteArray :=
  (u32Bytes node.dataOffset).extract 0 node.dataLength.toNat

end ValueNode

end RegistryHive
