import RegistryHive.Cell.Tag

/-!
# Big data headers

A payload that does not fit into one cell is cut into segments. The header of
such a payload holds the number of segments and the offset of the cell that
lists them.
-/

namespace RegistryHive

/-- The header of a segmented payload. -/
structure BigData where
  segmentCount : UInt16
  /-- The cell with the offsets of the segments. -/
  segmentList : UInt32
  deriving DecidableEq, Repr

namespace BigData

/-- The number of bytes of a header. -/
def headerSize : Nat := 8

/-- Reads a big data header from a cell body. The offset is only named in errors. -/
def decode (body : ByteView) (offset : UInt32) : Except HiveError BigData :=
  if body.size < headerSize then .error (.truncated offset headerSize body.size)
  else if !CellTag.bigData.isAtStart body then .error (.malformed (.notBigData offset))
  else .ok { segmentCount := body.u16At 2, segmentList := body.u32At 4 }

end BigData

end RegistryHive
