import RegistryHive.Bytes
import RegistryHive.HiveError
import RegistryHive.Text.Quoted
import RegistryHive.Text.Utf16
import RegistryHive.Timestamp

/-!
# The base block

A hive file begins with a block of 4096 bytes. Its two sequence numbers say
whether the last write finished and which log entries are newer than the file,
the root offset names the cell of the root key, and the bins size says how many
bytes of cell storage follow. Only the length of the file and its first four
bytes can make a base block unreadable; a checksum that does not fit is recorded
and left to the caller to judge.
-/

namespace RegistryHive

/-- The number of bytes before the first bin. -/
def baseBlockSize : Nat := 4096

/-- The four bytes at the start of every hive file and every log: `regf`. -/
def hiveSignature : ByteArray := [0x72, 0x65, 0x67, 0x66].toByteArray

/-- The position of the bins size in a hive file. -/
def binsSizePosition : Nat := 0x28

/-- The position of the checksum in a hive file. -/
def checksumPosition : Nat := 0x1FC

/-- The exclusive or of the 32-bit words before the checksum field, zero for a byte string that
does not reach it. -/
def checksum (bytes : ByteArray) : UInt32 :=
  if bytes.size < checksumPosition then 0
  else (List.range (checksumPosition / 4)).foldl (fun sum i => sum ^^^ u32At bytes (4 * i)) 0

/-- The fields of a base block. -/
structure BaseBlock where
  /-- Counted up before a write begins. -/
  primarySequence : UInt32
  /-- Counted up after a write is complete. -/
  secondarySequence : UInt32
  /-- The time of the last write, as stored. -/
  lastWritten : UInt64
  majorVersion : UInt32
  minorVersion : UInt32
  fileType : UInt32
  fileFormat : UInt32
  /-- The cell of the root key. -/
  rootOffset : UInt32
  /-- The number of bytes of cell storage. -/
  binsSize : UInt32
  clustering : UInt32
  /-- The end of the path under which the hive was last saved. -/
  fileName : String
  /-- The checksum as stored. -/
  storedChecksum : UInt32
  /-- The stored checksum is that of the bytes. -/
  checksumValid : Bool
  deriving DecidableEq

/-- The bytes can carry a base block: long enough, and with the mark of the format. -/
def checkSignature (bytes : ByteArray) : Except HiveError Unit :=
  if bytes.size < baseBlockSize then .error (.hiveTooSmall bytes.size baseBlockSize)
  else if bytes.extract 0 4 ≠ hiveSignature then
    .error (.invalidSignature hiveSignature (bytes.extract 0 4))
  else .ok ()

theorem checkSignature_eq_ok_iff (bytes : ByteArray) :
    checkSignature bytes = .ok () ↔
      baseBlockSize ≤ bytes.size ∧ bytes.extract 0 4 = hiveSignature := by
  unfold checkSignature
  split
  · simp; omega
  · split <;> simp_all

namespace BaseBlock

/-- The fields as they stand at the start of a byte string. -/
def fieldsOf (bytes : ByteArray) : BaseBlock where
  primarySequence := u32At bytes 0x04
  secondarySequence := u32At bytes 0x08
  lastWritten := u64At bytes 0x0C
  majorVersion := u32At bytes 0x14
  minorVersion := u32At bytes 0x18
  fileType := u32At bytes 0x1C
  fileFormat := u32At bytes 0x20
  rootOffset := u32At bytes 0x24
  binsSize := u32At bytes binsSizePosition
  clustering := u32At bytes 0x2C
  fileName := Utf16.decode (bytes.extract 0x30 0xB0)
  storedChecksum := u32At bytes checksumPosition
  checksumValid := u32At bytes checksumPosition == checksum bytes

/-- Reads the base block at the start of a byte string. -/
def decode (bytes : ByteArray) : Except HiveError BaseBlock :=
  (checkSignature bytes).map fun _ => fieldsOf bytes

/-- The last write finished. -/
def isConsistent (block : BaseBlock) : Bool :=
  block.primarySequence == block.secondarySequence

/-- The smaller sequence number. A log entry is newer than the hive when its own number is
greater. -/
def minSequence (block : BaseBlock) : UInt32 :=
  min block.primarySequence block.secondarySequence

/-- The time of the last write. -/
def lastWrittenTime (block : BaseBlock) : Instant := .ofFiletime block.lastWritten

/-- The block in one line. -/
def summary (block : BaseBlock) : String :=
  "regf v" ++ toString block.majorVersion.toNat ++ "." ++ toString block.minorVersion.toNat ++
    " seq " ++ toString block.primarySequence.toNat ++ "/" ++
    toString block.secondarySequence.toNat ++ (if block.isConsistent then "" else " (dirty)") ++
    " root " ++ Hexadecimal.marked block.rootOffset.toNat ++
    " bins " ++ Hexadecimal.marked block.binsSize.toNat ++
    " name " ++ Text.quoted block.fileName

end BaseBlock

/-- The hive file with a new bins size in its base block and the checksum that belongs to it. A
file that is too short for a base block stays as it is. -/
def withBinsSize (bytes : ByteArray) (size : UInt32) : ByteArray :=
  if bytes.size < baseBlockSize then bytes
  else
    let resized := overwrite bytes binsSizePosition (u32Bytes size)
    overwrite resized checksumPosition (u32Bytes (checksum resized))

end RegistryHive
