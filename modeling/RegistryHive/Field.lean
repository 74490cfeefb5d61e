import RegistryHive.Bytes
import RegistryHive.HiveError

/-!
# Checked reading of numbers

A number read at an offset is an error when its bytes leave the byte string, and
the little-endian number in these bytes otherwise. The error names the offset,
of which it keeps 32 bits, the width of the number and the bytes that are left.
-/

namespace RegistryHive

/-- The number of `width` bytes at an offset. -/
def readNumber (bytes : ByteArray) (offset width : Nat) : Except HiveError Nat :=
  if offset + width ≤ bytes.size then .ok (littleEndian bytes offset width)
  else .error (.truncated (UInt32.ofNat offset) width (bytes.size - offset))

/-- The unsigned 16-bit number at an offset. -/
def readU16 (bytes : ByteArray) (offset : Nat) : Except HiveError UInt16 :=
  (readNumber bytes offset 2).map UInt16.ofNat

/-- The unsigned 32-bit number at an offset. -/
def readU32 (bytes : ByteArray) (offset : Nat) : Except HiveError UInt32 :=
  (readNumber bytes offset 4).map UInt32.ofNat

/-- The signed 32-bit number at an offset. -/
def readI32 (bytes : ByteArray) (offset : Nat) : Except HiveError Int32 :=
  (readNumber bytes offset 4).map Int32.ofNat

/-- The unsigned 64-bit number at an offset. -/
def readU64 (bytes : ByteArray) (offset : Nat) : Except HiveError UInt64 :=
  (readNumber bytes offset 8).map UInt64.ofNat

/-- A number can be read exactly when all its bytes are there. -/
theorem readNumber_eq_ok_iff {bytes : ByteArray} {offset width value : Nat} :
    readNumber bytes offset width = .ok value ↔
      offset + width ≤ bytes.size ∧ littleEndian bytes offset width = value := by
  unfold readNumber
  split <;> simp [*]

end RegistryHive
