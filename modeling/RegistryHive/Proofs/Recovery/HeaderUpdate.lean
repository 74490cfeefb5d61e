import Mathlib.Data.List.Basic
import RegistryHive.BaseBlock
import RegistryHive.Proofs.ByteParts

/-!
# Updating the base block

Recovery writes two fields of a hive file: the bins size and the checksum over
the words before it. `withBinsSize` leaves every other byte alone, and
`fieldsOf_withBinsSize` says what the base block reads afterwards: the new bins
size, a checksum that belongs to the bytes, and all other fields as before.
-/

namespace RegistryHive

/-- The position belongs to one of the two fields that recovery writes. -/
def InUpdatedField (position : Nat) : Prop :=
  (binsSizePosition ≤ position ∧ position < binsSizePosition + 4) ∨
    (checksumPosition ≤ position ∧ position < checksumPosition + 4)

theorem u32At_congr {a b : ByteArray} {start : Nat}
    (same : ∀ i, i < 4 → byteAt a (start + i) = byteAt b (start + i)) :
    u32At a start = u32At b start := by
  apply UInt32.toNat_inj.mp
  rw [toNat_u32At, toNat_u32At, littleEndian_congr same]

/-- The checksum depends on the bytes before its field only. -/
theorem checksum_congr {a b : ByteArray} (a_size : checksumPosition ≤ a.size)
    (b_size : checksumPosition ≤ b.size)
    (same : ∀ i, i < checksumPosition → byteAt a i = byteAt b i) : checksum a = checksum b := by
  rw [checksum, checksum, if_neg (by omega), if_neg (by omega)]
  apply List.foldl_ext _ _ _
  intro sum i member
  have inside := List.mem_range.mp member
  simp only [checksumPosition] at inside
  rw [u32At_congr fun k hk => same (4 * i + k) (by simp only [checksumPosition]; omega)]

namespace BaseBlock

theorem decode_eq_ok_iff {bytes : ByteArray} {block : BaseBlock} :
    decode bytes = .ok block ↔
      baseBlockSize ≤ bytes.size ∧ bytes.extract 0 4 = hiveSignature ∧ fieldsOf bytes = block := by
  rw [decode, ← and_assoc, ← checkSignature_eq_ok_iff]
  cases checkSignature bytes <;> simp [Except.map]

end BaseBlock

section WithBinsSize

variable {bytes : ByteArray} (size : UInt32)

private theorem withBinsSize_eq (full : baseBlockSize ≤ bytes.size) :
    withBinsSize bytes size =
      overwrite (overwrite bytes binsSizePosition (u32Bytes size)) checksumPosition
        (u32Bytes (checksum (overwrite bytes binsSizePosition (u32Bytes size)))) := by
  rw [withBinsSize, if_neg (by omega)]

/-- Both fields lie inside the base block, so a file keeps its length. -/
@[simp] theorem size_withBinsSize (bytes : ByteArray) :
    (withBinsSize bytes size).size = bytes.size := by
  unfold withBinsSize
  split
  · rfl
  · rename_i full
    simp only [baseBlockSize] at full
    simp only [size_overwrite, size_u32Bytes, binsSizePosition, checksumPosition]
    omega

/-- Outside of the two fields the bytes stay as they are. -/
theorem byteAt_withBinsSize (bytes : ByteArray) {position : Nat}
    (outside : ¬ InUpdatedField position) :
    byteAt (withBinsSize bytes size) position = byteAt bytes position := by
  simp only [InUpdatedField, not_or] at outside
  unfold withBinsSize
  split
  · rfl
  · rw [byteAt_overwrite, size_u32Bytes, if_neg outside.2, byteAt_overwrite, size_u32Bytes,
      if_neg outside.1]

theorem u32At_withBinsSize_of_disjoint (bytes : ByteArray) {start : Nat}
    (before_size : start + 4 ≤ checksumPosition)
    (disjoint : start + 4 ≤ binsSizePosition ∨ binsSizePosition + 4 ≤ start) :
    u32At (withBinsSize bytes size) start = u32At bytes start := by
  refine u32At_congr fun i hi => byteAt_withBinsSize size bytes ?_
  simp only [InUpdatedField]
  omega

theorem u32At_withBinsSize_binsSize (full : baseBlockSize ≤ bytes.size) :
    u32At (withBinsSize bytes size) binsSizePosition = size := by
  rw [withBinsSize_eq size full]
  refine HoldsAt.u32At_eq ((holdsAt_overwrite _ _ _).overwrite_of_disjoint (.inl ?_))
  rw [size_u32Bytes]
  decide

/-- The checksum that is stored is that of the bytes with the new bins size. -/
theorem u32At_withBinsSize_checksum (full : baseBlockSize ≤ bytes.size) :
    u32At (withBinsSize bytes size) checksumPosition = checksum (withBinsSize bytes size) := by
  have enough : checksumPosition ≤ bytes.size := Nat.le_trans (by decide) full
  rw [withBinsSize_eq size full, (holdsAt_overwrite _ _ _).u32At_eq]
  refine checksum_congr ?_ ?_ fun i hi => ?_
  · rw [size_overwrite]; omega
  · rw [size_overwrite, size_overwrite]; omega
  · -- The checksum field itself lies after the words that are summed up.
    symm
    rw [byteAt_overwrite, if_neg (by omega)]

/-- Storing a bins size once more changes nothing. -/
theorem withBinsSize_withBinsSize (full : baseBlockSize ≤ bytes.size) :
    withBinsSize (withBinsSize bytes size) size = withBinsSize bytes size := by
  have stored := u32At_withBinsSize_checksum size full
  have binsSize : HoldsAt (withBinsSize bytes size) binsSizePosition (u32Bytes size) := by
    rw [withBinsSize_eq size full]
    refine (holdsAt_overwrite _ _ _).overwrite_of_disjoint (.inl ?_)
    rw [size_u32Bytes]
    decide
  have sum : HoldsAt (withBinsSize bytes size) checksumPosition
      (u32Bytes (checksum (withBinsSize bytes size))) := by
    rw [← stored, withBinsSize_eq size full, (holdsAt_overwrite _ _ _).u32At_eq]
    exact holdsAt_overwrite _ _ _
  have full' : baseBlockSize ≤ (withBinsSize bytes size).size := by
    rwa [size_withBinsSize]
  rw [withBinsSize_eq size full', binsSize.overwrite_eq, sum.overwrite_eq]

/-- The base block and the bins can be written in either order. -/
theorem withBinsSize_overwrite (full : baseBlockSize ≤ bytes.size) {start : Nat}
    (bins : baseBlockSize ≤ start) (patch : ByteArray) :
    withBinsSize (overwrite bytes start patch) size =
      overwrite (withBinsSize bytes size) start patch := by
  simp only [baseBlockSize] at full bins
  have full' : baseBlockSize ≤ (overwrite bytes start patch).size := by
    rw [size_overwrite]
    exact Nat.le_trans full (Nat.le_max_left _ _)
  have resized : overwrite (overwrite bytes start patch) binsSizePosition (u32Bytes size) =
      overwrite (overwrite bytes binsSizePosition (u32Bytes size)) start patch := by
    apply overwrite_comm
    rw [size_u32Bytes, binsSizePosition]
    omega
  have sum : checksum (overwrite (overwrite bytes binsSizePosition (u32Bytes size)) start patch) =
      checksum (overwrite bytes binsSizePosition (u32Bytes size)) := by
    have before : checksumPosition ≤ start := Nat.le_trans (by decide) bins
    have enough : checksumPosition ≤ bytes.size := Nat.le_trans (by decide) full
    refine checksum_congr ?_ ?_ fun i hi => ?_
    · rw [size_overwrite, size_overwrite]
      omega
    · rw [size_overwrite]
      omega
    · rw [byteAt_overwrite, if_neg (by omega)]
  rw [withBinsSize_eq size full', withBinsSize_eq size full, resized, sum]
  apply overwrite_comm
  rw [size_u32Bytes, checksumPosition]
  omega

/-- The base block after a new bins size was written. -/
theorem fieldsOf_withBinsSize (full : baseBlockSize ≤ bytes.size) :
    BaseBlock.fieldsOf (withBinsSize bytes size) =
      { BaseBlock.fieldsOf bytes with
        binsSize := size
        storedChecksum := checksum (withBinsSize bytes size)
        checksumValid := true } := by
  have word (start : Nat) (before_size : start + 4 ≤ checksumPosition)
      (disjoint : start + 4 ≤ binsSizePosition ∨ binsSizePosition + 4 ≤ start) :
      u32At (withBinsSize bytes size) start = u32At bytes start :=
    u32At_withBinsSize_of_disjoint size bytes before_size disjoint
  have written : u64At (withBinsSize bytes size) 0x0C = u64At bytes 0x0C := by
    rw [u64At, u64At, word 0x0C (by decide) (by decide), word (0x0C + 4) (by decide) (by decide)]
  have name : (withBinsSize bytes size).extract 0x30 0xB0 = bytes.extract 0x30 0xB0 := by
    apply bytes_ext (by simp only [ByteArray.size_extract, size_withBinsSize])
    intro i hi
    rw [ByteArray.size_extract] at hi
    rw [byteAt_extract, byteAt_extract, size_withBinsSize, byteAt_withBinsSize]
    simp only [InUpdatedField, binsSizePosition, checksumPosition]
    omega
  simp only [BaseBlock.fieldsOf, name, written, u32At_withBinsSize_binsSize size full,
    u32At_withBinsSize_checksum size full, beq_self_eq_true, word 0x04 (by decide) (by decide),
    word 0x08 (by decide) (by decide), word 0x14 (by decide) (by decide),
    word 0x18 (by decide) (by decide), word 0x1C (by decide) (by decide),
    word 0x20 (by decide) (by decide), word 0x24 (by decide) (by decide),
    word 0x2C (by decide) (by decide)]

end WithBinsSize

end RegistryHive
