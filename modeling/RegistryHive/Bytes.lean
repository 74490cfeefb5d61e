/-!
# Byte strings with little-endian fields

A hive file is read through two observations: the length of a byte string and
the byte at a position, which is zero past the end. Numbers are written least
byte first. `overwrite` places a patch at a position and fills a gap before it
with zeros; `size_overwrite` and `byteAt_overwrite` describe it completely in
terms of the two observations.
-/

namespace RegistryHive

/-- Byte strings are compared as arrays of bytes. -/
instance decidableEqByteArray : DecidableEq ByteArray := fun a b =>
  decidable_of_iff (a.data = b.data) ⟨ByteArray.ext, congrArg ByteArray.data⟩

/-- Byte `i` of a byte string, zero past its end. -/
def byteAt (bytes : ByteArray) (i : Nat) : UInt8 :=
  if h : i < bytes.size then bytes[i] else 0

theorem byteAt_of_lt {bytes : ByteArray} {i : Nat} (h : i < bytes.size) :
    byteAt bytes i = bytes[i] := by
  simp [byteAt, h]

theorem byteAt_of_le {bytes : ByteArray} {i : Nat} (h : bytes.size ≤ i) :
    byteAt bytes i = 0 := by
  simp [byteAt, Nat.not_lt.mpr h]

/-- Two byte strings of one length are equal when all their bytes are. -/
theorem bytes_ext {a b : ByteArray} (size_eq : a.size = b.size)
    (byte_eq : ∀ i, i < a.size → byteAt a i = byteAt b i) : a = b := by
  refine ByteArray.ext_getElem size_eq fun i ha hb => ?_
  simpa [byteAt_of_lt ha, byteAt_of_lt hb] using byte_eq i ha

theorem byteAt_append (a b : ByteArray) (i : Nat) :
    byteAt (a ++ b) i = if i < a.size then byteAt a i else byteAt b (i - a.size) := by
  by_cases hi : i < (a ++ b).size
  · by_cases ha : i < a.size
    · simp [byteAt_of_lt hi, byteAt_of_lt ha, ha, ByteArray.getElem_append_left ha]
    · have hle : a.size ≤ i := Nat.not_lt.mp ha
      have hb : i - a.size < b.size := by
        rw [ByteArray.size_append] at hi; omega
      simp [byteAt_of_lt hi, byteAt_of_lt hb, ha, ByteArray.getElem_append_right hle]
  · have hle : a.size + b.size ≤ i := by
      rw [ByteArray.size_append] at hi; omega
    have ha : ¬ i < a.size := by omega
    rw [byteAt_of_le (Nat.not_lt.mp hi), if_neg ha, byteAt_of_le (by omega)]

theorem byteAt_extract (bytes : ByteArray) (start stop i : Nat) :
    byteAt (bytes.extract start stop) i =
      if start + i < min stop bytes.size then byteAt bytes (start + i) else 0 := by
  by_cases hi : i < (bytes.extract start stop).size
  · have hlt : start + i < min stop bytes.size := by
      rw [ByteArray.size_extract] at hi; omega
    have hin : start + i < bytes.size := by omega
    rw [byteAt_of_lt hi, if_pos hlt, byteAt_of_lt hin, ByteArray.getElem_extract]
  · have hge : ¬ start + i < min stop bytes.size := by
      rw [ByteArray.size_extract] at hi; omega
    rw [byteAt_of_le (Nat.not_lt.mp hi), if_neg hge]

/-- The number written least byte first in the given number of bytes from a position. -/
def littleEndian (bytes : ByteArray) : Nat → Nat → Nat
  | _, 0 => 0
  | start, width + 1 =>
    (byteAt bytes start).toNat + 256 * littleEndian bytes (start + 1) width

/-- A number depends only on the bytes it is written in. -/
theorem littleEndian_congr {a b : ByteArray} {s t width : Nat}
    (h : ∀ i, i < width → byteAt a (s + i) = byteAt b (t + i)) :
    littleEndian a s width = littleEndian b t width := by
  induction width generalizing s t with
  | zero => rfl
  | succ width ih =>
    have head := h 0 (by omega)
    have tail : littleEndian a (s + 1) width = littleEndian b (t + 1) width :=
      ih fun i hi => by
        have := h (i + 1) (by omega)
        rwa [Nat.add_assoc s, Nat.add_assoc t, Nat.add_comm 1 i]
    simp only [Nat.add_zero] at head
    simp only [littleEndian, head, tail]

/-- The 16-bit word of two bytes, least byte first. -/
def word16 (a b : UInt8) : UInt16 := a.toUInt16 + 256 * b.toUInt16

/-- The 32-bit word of four bytes, least byte first. -/
def word32 (a b c d : UInt8) : UInt32 :=
  a.toUInt32 + 256 * (b.toUInt32 + 256 * (c.toUInt32 + 256 * d.toUInt32))

/-- The 64-bit word of two 32-bit words, low word first. -/
def word64 (low high : UInt32) : UInt64 := low.toUInt64 + 4294967296 * high.toUInt64

/-- The 16-bit word at a position. -/
def u16At (bytes : ByteArray) (start : Nat) : UInt16 :=
  word16 (byteAt bytes start) (byteAt bytes (start + 1))

/-- The 32-bit word at a position. -/
def u32At (bytes : ByteArray) (start : Nat) : UInt32 :=
  word32 (byteAt bytes start) (byteAt bytes (start + 1)) (byteAt bytes (start + 2))
    (byteAt bytes (start + 3))

/-- The 64-bit word at a position. -/
def u64At (bytes : ByteArray) (start : Nat) : UInt64 :=
  word64 (u32At bytes start) (u32At bytes (start + 4))

theorem toNat_word16 (a b : UInt8) : (word16 a b).toNat = a.toNat + 256 * b.toNat := by
  have ha := a.toNat_lt
  have hb := b.toNat_lt
  simp only [word16, UInt16.toNat_add, UInt16.toNat_mul, UInt8.toNat_toUInt16,
    UInt16.reduceToNat]
  omega

theorem toNat_word32 (a b c d : UInt8) :
    (word32 a b c d).toNat =
      a.toNat + 256 * (b.toNat + 256 * (c.toNat + 256 * d.toNat)) := by
  have ha := a.toNat_lt
  have hb := b.toNat_lt
  have hc := c.toNat_lt
  have hd := d.toNat_lt
  simp only [word32, UInt32.toNat_add, UInt32.toNat_mul, UInt8.toNat_toUInt32,
    UInt32.reduceToNat]
  omega

theorem toNat_word64 (low high : UInt32) :
    (word64 low high).toNat = low.toNat + 4294967296 * high.toNat := by
  have hl := low.toNat_lt
  have hh := high.toNat_lt
  simp only [word64, UInt64.toNat_add, UInt64.toNat_mul, UInt32.toNat_toUInt64,
    UInt64.reduceToNat]
  omega

/-- The words at a position are the little-endian numbers there. -/
theorem toNat_u16At (bytes : ByteArray) (start : Nat) :
    (u16At bytes start).toNat = littleEndian bytes start 2 := by
  simp [u16At, toNat_word16, littleEndian]

theorem toNat_u32At (bytes : ByteArray) (start : Nat) :
    (u32At bytes start).toNat = littleEndian bytes start 4 := by
  simp [u32At, toNat_word32, littleEndian]

theorem toNat_u64At (bytes : ByteArray) (start : Nat) :
    (u64At bytes start).toNat = littleEndian bytes start 8 := by
  simp only [u64At, toNat_word64, toNat_u32At, littleEndian, Nat.add_assoc, Nat.reduceAdd]
  omega

/-- The bytes of a number, least byte first, cut to the given width. -/
def leBytes : Nat → Nat → List UInt8
  | 0, _ => []
  | width + 1, value => UInt8.ofNat value :: leBytes width (value / 256)

@[simp] theorem length_leBytes (width value : Nat) : (leBytes width value).length = width := by
  induction width generalizing value with
  | zero => rfl
  | succ width ih => simp [leBytes, ih]

/-- The two bytes of a 16-bit word. -/
def u16Bytes (value : UInt16) : ByteArray := (leBytes 2 value.toNat).toByteArray

/-- The four bytes of a 32-bit word. -/
def u32Bytes (value : UInt32) : ByteArray := (leBytes 4 value.toNat).toByteArray

/-- The eight bytes of a 64-bit word. -/
def u64Bytes (value : UInt64) : ByteArray := (leBytes 8 value.toNat).toByteArray

@[simp] theorem size_u16Bytes (value : UInt16) : (u16Bytes value).size = 2 := by
  simp [u16Bytes]

@[simp] theorem size_u32Bytes (value : UInt32) : (u32Bytes value).size = 4 := by
  simp [u32Bytes]

@[simp] theorem size_u64Bytes (value : UInt64) : (u64Bytes value).size = 8 := by
  simp [u64Bytes]

/-- The byte string of `count` zeros, built by doubling. -/
def zeros (count : Nat) : ByteArray :=
  if count = 0 then ByteArray.empty
  else
    let half := zeros (count / 2)
    if count % 2 = 0 then half ++ half else (half ++ half).push 0
termination_by count

@[simp] theorem size_zeros (count : Nat) : (zeros count).size = count := by
  induction count using Nat.strongRecOn with
  | ind count ih =>
    rw [zeros]
    split
    · simp [*]
    · have half := ih (count / 2) (by omega)
      by_cases even : count % 2 = 0
      · simp only [even, if_true, ByteArray.size_append, half]
        omega
      · simp only [even, if_false, ByteArray.size_push, ByteArray.size_append, half]
        omega

private theorem byteAt_push_zero (bytes : ByteArray) (i : Nat) :
    byteAt (bytes.push 0) i = byteAt bytes i := by
  have key : bytes.push 0 = bytes ++ [0].toByteArray := by
    rw [ByteArray.append_toByteArray_singleton]
  rw [key, byteAt_append]
  split
  · rfl
  · rename_i hi
    have beyond : byteAt bytes i = 0 := byteAt_of_le (Nat.not_lt.mp hi)
    rw [beyond]
    by_cases h0 : i - bytes.size < ([0].toByteArray).size
    · have : i - bytes.size = 0 := by
        simpa using h0
      simp [this, byteAt]
    · exact byteAt_of_le (Nat.not_lt.mp h0)

@[simp] theorem byteAt_zeros (count i : Nat) : byteAt (zeros count) i = 0 := by
  induction count using Nat.strongRecOn generalizing i with
  | ind count ih =>
    rw [zeros]
    split
    · simp [byteAt]
    · have half := ih (count / 2) (by omega)
      by_cases even : count % 2 = 0
      · simp [even, byteAt_append, half]
      · simp [even, byteAt_push_zero, byteAt_append, half]

/-- The byte string lengthened with zeros to at least `size` bytes. -/
def growTo (bytes : ByteArray) (size : Nat) : ByteArray :=
  if bytes.size < size then bytes ++ zeros (size - bytes.size) else bytes

@[simp] theorem size_growTo (bytes : ByteArray) (size : Nat) :
    (growTo bytes size).size = max bytes.size size := by
  unfold growTo
  split
  · rw [ByteArray.size_append, size_zeros]; omega
  · omega

@[simp] theorem byteAt_growTo (bytes : ByteArray) (size i : Nat) :
    byteAt (growTo bytes size) i = byteAt bytes i := by
  unfold growTo
  split
  · rw [byteAt_append]
    split
    · rfl
    · rename_i hi
      rw [byteAt_zeros, byteAt_of_le (Nat.not_lt.mp hi)]
  · rfl

/-- The byte string with `patch` laid over it from position `start` on. It grows when the
patch reaches past its end, and a gap before the patch is filled with zeros. -/
def overwrite (bytes : ByteArray) (start : Nat) (patch : ByteArray) : ByteArray :=
  patch.copySlice 0 (growTo bytes (start + patch.size)) start patch.size

private theorem overwrite_eq_append (bytes : ByteArray) (start : Nat) (patch : ByteArray) :
    overwrite bytes start patch =
      (growTo bytes (start + patch.size)).extract 0 start ++ patch ++
        (growTo bytes (start + patch.size)).extract (start + patch.size)
          (growTo bytes (start + patch.size)).size := by
  simp [overwrite, ByteArray.copySlice_eq_append]

@[simp] theorem size_overwrite (bytes : ByteArray) (start : Nat) (patch : ByteArray) :
    (overwrite bytes start patch).size = max bytes.size (start + patch.size) := by
  rw [overwrite_eq_append]
  simp only [ByteArray.size_append, ByteArray.size_extract, size_growTo]
  omega

/-- Inside the patch the patch is seen, elsewhere the old bytes. -/
theorem byteAt_overwrite (bytes : ByteArray) (start : Nat) (patch : ByteArray) (i : Nat) :
    byteAt (overwrite bytes start patch) i =
      if start ≤ i ∧ i < start + patch.size then byteAt patch (i - start) else byteAt bytes i := by
  have head : ((growTo bytes (start + patch.size)).extract 0 start).size = start := by
    rw [ByteArray.size_extract, size_growTo]; omega
  rw [overwrite_eq_append]
  simp only [byteAt_append, ByteArray.size_append, head, byteAt_extract, byteAt_growTo,
    size_growTo, Nat.zero_add]
  by_cases below : i < start
  · rw [if_pos (by omega), if_pos below, if_pos (by omega), if_neg (by omega)]
  · by_cases inside : i < start + patch.size
    · rw [if_pos inside, if_neg below, if_pos (by omega)]
    · have position : start + patch.size + (i - (start + patch.size)) = i := by omega
      have outside : ¬ (start ≤ i ∧ i < start + patch.size) := fun h => inside h.2
      rw [if_neg inside, if_neg outside, position]
      split
      · rfl
      · rw [byteAt_of_le (by omega)]

end RegistryHive
