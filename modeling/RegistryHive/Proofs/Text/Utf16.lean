import Mathlib.Data.List.TakeWhile
import RegistryHive.Proofs.ByteParts
import RegistryHive.Text.Utf16

/-!
# Reading UTF-16 that was written

A character is written as one unit that is no surrogate, or as a leading and a
trailing surrogate. Decoding takes each of these back as a whole
(`decodeOnto_encodeChar`), so it goes through the units of a text character by
character, and `decodeUnits_encodeUnits` gives the text back. The units stand in
their bytes at twice their indices, and only the zero character has a zero unit.
-/

namespace RegistryHive.Utf16

theorem isLeading_iff {unit : UInt16} :
    isLeading unit = true ↔ 0xD800 ≤ unit.toNat ∧ unit.toNat < 0xDC00 := by
  simp [isLeading, UInt16.le_iff_toNat_le, UInt16.lt_iff_toNat_lt]

theorem isTrailing_iff {unit : UInt16} :
    isTrailing unit = true ↔ 0xDC00 ≤ unit.toNat ∧ unit.toNat < 0xE000 := by
  simp [isTrailing, UInt16.le_iff_toNat_le, UInt16.lt_iff_toNat_lt]

/-- A character is no surrogate. -/
theorem toNat_bounds (c : Char) : c.toNat < 0xD800 ∨ (0xDFFF < c.toNat ∧ c.toNat < 0x110000) :=
  c.valid

theorem encodeChar_of_lt {c : Char} (small : c.toNat < 0x10000) :
    encodeChar c = [UInt16.ofNat c.toNat] := if_pos small

theorem encodeChar_of_le {c : Char} (large : 0x10000 ≤ c.toNat) :
    encodeChar c = [UInt16.ofNat (0xD800 + (c.toNat - 0x10000) / 0x400),
      UInt16.ofNat (0xDC00 + (c.toNat - 0x10000) % 0x400)] := if_neg (Nat.not_lt.mpr large)

section Single

variable {c : Char} (small : c.toNat < 0x10000)

include small

theorem toNat_ofNat : (UInt16.ofNat c.toNat).toNat = c.toNat := by
  rw [UInt16.toNat_ofNat']
  exact Nat.mod_eq_of_lt small

theorem isLeading_ofNat : isLeading (UInt16.ofNat c.toNat) = false := by
  have bounds := toNat_bounds c
  rw [Bool.eq_false_iff, Ne, isLeading_iff, toNat_ofNat small]
  omega

theorem isTrailing_ofNat : isTrailing (UInt16.ofNat c.toNat) = false := by
  have bounds := toNat_bounds c
  rw [Bool.eq_false_iff, Ne, isTrailing_iff, toNat_ofNat small]
  omega

end Single

/-- A unit that is no surrogate is a character of its own, whatever follows it. -/
theorem decodeOnto_cons {unit : UInt16} (leading : isLeading unit = false)
    (trailing : isTrailing unit = false) (text : String) (rest : List UInt16) :
    decodeOnto text (unit :: rest) = decodeOnto (text.push (Char.ofNat unit.toNat)) rest := by
  cases rest <;> simp [decodeOnto, leading, trailing]

/-- A character past the first 65536 is written as a pair that stands for it. -/
theorem exists_pair {c : Char} (large : 0x10000 ≤ c.toNat) :
    ∃ first second, encodeChar c = [first, second] ∧ isLeading first = true ∧
      isTrailing second = true ∧ pairChar first second = c := by
  have bounds := toNat_bounds c
  have high : (UInt16.ofNat (0xD800 + (c.toNat - 0x10000) / 0x400)).toNat =
      0xD800 + (c.toNat - 0x10000) / 0x400 := by
    rw [UInt16.toNat_ofNat']
    omega
  have low : (UInt16.ofNat (0xDC00 + (c.toNat - 0x10000) % 0x400)).toNat =
      0xDC00 + (c.toNat - 0x10000) % 0x400 := by
    rw [UInt16.toNat_ofNat']
    omega
  refine ⟨_, _, encodeChar_of_le large, ?_, ?_, ?_⟩
  · rw [isLeading_iff, high]
    omega
  · rw [isTrailing_iff, low]
    omega
  · have whole : 0x10000 + (0xD800 + (c.toNat - 0x10000) / 0x400 - 0xD800) * 0x400 +
        (0xDC00 + (c.toNat - 0x10000) % 0x400 - 0xDC00) = c.toNat := by
      omega
    rw [pairChar, high, low, whole, Char.ofNat_toNat]

/-- The units of a character are taken back as that character. -/
theorem decodeOnto_encodeChar (text : String) (c : Char) (rest : List UInt16) :
    decodeOnto text (encodeChar c ++ rest) = decodeOnto (text.push c) rest := by
  by_cases small : c.toNat < 0x10000
  · rw [encodeChar_of_lt small, List.singleton_append,
      decodeOnto_cons (isLeading_ofNat small) (isTrailing_ofNat small), toNat_ofNat small,
      Char.ofNat_toNat]
  · obtain ⟨first, second, units, leading, trailing, pair⟩ := exists_pair (Nat.le_of_not_lt small)
    rw [units, List.cons_append, List.singleton_append, decodeOnto, leading, trailing,
      Bool.and_self, if_pos rfl, pair]

theorem toList_decodeOnto_flatMap (text : String) (chars : List Char) :
    (decodeOnto text (chars.flatMap encodeChar)).toList = text.toList ++ chars := by
  induction chars generalizing text with
  | nil => simp [decodeOnto]
  | cons c rest ih =>
      rw [List.flatMap_cons, decodeOnto_encodeChar, ih, String.toList_push, List.append_assoc,
        List.singleton_append]

/-- Decoding the units of a text gives the text back. -/
theorem decodeUnits_encodeUnits (text : String) : decodeUnits (encodeUnits text) = text := by
  apply String.toList_inj.mp
  rw [decodeUnits, encodeUnits, toList_decodeOnto_flatMap]
  rfl

/-- Only the zero character is written with a zero unit. -/
theorem ne_zero_of_mem_encodeUnits {text : String} (nonzero : ∀ c ∈ text.toList, 0 < c.toNat) :
    ∀ unit ∈ encodeUnits text, unit ≠ 0 := by
  intro unit member zero
  obtain ⟨c, inText, ofChar⟩ := List.mem_flatMap.mp member
  have positive := nonzero c inText
  have bounds := toNat_bounds c
  have value := congrArg UInt16.toNat zero
  rw [UInt16.toNat_zero] at value
  by_cases small : c.toNat < 0x10000
  · rw [encodeChar_of_lt small, List.mem_singleton] at ofChar
    rw [ofChar, UInt16.toNat_ofNat'] at value
    omega
  · rw [encodeChar_of_le (Nat.not_lt.mp small)] at ofChar
    simp only [List.mem_cons, List.not_mem_nil, or_false] at ofChar
    rcases ofChar with rfl | rfl <;>
    · rw [UInt16.toNat_ofNat'] at value
      omega

/-- The bytes of units, one unit after the other. -/
def bytesOf (units : List UInt16) : ByteArray := joined (units.map u16Bytes)

theorem bytesOf_append (first later : List UInt16) :
    bytesOf (first ++ later) = bytesOf first ++ bytesOf later := by
  rw [bytesOf, List.map_append, joined_append]
  rfl

theorem bytesOf_singleton (unit : UInt16) : bytesOf [unit] = u16Bytes unit :=
  ByteArray.append_empty

/-- The bytes of a text are those of its units. -/
theorem encode_eq (text : String) : encode text = bytesOf (encodeUnits text) := by
  rw [encode, bytesOf]
  induction encodeUnits text with
  | nil => rfl
  | cons unit rest ih =>
      rw [List.flatMap_cons, List.toByteArray_append, ih]
      rfl

theorem size_of_mem_map_u16Bytes (units : List UInt16) :
    ∀ part ∈ units.map u16Bytes, part.size = 2 := by
  intro part member
  obtain ⟨unit, -, rfl⟩ := List.mem_map.mp member
  exact size_u16Bytes unit

@[simp] theorem size_bytesOf (units : List UInt16) : (bytesOf units).size = 2 * units.length := by
  rw [bytesOf, size_joined (size_of_mem_map_u16Bytes units), List.length_map]

theorem size_encode (text : String) : (encode text).size = 2 * (encodeUnits text).length := by
  rw [encode_eq, size_bytesOf]

/-- A unit stands in the bytes at twice its index. -/
theorem holdsAt_bytesOf (units : List UInt16) (i : Nat) (inside : i < units.length) :
    HoldsAt (bytesOf units) (2 * i) (u16Bytes units[i]) := by
  have part := holdsAt_joined (size_of_mem_map_u16Bytes units) i (by rwa [List.length_map])
  rwa [List.getElem_map] at part

/-- Units stand in their bytes, and the units of the bytes behind them follow. -/
theorem units_of_content_eq_append {view : ByteView} {first : List UInt16} {rest : ByteArray}
    (content : view.content = bytesOf first ++ rest) : units view = first ++ units rest := by
  have size_eq : view.size = 2 * first.length + rest.size := by
    rw [← ByteView.size_content, content, ByteArray.size_append, size_bytesOf]
  have half : view.size / 2 = first.length + rest.size / 2 := by omega
  apply List.ext_getElem
  · rw [List.length_append, length_units, length_units, half, ByteView.size_ofBytes]
  · intro i hi hi'
    simp only [units_eq, List.getElem_map, List.getElem_range]
    rw [← ByteView.u16At_content, content]
    by_cases inside : i < first.length
    · rw [List.getElem_append_left inside]
      exact ((holdsAt_bytesOf first i inside).append rest).u16At_eq
    · rw [List.getElem_append_right (Nat.le_of_not_lt inside)]
      simp only [List.getElem_map, List.getElem_range, u16At, ByteView.u16At, byteAt_append,
        size_bytesOf, ByteView.byteAt_ofBytes]
      rw [if_neg (by omega), if_neg (by omega), Nat.mul_sub]
      congr 2
      omega

/-- The units of bytes that are units and an odd byte at most are these units. -/
theorem units_of_content_eq {view : ByteView} {first : List UInt16} {rest : ByteArray}
    (content : view.content = bytesOf first ++ rest) (odd : rest.size < 2) :
    units view = first := by
  have none : units rest = [] := by
    rw [units_eq, ByteView.size_ofBytes, Nat.div_eq_of_lt odd]
    rfl
  rw [units_of_content_eq_append content, none, List.append_nil]

/-- The units of the bytes of units are these units. -/
theorem units_bytesOf (first : List UInt16) : units (bytesOf first) = first := by
  have content : ByteView.content (bytesOf first) = bytesOf first ++ ByteArray.empty := by
    rw [ByteView.content_ofBytes, ByteArray.append_empty]
  exact units_of_content_eq content (by decide)

/-- No unit of a text without the zero character ends the text. -/
theorem takeWhile_encodeUnits {text : String} (nonzero : ∀ c ∈ text.toList, 0 < c.toNat) :
    (encodeUnits text).takeWhile (fun unit => decide (unit ≠ 0)) = encodeUnits text :=
  List.takeWhile_eq_self_iff.mpr fun unit member =>
    decide_eq_true (ne_zero_of_mem_encodeUnits nonzero unit member)

/-- A text without the zero character is read back from its bytes. -/
theorem decode_of_content_eq {view : ByteView} {text : String}
    (content : view.content = encode text) (nonzero : ∀ c ∈ text.toList, 0 < c.toNat) :
    decode view = text := by
  rw [encode_eq, ← ByteArray.append_empty (b := bytesOf _)] at content
  rw [decode_eq, units_of_content_eq content (by decide), takeWhile_encodeUnits nonzero,
    decodeUnits_encodeUnits]

end RegistryHive.Utf16
