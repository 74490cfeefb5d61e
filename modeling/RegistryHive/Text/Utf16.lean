import RegistryHive.ByteView

/-!
# UTF-16

A text is stored as 16-bit units, least byte first, and ends before the first
zero unit. Two units, a leading and a trailing surrogate, stand for one
character past the first 65536; every other unit that is not a surrogate stands
for one character. Decoding drops surrogates that are not part of such a pair
and keeps everything else.
-/

namespace RegistryHive.Utf16

/-- The unit may begin a pair. -/
def isLeading (unit : UInt16) : Bool := 0xD800 ≤ unit && unit < 0xDC00

/-- The unit may end a pair. -/
def isTrailing (unit : UInt16) : Bool := 0xDC00 ≤ unit && unit < 0xE000

/-- The character that a leading and a trailing surrogate stand for. -/
def pairChar (leading trailing : UInt16) : Char :=
  Char.ofNat (0x10000 + (leading.toNat - 0xD800) * 0x400 + (trailing.toNat - 0xDC00))

/-- Appends the characters that units stand for, without unpaired surrogates. -/
def decodeOnto (text : String) : List UInt16 → String
  | [] => text
  | [unit] =>
    if isLeading unit || isTrailing unit then text else text.push (Char.ofNat unit.toNat)
  | unit :: next :: rest =>
    if isLeading unit && isTrailing next then decodeOnto (text.push (pairChar unit next)) rest
    else if isLeading unit || isTrailing unit then decodeOnto text (next :: rest)
    else decodeOnto (text.push (Char.ofNat unit.toNat)) (next :: rest)

/-- The text that the units stand for, without its unpaired surrogates. -/
def decodeUnits (units : List UInt16) : String := decodeOnto "" units

/-- Puts the first `count` units of a view before other units. -/
def unitsBefore (bytes : ByteView) : Nat → List UInt16 → List UInt16
  | 0, rest => rest
  | count + 1, rest => unitsBefore bytes count (bytes.u16At (2 * count) :: rest)

/-- The 16-bit units of a view; an odd last byte is ignored. -/
def units (bytes : ByteView) : List UInt16 := unitsBefore bytes (bytes.size / 2) []

/-- The index of the first zero unit among the last `count` units, or else the number of all
units. -/
def textLength (bytes : ByteView) : Nat → Nat
  | 0 => bytes.size / 2
  | count + 1 =>
    let i := bytes.size / 2 - (count + 1)
    if bytes.u16At (2 * i) = 0 then i else textLength bytes count

/-- The text stored at the start of a view, which ends before the first zero unit. -/
def decode (bytes : ByteView) : String :=
  decodeUnits (unitsBefore bytes (textLength bytes (bytes.size / 2)) [])

private theorem unitsBefore_eq (bytes : ByteView) (count : Nat) (rest : List UInt16) :
    unitsBefore bytes count rest =
      (List.range count).map (fun i => bytes.u16At (2 * i)) ++ rest := by
  induction count generalizing rest with
  | zero => rfl
  | succ count ih => simp [unitsBefore, ih, List.range_succ]

/-- The unit at an index stands at twice the index. -/
theorem units_eq (bytes : ByteView) :
    units bytes = (List.range (bytes.size / 2)).map fun i => bytes.u16At (2 * i) := by
  simp [units, unitsBefore_eq]

@[simp] theorem length_units (bytes : ByteView) : (units bytes).length = bytes.size / 2 := by
  simp [units_eq]

private theorem textLength_eq (bytes : ByteView) {count : Nat} (le : count ≤ bytes.size / 2) :
    textLength bytes count = bytes.size / 2 - count +
      (((units bytes).drop (bytes.size / 2 - count)).takeWhile (· ≠ 0)).length := by
  induction count with
  | zero =>
    rw [Nat.sub_zero, List.drop_of_length_le (by simp)]
    simp [textLength]
  | succ count ih =>
    have drop : (units bytes).drop (bytes.size / 2 - (count + 1)) =
        bytes.u16At (2 * (bytes.size / 2 - (count + 1))) ::
          (units bytes).drop (bytes.size / 2 - count) := by
      rw [List.drop_eq_getElem_cons (by simp; omega)]
      congr 1
      · simp [units_eq]
      · congr 1
        omega
    rw [drop, textLength]
    split
    · rename_i zero
      simp [zero]
    · rename_i nonzero
      rw [ih (by omega), List.takeWhile_cons_of_pos (by simpa using nonzero), List.length_cons]
      omega

/-- The text is decoded from the units before the first zero unit. -/
theorem decode_eq (bytes : ByteView) :
    decode bytes = decodeUnits ((units bytes).takeWhile (· ≠ 0)) := by
  have length := textLength_eq bytes (Nat.le_refl _)
  have text := List.prefix_iff_eq_take.mp (List.takeWhile_prefix (l := units bytes) (· ≠ 0))
  have le := (List.takeWhile_prefix (l := units bytes) (· ≠ 0)).length_le
  rw [length_units] at le
  rw [Nat.sub_self, List.drop_zero, Nat.zero_add] at length
  have first : unitsBefore bytes (textLength bytes (bytes.size / 2)) [] =
      (units bytes).take (textLength bytes (bytes.size / 2)) := by
    rw [unitsBefore_eq, units_eq, List.append_nil, ← List.map_take, List.take_range,
      Nat.min_eq_left (length ▸ le)]
  rw [decode, first, length, ← text]

/-- The one or two units of a character. -/
def encodeChar (c : Char) : List UInt16 :=
  if c.toNat < 0x10000 then [UInt16.ofNat c.toNat]
  else
    [UInt16.ofNat (0xD800 + (c.toNat - 0x10000) / 0x400),
      UInt16.ofNat (0xDC00 + (c.toNat - 0x10000) % 0x400)]

/-- The units of a text. -/
def encodeUnits (text : String) : List UInt16 := text.toList.flatMap encodeChar

/-- The bytes of a text, without an end mark. -/
def encode (text : String) : ByteArray :=
  ((encodeUnits text).flatMap fun unit => leBytes 2 unit.toNat).toByteArray

end RegistryHive.Utf16
