import RegistryHive.ByteView

/-!
# Names stored in one byte for each character

A compressed name holds one byte for each character and ends before the first
zero byte. A byte is the code point of its character, so the names reach up to
U+00FF.
-/

namespace RegistryHive.OneByte

/-- Appends the characters of the last `count` bytes of a view, up to the first zero byte. -/
def decodeOnto (bytes : ByteView) : Nat → String → String
  | 0, text => text
  | count + 1, text =>
    let byte := bytes.byteAt (bytes.size - (count + 1))
    if byte = 0 then text else decodeOnto bytes count (text.push (Char.ofUInt8 byte))

/-- The text stored at the start of a view, which ends before the first zero byte. -/
def decode (bytes : ByteView) : String := decodeOnto bytes bytes.size ""

private theorem toList_decodeOnto (bytes : ByteView) {count : Nat} (le : count ≤ bytes.size)
    (text : String) :
    (decodeOnto bytes count text).toList =
      text.toList ++ ((bytes.toList.drop (bytes.size - count)).takeWhile (· ≠ 0)).map
        Char.ofUInt8 := by
  induction count generalizing text with
  | zero =>
    rw [Nat.sub_zero, List.drop_of_length_le (by simp)]
    simp [decodeOnto]
  | succ count ih =>
    have drop : bytes.toList.drop (bytes.size - (count + 1)) =
        bytes.byteAt (bytes.size - (count + 1)) :: bytes.toList.drop (bytes.size - count) := by
      rw [List.drop_eq_getElem_cons (by simp; omega), ByteView.getElem_toList]
      congr 2
      omega
    rw [drop, decodeOnto]
    split
    · rename_i zero
      simp [zero]
    · rename_i nonzero
      simp [ih (by omega), nonzero]

/-- The text is made of the bytes before the first zero byte, as characters. -/
theorem toList_decode (bytes : ByteView) :
    (decode bytes).toList = (bytes.toList.takeWhile (· ≠ 0)).map Char.ofUInt8 := by
  simp [decode, toList_decodeOnto]

/-- The bytes of a text whose characters all lie at or below U+00FF. -/
def encode (text : String) : ByteArray :=
  (text.toList.map fun c => UInt8.ofNat c.toNat).toByteArray

end RegistryHive.OneByte
