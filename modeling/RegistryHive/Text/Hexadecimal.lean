import RegistryHive.Bytes

/-!
# Hexadecimal text

Numbers are written in base sixteen without leading zeros, byte strings with
two digits for each byte. Digits are lower case unless a field asks for upper
case and a fixed width.
-/

namespace RegistryHive.Hexadecimal

/-- The digits of a number, lower case, without leading zeros. -/
def digits (value : Nat) : List Char := Nat.toDigits 16 value

/-- A number after the mark `0x`. -/
def marked (value : Nat) : String := "0x" ++ String.ofList (digits value)

/-- A number in upper case after the mark `0x`, filled with zeros to `width` digits. -/
def markedUpper (width value : Nat) : String :=
  "0x" ++ String.ofList (((digits value).map Char.toUpper).leftpad width '0')

/-- Appends the two digits of a byte. -/
def pushByte (text : String) (byte : UInt8) : String :=
  (text.push (Nat.digitChar (byte.toNat / 16))).push (Nat.digitChar (byte.toNat % 16))

/-- Appends the digits of the last `count` bytes. -/
def pushBytes (bytes : ByteArray) : Nat → String → String
  | 0, text => text
  | count + 1, text =>
    pushBytes bytes count (pushByte text (byteAt bytes (bytes.size - (count + 1))))

/-- Two digits for each byte, in order. -/
def ofBytes (bytes : ByteArray) : String := pushBytes bytes bytes.size ""

end RegistryHive.Hexadecimal
