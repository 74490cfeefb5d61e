import RegistryHive.Bytes
import RegistryHive.Text.Hexadecimal
import RegistryHive.Text.Utf16
import RegistryHive.ValueType

/-!
# Interpreted payloads

The declared type of a value says how its payload is read: as text, as a number,
as a list of texts or as plain bytes. A number whose payload is too short is no
value; a 64-bit number may be stored in its low half alone.
-/

namespace RegistryHive

/-- A payload interpreted by its type. -/
inductive ValueData
  | none
  | string (text : String)
  | expandString (text : String)
  | link (text : String)
  | binary (bytes : ByteArray)
  | dword (number : UInt32)
  | dwordBigEndian (number : UInt32)
  | multiString (texts : List String)
  | qword (number : UInt64)
  deriving DecidableEq

/-- The 32-bit number written most significant byte first at the start of a byte string. -/
def bigEndianU32 (bytes : ByteArray) : UInt32 :=
  UInt32.ofNat <|
    (((byteAt bytes 0).toNat * 256 + (byteAt bytes 1).toNat) * 256 +
      (byteAt bytes 2).toNat) * 256 + (byteAt bytes 3).toNat

/-- Goes through units and gathers the texts between zero units. The texts found so far stand in
`found`, last text first, and the units of the current text in `segment`, last unit first. A zero
unit that follows a zero unit ends the list; empty texts are dropped. -/
def gatherTexts (found : List String) (segment : List UInt16) (afterZero : Bool) :
    List UInt16 → List String
  | [] => (addText segment found).reverse
  | unit :: rest =>
    if unit = 0 then
      if afterZero then found.reverse
      else gatherTexts (addText segment found) [] true rest
    else gatherTexts found (unit :: segment) false rest
where
  /-- Adds the text of a segment, unless the segment is empty. -/
  addText (segment : List UInt16) (found : List String) : List String :=
    if segment.isEmpty then found else Utf16.decodeUnits segment.reverse :: found

/-- The texts of a payload that holds a list of texts, each ended by a zero unit. -/
def splitTexts (bytes : ByteArray) : List String :=
  gatherTexts [] [] false (Utf16.units bytes)

namespace ValueData

/-- Interprets a payload by its type. -/
def decode (bytes : ByteArray) (type : ValueType) : ValueData :=
  match type with
  | .none => none
  | .string => string (Utf16.decode bytes)
  | .expandString => expandString (Utf16.decode bytes)
  | .link => link (Utf16.decode bytes)
  | .dword => if 4 ≤ bytes.size then dword (u32At bytes 0) else none
  | .dwordBigEndian => if 4 ≤ bytes.size then dwordBigEndian (bigEndianU32 bytes) else none
  | .qword =>
    if 8 ≤ bytes.size then qword (u64At bytes 0)
    else if 4 ≤ bytes.size then qword (u32At bytes 0).toUInt64
    else none
  | .multiString => multiString (splitTexts bytes)
  | .binary | .resourceList | .fullResourceDescriptor | .resourceRequirementsList | .unknown _ =>
    binary bytes

/-- The text of a string, an expandable string or a link. -/
def text? : ValueData → Option String
  | string text | expandString text | link text => some text
  | _ => Option.none

/-- The 32-bit number of either byte order. -/
def u32? : ValueData → Option UInt32
  | dword number | dwordBigEndian number => some number
  | _ => Option.none

/-- The 64-bit number. -/
def u64? : ValueData → Option UInt64
  | qword number => some number
  | _ => Option.none

/-- The plain bytes. -/
def bytes? : ValueData → Option ByteArray
  | binary bytes => some bytes
  | _ => Option.none

/-- The list of texts. -/
def texts? : ValueData → Option (List String)
  | multiString texts => some texts
  | _ => Option.none

/-- The payload as one text: numbers in decimal and in hexadecimal, bytes in hexadecimal. -/
def render : ValueData → String
  | none => "(none)"
  | string text | expandString text | link text => text
  | binary bytes => Hexadecimal.ofBytes bytes
  | dword number | dwordBigEndian number =>
    toString number.toNat ++ " (" ++ Hexadecimal.markedUpper 8 number.toNat ++ ")"
  | qword number =>
    toString number.toNat ++ " (" ++ Hexadecimal.markedUpper 16 number.toNat ++ ")"
  | multiString texts => ", ".intercalate texts

end ValueData

end RegistryHive
