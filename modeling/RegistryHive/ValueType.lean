import RegistryHive.Text.Hexadecimal

/-!
# Types of values

A value declares the type of its payload by a number. The numbers from 0 to 11
have a name and a meaning; every other number is kept as it is.
-/

namespace RegistryHive

/-- The declared type of a value. -/
inductive ValueType
  | none
  | string
  | expandString
  | binary
  | dword
  | dwordBigEndian
  | link
  | multiString
  | resourceList
  | fullResourceDescriptor
  | resourceRequirementsList
  | qword
  | unknown (code : UInt32)
  deriving DecidableEq, Repr

namespace ValueType

/-- The types with a name; the number of a type is its position. -/
def known : List ValueType :=
  [none, string, expandString, binary, dword, dwordBigEndian, link, multiString, resourceList,
    fullResourceDescriptor, resourceRequirementsList, qword]

/-- The type with a number. -/
def ofCode (code : UInt32) : ValueType := known.getD code.toNat (unknown code)

/-- The number of a type. -/
def code : ValueType → UInt32
  | none => 0
  | string => 1
  | expandString => 2
  | binary => 3
  | dword => 4
  | dwordBigEndian => 5
  | link => 6
  | multiString => 7
  | resourceList => 8
  | fullResourceDescriptor => 9
  | resourceRequirementsList => 10
  | qword => 11
  | unknown code => code

/-- The name of a type. -/
def name : ValueType → String
  | none => "REG_NONE"
  | string => "REG_SZ"
  | expandString => "REG_EXPAND_SZ"
  | binary => "REG_BINARY"
  | dword => "REG_DWORD"
  | dwordBigEndian => "REG_DWORD_BIG_ENDIAN"
  | link => "REG_LINK"
  | multiString => "REG_MULTI_SZ"
  | resourceList => "REG_RESOURCE_LIST"
  | fullResourceDescriptor => "REG_FULL_RESOURCE_DESCRIPTOR"
  | resourceRequirementsList => "REG_RESOURCE_REQUIREMENTS_LIST"
  | qword => "REG_QWORD"
  | unknown _ => "REG_UNKNOWN"

/-- The name of a type; an unknown type also shows its number. -/
def text : ValueType → String
  | unknown code => name (unknown code) ++ "(" ++ Hexadecimal.marked code.toNat ++ ")"
  | type => type.name

/-- Reading the number of a type gives that number back. -/
@[simp] theorem code_ofCode (number : UInt32) : (ofCode number).code = number := by
  by_cases h : number.toNat < known.length
  · have each : ∀ i, i < known.length → (known.getD i (unknown (UInt32.ofNat i))).code =
        UInt32.ofNat i := by decide
    have := each number.toNat h
    simpa [ofCode] using this
  · have large : known.length ≤ number.toNat := Nat.not_lt.mp h
    rw [ofCode, List.getD_eq_getElem?_getD, List.getElem?_eq_none large]
    rfl

end ValueType

end RegistryHive
