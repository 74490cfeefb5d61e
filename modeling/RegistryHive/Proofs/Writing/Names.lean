import Mathlib.Tactic.MkIffOfInductiveProp
import RegistryHive.Cell.ValueNode
import RegistryHive.KeyPath
import RegistryHive.Proofs.Text.StoredNames
import RegistryHive.Text.LowerCase

/-!
# Names that can be written

A name is written in one byte for each character. For the characters with
one-byte codes these bytes are those of the text itself, and reading them gives
the name back. The name of a key also has to be usable in paths, and it must not
look like a name in the shifted layout; printable characters ensure both. A name
that is no path of one component can still be stored, when the shifted reading
is not plausible either.
-/

namespace RegistryHive

/-- A name of a key: printable characters with one-byte codes, and no separator of paths. -/
@[mk_iff]
structure IsKeyName (name : String) : Prop where
  nonempty : name ≠ ""
  printable : ∀ c ∈ name.toList, 0x20 ≤ c.toNat ∧ c.toNat ≤ 0x7E ∧ c ≠ KeyPath.separator
  size_le : name.utf8ByteSize ≤ 65535

/-- A name of a value, which may be empty: characters with one-byte codes, and no zero. -/
@[mk_iff]
structure IsValueName (name : String) : Prop where
  ascii : ∀ c ∈ name.toList, 0 < c.toNat ∧ c.toNat < 0x80
  size_le : name.utf8ByteSize ≤ 65535

/-- A name of a key that is read as it was written, although it may be implausible: the shifted
reading, which begins with the fifth character, holds a separator then. -/
structure IsStoredName (name : String) : Prop where
  isValueName : IsValueName name
  nonempty : name ≠ ""
  kept : isPlausibleName name = true ∨ name.toList[4]? = some KeyPath.separator

-- The characters of a name are searched one after the other, not all characters that there are.
instance (name : String) : Decidable (IsKeyName name) :=
  have : Decidable (∀ c ∈ name.toList,
      0x20 ≤ c.toNat ∧ c.toNat ≤ 0x7E ∧ c ≠ KeyPath.separator) := List.decidableBAll _ _
  decidable_of_iff' _ (isKeyName_iff name)

instance (name : String) : Decidable (IsValueName name) :=
  have : Decidable (∀ c ∈ name.toList, 0 < c.toNat ∧ c.toNat < 0x80) :=
    List.decidableBAll _ _
  decidable_of_iff' _ (isValueName_iff name)

theorem toList_toLower (name : String) :
    name.toLower.toList = name.toList.map Char.toLower := by
  change (name.map Char.toLower).toList = _
  rw [String.toList_map]

/-- Whether two names differ in more than the case of letters is decided on their characters. -/
instance decidableToLowerNe (name other : String) :
    Decidable (name.toLower ≠ other.toLower) :=
  decidable_of_iff (name.toList.map Char.toLower ≠ other.toList.map Char.toLower) <| by
    rw [← toList_toLower, ← toList_toLower, Ne, String.toList_inj]

section Bytes

variable {name : String}

private theorem flatMap_utf8EncodeChar {chars : List Char} (ascii : ∀ c ∈ chars, c.toNat < 0x80) :
    chars.flatMap String.utf8EncodeChar = chars.map fun c => UInt8.ofNat c.toNat := by
  induction chars with
  | nil => rfl
  | cons c rest ih =>
      have first : c.val.toNat ≤ 0x7F := by
        have := ascii c List.mem_cons_self
        rw [← Char.toNat_val] at this
        omega
      have one : String.utf8EncodeChar c = [UInt8.ofNat c.toNat] := if_pos first
      rw [List.flatMap_cons, List.map_cons, one,
        ih fun d member => ascii d (List.mem_cons_of_mem c member)]
      rfl

/-- A text of characters with one-byte codes is made of these codes. -/
theorem toUTF8_eq_encode (ascii : ∀ c ∈ name.toList, c.toNat < 0x80) :
    name.toUTF8 = OneByte.encode name := by
  rw [String.toUTF8_eq_toByteArray, ← String.utf8Encode_toList]
  change (name.toList.flatMap String.utf8EncodeChar).toByteArray = _
  rw [flatMap_utf8EncodeChar ascii]
  rfl

end Bytes

namespace IsValueName

variable {name : String}

theorem toUTF8_eq (valid : IsValueName name) : name.toUTF8 = OneByte.encode name :=
  toUTF8_eq_encode fun c member => (valid.ascii c member).2

theorem size_toUTF8_le (valid : IsValueName name) : name.toUTF8.size ≤ 65535 := valid.size_le

/-- A name of a value can be stored in one byte for each character. -/
theorem isStorable (valid : IsValueName name) : IsStorable true name where
  nonzero c member := (valid.ascii c member).1
  narrow _ c member := Nat.le_trans (Nat.le_of_lt (valid.ascii c member).2) (by decide)
  size_le := by
    change (OneByte.encode name).size ≤ 65535
    rw [← valid.toUTF8_eq]
    exact valid.size_toUTF8_le

end IsValueName

namespace IsKeyName

variable {name other : String}

theorem isValueName (valid : IsKeyName name) : IsValueName name where
  ascii c member := by
    obtain ⟨low, high, -⟩ := valid.printable c member
    omega
  size_le := valid.size_le

theorem separator_not_mem (valid : IsKeyName name) : KeyPath.separator ∉ name.toList :=
  fun member => (valid.printable _ member).2.2 rfl

theorem isPlausibleName (valid : IsKeyName name) : isPlausibleName name = true := by
  refine isPlausibleName_iff.mpr ⟨valid.nonempty, ?_⟩
  intro c member
  obtain ⟨low, high, different⟩ := valid.printable c member
  refine ⟨?_, different⟩
  simp only [isControl, Bool.or_eq_false_iff, Bool.and_eq_false_iff, decide_eq_false_iff_not]
  omega

theorem isStoredName (valid : IsKeyName name) : IsStoredName name where
  isValueName := valid.isValueName
  nonempty := valid.nonempty
  kept := .inl valid.isPlausibleName

theorem lowerCase_eq (valid : IsKeyName name) : Text.lowerCase name = name.toLower := by
  rw [Text.lowerCase, if_pos]
  · rfl
  · rw [String.all_bool_eq, List.all_eq_true]
    intro c member
    have := (valid.isValueName.ascii c member).2
    simpa [Text.isAscii] using this

/-- Two names are the same name when they agree up to the case of letters. -/
theorem sameName_iff (valid : IsKeyName name) (valid' : IsKeyName other) :
    Text.SameName name other ↔ name.toLower = other.toLower := by
  rw [Text.SameName, valid.lowerCase_eq, valid'.lowerCase_eq]

end IsKeyName

namespace IsStoredName

variable {name : String}

/-- The fifth byte of a name whose fifth character is a separator. -/
theorem byteAt_toUTF8_eq (stored : IsStoredName name)
    (fifth : name.toList[4]? = some KeyPath.separator) : byteAt name.toUTF8 4 = 0x5C := by
  rw [stored.isValueName.toUTF8_eq, OneByte.encode, byteAt_toByteArray,
    List.getD_eq_getElem?_getD, List.getElem?_map, fifth]
  rfl

end IsStoredName

/-- A name with a separator is not plausible. -/
theorem isPlausibleName_eq_false {name : String} (member : KeyPath.separator ∈ name.toList) :
    isPlausibleName name = false := by
  apply Bool.eq_false_iff.mpr
  intro passes
  obtain ⟨-, visible⟩ := isPlausibleName_iff.mp passes
  exact (visible _ member).2 rfl

end RegistryHive
