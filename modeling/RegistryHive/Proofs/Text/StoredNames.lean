import Mathlib.Tactic.MkIffOfInductiveProp
import RegistryHive.Cell.KeyNode
import RegistryHive.Proofs.Text.Utf16

/-!
# Names as they are stored

A name of a key or a value is stored in one byte for each character, or in
UTF-16. Either way it is read back from its bytes, when it holds no zero
character and, in one byte for each character, none past U+00FF.
-/

namespace RegistryHive

theorem ByteView.toList_eq_of_content_eq {view : ByteView} {bytes : List UInt8}
    (content : view.content = bytes.toByteArray) : view.toList = bytes := by
  have size_eq : view.size = bytes.length := by
    rw [← ByteView.size_content, content, List.size_toByteArray]
  apply List.ext_getElem (by rw [ByteView.length_toList, size_eq])
  intro i hi hi'
  rw [ByteView.getElem_toList, ← ByteView.byteAt_content, content,
    RegistryHive.byteAt_of_lt (by rw [List.size_toByteArray]; exact hi'), List.getElem_toByteArray]

namespace OneByte

/-- Reading the codes of characters other than zero gives the text back. -/
theorem decode_of_content_eq {view : ByteView} {text : String}
    (content : view.content = encode text)
    (codes : ∀ c ∈ text.toList, 0 < c.toNat ∧ c.toNat < 0x100) : decode view = text := by
  apply String.toList_inj.mp
  have nonzero : ∀ byte ∈ text.toList.map (fun c => UInt8.ofNat c.toNat), byte ≠ 0 := by
    intro byte member
    obtain ⟨c, inText, rfl⟩ := List.mem_map.mp member
    obtain ⟨positive, small⟩ := codes c inText
    intro zero
    have code := congrArg UInt8.toNat zero
    rw [UInt8.toNat_ofNat', Nat.mod_eq_of_lt small, UInt8.toNat_zero] at code
    omega
  rw [toList_decode, ByteView.toList_eq_of_content_eq content,
    List.takeWhile_eq_self_iff.mpr fun byte member => decide_eq_true (nonzero byte member),
    List.map_map]
  refine (List.map_congr_left fun c inText => ?_).trans (List.map_id _)
  obtain ⟨-, small⟩ := codes c inText
  apply Char.toNat_inj.mp
  change (UInt8.ofNat c.toNat).toUInt32.toNat = c.toNat
  rw [UInt8.toNat_toUInt32, UInt8.toNat_ofNat', Nat.mod_eq_of_lt small]

/-- A text begins with the character of its first byte, unless this byte is zero. -/
theorem mem_decode_of_byteAt_zero {view : ByteView} (inside : 0 < view.size)
    (nonzero : view.byteAt 0 ≠ 0) : Char.ofUInt8 (view.byteAt 0) ∈ (decode view).toList := by
  have long : 0 < view.toList.length := by rwa [ByteView.length_toList]
  have first := ByteView.getElem_toList view 0 long
  rw [toList_decode]
  cases bytes : view.toList with
  | nil =>
      rw [bytes] at long
      exact absurd long (Nat.lt_irrefl 0)
  | cons byte rest =>
      simp only [bytes, List.getElem_cons_zero] at first
      subst first
      have begins := List.takeWhile_cons_of_pos (l := rest)
        (p := fun byte : UInt8 => decide (byte ≠ 0)) (decide_eq_true nonzero)
      rw [begins]
      exact List.mem_cons_self

@[simp] theorem size_encode (text : String) : (encode text).size = text.toList.length := by
  rw [encode, List.size_toByteArray, List.length_map]

end OneByte

/-- The bytes of a name, in one byte for each character or in UTF-16. -/
def encodeName (compressed : Bool) (name : String) : ByteArray :=
  if compressed then OneByte.encode name else Utf16.encode name

/-- A name that can be stored: it holds no zero character, and in one byte for each character none
past U+00FF, and its length fits a field of 16 bits. -/
@[mk_iff]
structure IsStorable (compressed : Bool) (name : String) : Prop where
  nonzero : ∀ c ∈ name.toList, 0 < c.toNat
  narrow : compressed = true → ∀ c ∈ name.toList, c.toNat ≤ 0xFF
  size_le : (encodeName compressed name).size ≤ 65535

-- The characters of a name are searched one after the other, not all characters that there are.
instance (compressed : Bool) (name : String) : Decidable (IsStorable compressed name) :=
  have : Decidable (∀ c ∈ name.toList, 0 < c.toNat) := List.decidableBAll _ _
  have : Decidable (∀ c ∈ name.toList, c.toNat ≤ 0xFF) := List.decidableBAll _ _
  decidable_of_iff' _ (isStorable_iff compressed name)

/-- A name that can be stored is read back from its bytes. -/
theorem IsStorable.decodeName_eq {compressed : Bool} {name : String}
    (storable : IsStorable compressed name) {view : ByteView}
    (content : view.content = encodeName compressed name) : decodeName compressed view = name := by
  cases compressed with
  | true =>
      apply OneByte.decode_of_content_eq content
      intro c member
      exact ⟨storable.nonzero c member, Nat.lt_succ_of_le (storable.narrow rfl c member)⟩
  | false => exact Utf16.decode_of_content_eq content storable.nonzero

/-- The number of bytes of a name is read back from a field of 16 bits. -/
theorem IsStorable.toNat_size {compressed : Bool} {name : String}
    (storable : IsStorable compressed name) :
    (UInt16.ofNat (encodeName compressed name).size).toNat = (encodeName compressed name).size := by
  rw [UInt16.toNat_ofNat']
  exact Nat.mod_eq_of_lt (Nat.lt_succ_of_le storable.size_le)

/-- The characters of a name are checked one after the other. -/
theorem isPlausibleName_eq (name : String) :
    isPlausibleName name =
      (!name.isEmpty && name.toList.all fun (c : Char) => !isControl c && c != '\\') := by
  rw [isPlausibleName, String.all_bool_eq]

/-- A name is plausible when it is not empty and holds neither control characters nor
backslashes. -/
theorem isPlausibleName_iff {name : String} :
    isPlausibleName name = true ↔
      name ≠ "" ∧ ∀ c ∈ name.toList, isControl c = false ∧ c ≠ '\\' := by
  rw [isPlausibleName_eq, Bool.and_eq_true, List.all_eq_true]
  simp only [Bool.and_eq_true, Bool.not_eq_true', bne_iff_ne, Ne, String.isEmpty_eq_false_iff]

/-- A name that is not empty takes at least one byte. -/
theorem size_encodeName_pos {compressed : Bool} {name : String} (nonempty : name ≠ "") :
    0 < (encodeName compressed name).size := by
  obtain ⟨c, rest, chars⟩ : ∃ c rest, name.toList = c :: rest := by
    refine List.exists_cons_of_ne_nil fun empty => nonempty ?_
    exact String.toList_inj.mp empty
  cases compressed with
  | true =>
      change 0 < (OneByte.encode name).size
      rw [OneByte.size_encode, chars]
      exact Nat.succ_pos _
  | false =>
      have units : 0 < (Utf16.encodeChar c).length := by
        unfold Utf16.encodeChar
        split <;> exact Nat.succ_pos _
      change 0 < (Utf16.encode name).size
      rw [Utf16.size_encode, Utf16.encodeUnits, chars, List.flatMap_cons, List.length_append]
      omega

end RegistryHive
