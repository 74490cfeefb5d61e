import RegistryHive.Proofs.Cell.Fields
import RegistryHive.Proofs.Cell.SameContent

/-!
# The two layouts of a key name

The two places of a name overlap: the length in shifted layout lies where the name in canonical
layout begins. Which of the two readings a body allows is said by `KeyNode.NameFits`, and both may
be possible. A name is read if one of them is (`KeyNode.exists_readName?`), and from the shifted one
only where the canonical one is impossible, or implausible and worse (`KeyNode.of_readName?`). The
rest of a key node lies in front of the name (`KeyNode.nodeOf_of_agreeBelow`). A plausible name in
canonical layout is therefore never displaced, and what stands behind it plays no part
(`KeyNode.exists_decode_of_agreeBelow`).
-/

namespace RegistryHive.KeyNode

/-- The shifted reading is possible, and the canonical one is not, or it is implausible where the
shifted one is plausible. -/
def TakesShifted (body : ByteView) (flags : KeyFlags) : Prop :=
  NameFits body .shifted ∧
    (¬ NameFits body .canonical ∨
      ¬ isPlausibleName (nameText body flags .canonical) ∧
        isPlausibleName (nameText body flags .shifted))

/-- There is no text in no bytes. -/
theorem decodeName_of_size_eq_zero {view : ByteView} (empty : view.size = 0) (compressed : Bool) :
    decodeName compressed view = "" := by
  cases compressed with
  | true =>
      change OneByte.decode view = ""
      rw [OneByte.decode, empty]
      rfl
  | false =>
      change Utf16.decode view = ""
      rw [Utf16.decode_eq, Utf16.units_eq, empty]
      rfl

section Reading

variable {body other : ByteView} {flags : KeyFlags} {layout : NameLayout} {name : String}

theorem readName?_of_takesShifted (shifted : TakesShifted body flags) :
    readName? body flags = some (.shifted, nameText body flags .shifted) := by
  obtain ⟨fits, alone | ⟨refused, accepted⟩⟩ := shifted
  · rw [readName?, nameAt?_of_not_fits alone, nameAt?_of_fits fits]
    rfl
  · rw [readName?, nameAt?_of_fits fits, Option.filter_some, if_pos accepted]
    by_cases both : NameFits body .canonical
    · rw [nameAt?_of_fits both]
      exact if_neg refused
    · rw [nameAt?_of_not_fits both]
      rfl

theorem readName?_of_not_takesShifted (fits : NameFits body .canonical)
    (canonical : ¬ TakesShifted body flags) :
    readName? body flags = some (.canonical, nameText body flags .canonical) := by
  rw [readName?, nameAt?_of_fits fits]
  by_cases accepted : isPlausibleName (nameText body flags .canonical) = true
  · exact if_pos accepted
  · simp only [if_neg accepted]
    by_cases both : NameFits body .shifted
    · have worse : ¬ isPlausibleName (nameText body flags .shifted) = true :=
        fun better => canonical ⟨both, .inr ⟨accepted, better⟩⟩
      rw [nameAt?_of_fits both, Option.filter_some, if_neg worse]
    · rw [nameAt?_of_not_fits both]
      rfl

/-- A name that fits in some layout is read. -/
theorem exists_readName? (fits : NameFits body layout) (flags : KeyFlags) :
    ∃ read, readName? body flags = some read := by
  by_cases shifted : TakesShifted body flags
  · exact ⟨_, readName?_of_takesShifted shifted⟩
  · have canonical : NameFits body .canonical := by
      by_contra alone
      cases layout with
      | canonical => exact alone fits
      | shifted => exact shifted ⟨fits, .inl alone⟩
    exact ⟨_, readName?_of_not_takesShifted canonical shifted⟩

/-- A name is read from a layout in which it fits, and from the shifted one exactly if this is
taken. -/
theorem of_readName? (read : readName? body flags = some (layout, name)) :
    NameFits body layout ∧ name = nameText body flags layout ∧
      (layout = .shifted ↔ TakesShifted body flags) := by
  by_cases shifted : TakesShifted body flags
  · rw [readName?_of_takesShifted shifted] at read
    cases read
    exact ⟨shifted.1, rfl, fun _ => shifted, fun _ => rfl⟩
  · by_cases canonical : NameFits body .canonical
    · rw [readName?_of_not_takesShifted canonical shifted] at read
      cases read
      exact ⟨canonical, rfl, fun different => (by cases different),
        fun taken => absurd taken shifted⟩
    · have alone : ¬ NameFits body .shifted := fun fits => shifted ⟨fits, .inl canonical⟩
      rw [readName?, nameAt?_of_not_fits canonical, nameAt?_of_not_fits alone] at read
      cases read

/-- A body is read as a key node exactly if it is long enough, begins with the tag and gives a
name. -/
theorem exists_decode_iff (offset : UInt32) :
    (∃ node, decode body offset = .ok node) ↔
      minimumSize ≤ body.size ∧ HoldsAt body.content 0 CellTag.keyNode.mark ∧
        ∃ layout, NameFits body layout := by
  constructor
  · rintro ⟨node, read⟩
    obtain ⟨long, tag, layout, name, named, -⟩ := decode_eq_ok_iff.mp read
    have two_le : 2 ≤ body.size := Nat.le_trans (by decide) long
    have mark := holdsAt_mark two_le (CellTag.isAtStart_iff.mp tag)
    exact ⟨long, mark, layout, (of_readName? named).1⟩
  · rintro ⟨long, mark, layout, fits⟩
    obtain ⟨⟨taken, name⟩, named⟩ := exists_readName? fits ⟨body.u16At 0x02⟩
    exact ⟨_, decode_eq_ok_iff.mpr ⟨long, mark.isAtStart_eq, taken, name, named, rfl⟩⟩

/-- The flags and the name of a key node are those that its body is read to have. -/
theorem readName?_of_decode {offset : UInt32} {node : KeyNode}
    (read : decode body offset = .ok node) :
    node.flags = ⟨body.u16At 0x02⟩ ∧
      readName? body node.flags = some (node.layout, node.name) := by
  obtain ⟨-, -, layout, name, named, rfl⟩ := decode_eq_ok_iff.mp read
  exact ⟨rfl, named⟩

/-- The fields lie in the first bytes of a body. -/
theorem nodeOf_of_agreeBelow (agree : body.AgreeBelow other minimumSize) (layout : NameLayout)
    (name : String) : nodeOf body layout name = nodeOf other layout name := by
  have u16 (i : Nat) (inside : i + 2 ≤ minimumSize) := agree.u16At_eq inside
  have u32 (i : Nat) (inside : i + 4 ≤ minimumSize) := agree.u32At_eq inside
  have u64 (i : Nat) (inside : i + 8 ≤ minimumSize) := agree.u64At_eq inside
  simp only [nodeOf, u16 0x02 (by decide), u16 0x4A (by decide), u32 0x10 (by decide),
    u32 0x14 (by decide), u32 0x18 (by decide), u32 0x1C (by decide), u32 0x20 (by decide),
    u32 0x24 (by decide), u32 0x28 (by decide), u32 0x2C (by decide), u32 0x30 (by decide),
    u64 0x04 (by decide)]

/-- Bodies that agree in the first bytes and give the same name are read as the same key node. -/
theorem decode_of_agreeBelow (agree : body.AgreeBelow other minimumSize)
    (named : readName? other ⟨body.u16At 0x02⟩ = readName? body ⟨body.u16At 0x02⟩)
    {offset : UInt32} {node : KeyNode} (read : decode body offset = .ok node) (offset' : UInt32) :
    decode other offset' = .ok node := by
  obtain ⟨-, tag, layout, name, first, rfl⟩ := decode_eq_ok_iff.mp read
  have tag' : CellTag.keyNode.isAtStart other = true := by
    rw [CellTag.isAtStart, ← agree.byteAt_eq 0 (by decide), ← agree.byteAt_eq 1 (by decide)]
    exact tag
  have named' : readName? other ⟨other.u16At 0x02⟩ = some (layout, name) := by
    rw [← agree.u16At_eq (by decide), named, first]
  exact decode_eq_ok_iff.mpr
    ⟨agree.le_size', tag', layout, name, named', nodeOf_of_agreeBelow agree layout name⟩

/-- A name that is plausible in canonical layout has a length that is not zero. -/
theorem nameLength_pos_of_isPlausibleName
    (accepted : isPlausibleName (nameText body flags layout)) : 0 < nameLength body layout := by
  apply Nat.pos_of_ne_zero
  intro zero
  have empty : (body.part layout.namePosition (layout.namePosition + nameLength body layout)).size =
      0 := by
    rw [zero, ByteView.size_part]
    omega
  rw [nameText, decodeName_of_size_eq_zero empty] at accepted
  cases accepted

/-- The bytes behind a plausible name in canonical layout play no part in reading the name. -/
theorem readName?_of_agreeBelow
    (agree : body.AgreeBelow other (minimumSize + nameLength body .canonical))
    (accepted : isPlausibleName (nameText body flags .canonical)) :
    readName? body flags = some (.canonical, nameText body flags .canonical) ∧
      readName? other flags = some (.canonical, nameText body flags .canonical) := by
  have nonzero := nameLength_pos_of_isPlausibleName accepted
  have le := agree.le_size
  have le' := agree.le_size'
  have place : NameLayout.canonical.namePosition = minimumSize := rfl
  have word : NameLayout.canonical.lengthPosition + 2 ≤ minimumSize := by decide
  have length : nameLength other .canonical = nameLength body .canonical := by
    rw [nameLength, nameLength, agree.u16At_eq (by omega)]
  have text : nameText other flags .canonical = nameText body flags .canonical := by
    rw [nameText, nameText, length, place]
    exact (decodeName_congr (agree.part (Nat.le_refl _) minimumSize) flags.isCompressed).symm
  have fits : NameFits body .canonical := ⟨by omega, nonzero, by omega⟩
  have fits' : NameFits other .canonical := ⟨by omega, by omega, by omega⟩
  refine ⟨readName?_canonical (nameAt?_of_fits fits) accepted, ?_⟩
  rw [← text] at accepted ⊢
  exact readName?_canonical (nameAt?_of_fits fits') accepted

/-- Bodies that agree up to the end of a plausible name in canonical layout are read as the same key
node, which has this name. -/
theorem exists_decode_of_agreeBelow (mark : HoldsAt body.content 0 CellTag.keyNode.mark)
    (accepted : isPlausibleName (nameText body ⟨body.u16At 0x02⟩ .canonical))
    (agree : body.AgreeBelow other (minimumSize + nameLength body .canonical)) :
    ∃ node, node.layout = .canonical ∧ node.name = nameText body ⟨body.u16At 0x02⟩ .canonical ∧
      ∀ offset, decode body offset = .ok node ∧ decode other offset = .ok node := by
  obtain ⟨named, named'⟩ := readName?_of_agreeBelow agree accepted
  have first : body.AgreeBelow other minimumSize := agree.mono (Nat.le_add_right _ _)
  have read (offset : UInt32) : decode body offset =
      .ok (nodeOf body .canonical (nameText body ⟨body.u16At 0x02⟩ .canonical)) :=
    decode_eq_ok_iff.mpr ⟨first.le_size, mark.isAtStart_eq, .canonical, _, named, rfl⟩
  refine ⟨_, rfl, rfl, fun offset => ⟨read offset, ?_⟩⟩
  exact decode_of_agreeBelow first (named'.trans named.symm) (read offset) offset

end Reading

/-- A body is read as a key node exactly if it is long enough, begins with the tag and gives a name
that fits in one of the layouts. The name is read from the shifted layout exactly if it fits there
and the canonical reading is impossible, or implausible where the shifted one is plausible. Bodies
that agree up to the end of a plausible name in canonical layout are read as the same key node. -/
theorem decode_layouts (body : ByteView) :
    (∀ offset, (∃ node, decode body offset = .ok node) ↔
      minimumSize ≤ body.size ∧ HoldsAt body.content 0 CellTag.keyNode.mark ∧
        ∃ layout, NameFits body layout) ∧
    (∀ offset node, decode body offset = .ok node →
      NameFits body node.layout ∧ node.name = nameText body node.flags node.layout ∧
      (node.layout = .shifted ↔ NameFits body .shifted ∧
        (¬ NameFits body .canonical ∨
          ¬ isPlausibleName (nameText body node.flags .canonical) ∧
            isPlausibleName (nameText body node.flags .shifted)))) ∧
    (HoldsAt body.content 0 CellTag.keyNode.mark →
      isPlausibleName (nameText body ⟨body.u16At 0x02⟩ .canonical) →
      ∀ other, body.AgreeBelow other (minimumSize + nameLength body .canonical) →
      ∃ node, node.layout = .canonical ∧ node.name = nameText body ⟨body.u16At 0x02⟩ .canonical ∧
        ∀ offset, decode body offset = .ok node ∧ decode other offset = .ok node) := by
  refine ⟨exists_decode_iff, ?_, ?_⟩
  · intro offset node read
    exact of_readName? (readName?_of_decode read).2
  · intro mark accepted other agree
    exact exists_decode_of_agreeBelow mark accepted agree

/-- A key node with the name A in UTF-16. In shifted layout the letter is a length of 65. -/
def utf16NameBody : ByteArray :=
  ([0x6E, 0x6B] ++ List.replicate 70 0 ++ [2, 0, 0, 0, 0x41, 0] : List UInt8).toByteArray

/-- Enough bytes for a plausible name of this length. -/
def trailingText : ByteArray := (List.replicate 80 0x42 : List UInt8).toByteArray

/-- The name A is read from the canonical layout, also where the bytes behind it make a plausible
name in shifted layout. -/
theorem decode_layouts_utf16Name :
    NameFits (.ofBytes (utf16NameBody ++ trailingText)) .shifted ∧
      isPlausibleName (nameText (.ofBytes (utf16NameBody ++ trailingText)) ⟨0⟩ .shifted) ∧
      ∃ node, node.layout = .canonical ∧ node.name = "A" ∧
        ∀ offset, decode (.ofBytes utf16NameBody) offset = .ok node ∧
          decode (.ofBytes (utf16NameBody ++ trailingText)) offset = .ok node := by
  have name : nameText (.ofBytes utf16NameBody) ⟨(ByteView.ofBytes utf16NameBody).u16At 0x02⟩
      .canonical = "A" := by decide +kernel
  have accepted : isPlausibleName "A" := by
    rw [isPlausibleName_eq]
    decide
  have fits : NameFits (.ofBytes (utf16NameBody ++ trailingText)) .shifted :=
    ⟨by decide +kernel, by decide +kernel, by decide +kernel⟩
  have accepted' : isPlausibleName
      (nameText (.ofBytes (utf16NameBody ++ trailingText)) ⟨0⟩ .shifted) := by
    rw [isPlausibleName_eq]
    decide +kernel
  have mark : HoldsAt (ByteView.ofBytes utf16NameBody).content 0 CellTag.keyNode.mark :=
    holdsAt_mark (by decide) (by decide)
  have agree := ByteView.agreeBelow_append utf16NameBody trailingText
  have size : utf16NameBody.size =
      minimumSize + nameLength (.ofBytes utf16NameBody) .canonical := by decide
  rw [size] at agree
  obtain ⟨-, -, unmoved⟩ := decode_layouts (.ofBytes utf16NameBody)
  rw [name] at unmoved
  exact ⟨fits, accepted', unmoved mark accepted _ agree⟩

end RegistryHive.KeyNode
