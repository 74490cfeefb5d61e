import RegistryHive.Proofs.Cell.Fields

/-!
# Reading a cell that was written

A cell is encoded by laying the parts of its structure over given bytes, which
remain visible in the gaps between the fields. The parts never overlap
(`disjoint_parts`), so all of them stand in the encoded body, and further bytes
behind it do not move them: every structure is read back
(`decode_encode_padded`). Only a key node in shifted layout needs more than its
parts, because the bytes that are shown in the canonical place of its name must
not look like a name.
-/

namespace RegistryHive

namespace KeyNode

/-- A key node that can be written: its name is not empty and can be stored, and it holds neither
control characters nor backslashes. -/
@[mk_iff]
structure Writable (node : KeyNode) : Prop where
  nonempty : node.name ≠ ""
  visible : ∀ c ∈ node.name.toList, isControl c = false ∧ c ≠ '\\'
  storable : IsStorable node.flags.isCompressed node.name

instance (node : KeyNode) : Decidable node.Writable :=
  have : Decidable (∀ c ∈ node.name.toList, isControl c = false ∧ c ≠ '\\') :=
    List.decidableBAll _ _
  decidable_of_iff' _ (writable_iff node)

section Reading

variable {node : KeyNode} {view : ByteView}

/-- The name of a key node is found in its layout. In canonical layout this needs no condition on
the bytes behind it, which may look like a name in shifted layout. -/
theorem Writable.readName?_eq (writable : node.Writable)
    (stands : HoldsParts view.content node.parts)
    (alone : node.layout = .shifted → LacksCanonicalName view.content view.size) :
    readName? view node.flags = some (node.layout, node.name) := by
  have length := stands
    (node.layout.lengthPosition, u16Bytes (UInt16.ofNat node.nameBytes.size)) (by simp [parts])
  have bytes := stands (node.layout.namePosition, node.nameBytes) (by simp [parts])
  have read := nameAt?_eq_some writable.nonempty writable.storable length bytes
  cases layout : node.layout with
  | canonical =>
      rw [layout] at read
      exact readName?_canonical read
        (isPlausibleName_iff.mpr ⟨writable.nonempty, writable.visible⟩)
  | shifted =>
      rw [layout] at read
      exact readName?_shifted read (alone layout)

end Reading

end KeyNode

namespace Cell

/-- The tag of a cell. -/
def tag : Cell → CellTag
  | key _ => .keyNode
  | value _ => .valueNode
  | subkeyList list => .subkeyList list.shape
  | bigData _ => .bigData
  | security => .security

/-- What stands in the body of a cell. -/
def parts : Cell → List (Nat × ByteArray)
  | key node => node.parts
  | value node => node.parts
  | subkeyList list => list.parts
  | bigData header => header.parts
  | security => [(0x00, CellTag.security.mark)]

/-- The number of bytes that the parts of a cell take, with the gaps between them. -/
def encodedSize : Cell → Nat
  | key node => node.layout.namePosition + node.nameBytes.size
  | value node => ValueNode.minimumSize + node.nameBytes.size
  | subkeyList list => SlotTable.headerSize + list.shape.slotSize * list.slots.length
  | bigData _ => BigData.headerSize
  | security => 2

/-- What a cell holds can be written. -/
def Writable : Cell → Prop
  | key node => node.Writable
  | value node => node.Writable
  | subkeyList list => list.Writable
  | bigData _ => True
  | security => True

/-- The name of a key in shifted layout is the only one in a body of the given size. -/
def HasOneName (bytes : ByteArray) (size : Nat) : Cell → Prop
  | key node => node.layout = .shifted → KeyNode.LacksCanonicalName bytes size
  | _ => True

/-- Lays the parts of a cell over given bytes, which are shown where no part stands. -/
def encode (cell : Cell) (blank : ByteArray) : ByteArray := writeParts blank cell.parts

/-- The parts of a cell do not overlap. -/
theorem disjoint_parts (cell : Cell) :
    cell.parts.Pairwise fun a b => a.1 + a.2.size ≤ b.1 ∨ b.1 + b.2.size ≤ a.1 := by
  cases cell with
  | key node =>
      cases layout : node.layout <;>
        simp [parts, KeyNode.parts, layout, NameLayout.namePosition, NameLayout.lengthPosition]
  | value node => simp [parts, ValueNode.parts]
  | subkeyList list => simp [parts, SubkeyList.parts]
  | bigData header => simp [parts, BigData.parts]
  | security => simp [parts]

section Encoded

variable {cell : Cell} {blank : ByteArray}

/-- The parts of a cell fit into its size. -/
theorem Writable.fit_parts (writable : cell.Writable) :
    ∀ part ∈ cell.parts, part.1 + part.2.size ≤ cell.encodedSize := by
  cases cell with
  | key node =>
      have before : 0x4C ≤ node.layout.namePosition := by cases node.layout <;> decide
      have field : node.layout.lengthPosition + 2 ≤ node.layout.namePosition := by
        rw [NameLayout.namePosition]
        omega
      simp only [parts, encodedSize, KeyNode.parts, List.mem_cons, List.not_mem_nil,
        or_false, forall_eq_or_imp, forall_eq, CellTag.size_mark, size_u16Bytes, size_u32Bytes,
        size_u64Bytes]
      omega
  | value node =>
      simp only [parts, encodedSize, ValueNode.parts, ValueNode.minimumSize, List.mem_cons,
        List.not_mem_nil, or_false, forall_eq_or_imp, forall_eq, CellTag.size_mark, size_u16Bytes,
        size_u32Bytes]
      omega
  | subkeyList list =>
      have slots := SubkeyList.size_joined_slots (SubkeyList.Writable.ofShape writable)
      simp only [parts, encodedSize, SubkeyList.parts, SlotTable.headerSize, List.mem_cons,
        List.not_mem_nil, or_false, forall_eq_or_imp, forall_eq, CellTag.size_mark, size_u16Bytes,
        slots]
      omega
  | bigData header => simp [parts, encodedSize, BigData.parts, BigData.headerSize]
  | security => simp [parts, encodedSize]

theorem Writable.size_encode (writable : cell.Writable) (size_eq : blank.size = cell.encodedSize) :
    (cell.encode blank).size = cell.encodedSize := by
  rw [encode, size_writeParts, size_eq]
  rw [size_eq]
  exact writable.fit_parts

theorem holdsParts_encode (cell : Cell) (blank : ByteArray) :
    HoldsParts (cell.encode blank) cell.parts :=
  fun _ member => holdsAt_writeParts_of_disjoint cell.disjoint_parts member

end Encoded

section Reading

variable {cell : Cell} {view : ByteView}

/-- The body of a cell begins with the mark of its tag. -/
theorem holdsAt_mark (stands : HoldsParts view.content cell.parts) :
    HoldsAt view.content 0 cell.tag.mark := by
  cases cell <;> exact (holdsParts_cons.mp stands).1

/-- A body in which the parts of a cell stand is read as this cell. -/
theorem Writable.decode_eq_ok (writable : cell.Writable)
    (stands : HoldsParts view.content cell.parts)
    (oneName : cell.HasOneName view.content view.size) (offset : UInt32) :
    decode view offset = .ok cell := by
  rw [decode_eq_decodeAs (holdsAt_mark stands)]
  cases cell with
  | key node =>
      have named := KeyNode.Writable.readName?_eq writable stands oneName
      change (KeyNode.decode view offset).map key = _
      rw [KeyNode.decode_eq_ok stands named]
      rfl
  | value node =>
      change (ValueNode.decode view offset).map value = _
      rw [ValueNode.decode_eq_ok writable stands]
      rfl
  | subkeyList list =>
      change (SubkeyList.decode view offset).map subkeyList = _
      rw [SubkeyList.decode_eq_ok writable stands]
      rfl
  | bigData header =>
      change (BigData.decode view offset).map bigData = _
      rw [BigData.decode_eq_ok stands]
      rfl
  | security => rfl

end Reading

section Padded

variable {cell : Cell} {blank : ByteArray}

/-- In shifted layout the canonical place of the length of a name is a gap. -/
theorem u16At_encode_append {node : KeyNode} (writable : node.Writable)
    (size_eq : blank.size = (key node).encodedSize) (shifted : node.layout = .shifted)
    (padding : ByteArray) :
    u16At ((key node).encode blank ++ padding) NameLayout.canonical.lengthPosition =
      u16At blank NameLayout.canonical.lengthPosition := by
  have size : ((key node).encode blank).size = (key node).encodedSize :=
    Writable.size_encode writable size_eq
  have gap {i : Nat} (inGap : i = 0x48 ∨ i = 0x49) :
      byteAt ((key node).encode blank ++ padding) i = byteAt blank i := by
    have before : i < ((key node).encode blank).size := by
      rw [size, encodedSize, shifted]
      change i < 0x50 + _
      omega
    rw [byteAt_append, if_pos before]
    apply byteAt_writeParts
    simp only [parts, KeyNode.parts, shifted, NameLayout.namePosition, NameLayout.lengthPosition,
      List.mem_cons, List.not_mem_nil, or_false, forall_eq_or_imp, forall_eq, CellTag.size_mark,
      size_u16Bytes, size_u32Bytes, size_u64Bytes]
    omega
  rw [u16At, u16At, NameLayout.lengthPosition, gap (.inl rfl), gap (.inr rfl)]

/-- Whether a name stands alone is decided on the bytes over which the cell is laid. -/
theorem Writable.hasOneName_encode (writable : cell.Writable)
    (size_eq : blank.size = cell.encodedSize) (padding : ByteArray) {size : Nat}
    (oneName : cell.HasOneName blank size) :
    cell.HasOneName (cell.encode blank ++ padding) size := by
  cases cell with
  | key node =>
      intro shifted
      rw [KeyNode.LacksCanonicalName, u16At_encode_append writable size_eq shifted]
      exact oneName shifted
  | _ => trivial

/-- Whatever a cell holds is read back from its encoded body, whatever is shown in the gaps between
its fields and whatever stands behind it. -/
theorem decode_encode_padded (writable : cell.Writable) (size_eq : blank.size = cell.encodedSize)
    (padding : ByteArray) (oneName : cell.HasOneName blank (cell.encodedSize + padding.size))
    (offset : UInt32) : decode (cell.encode blank ++ padding : ByteArray) offset = .ok cell := by
  have stands := (holdsParts_encode cell blank).append padding
  have alone := writable.hasOneName_encode size_eq padding oneName
  rw [← writable.size_encode size_eq, ← ByteArray.size_append] at alone
  exact writable.decode_eq_ok (by rwa [ByteView.content_ofBytes])
    (by rwa [ByteView.content_ofBytes, ByteView.size_ofBytes]) offset

end Padded

/-- A key node in shifted layout, whose name is stored in UTF-16 with a pair of surrogates. -/
def shiftedNode : KeyNode where
  flags := ⟨0x0010⟩
  lastWritten := 0x01D6E0C1A2B3C4D5
  parent := 0x20
  subkeyCount := 3
  volatileSubkeyCount := 1
  subkeyList := 0x0102FFFE
  volatileSubkeyList := 0xFFFFFFFF
  valueCount := 2
  valueList := 0x80
  security := 0x90
  className := 0xA0
  classNameLength := 0x1234
  layout := .shifted
  name := "n🔑é"

/-- The canonical place announces a name of 65535 bytes, which overruns the body. The bytes behind
the name would be further characters of it. -/
theorem decode_encode_padded_shifted :
    let cell := key shiftedNode
    let blank := (List.replicate 88 0xFF).toByteArray
    let padding := [0x41, 0x00, 0x42].toByteArray
    cell.Writable ∧ blank.size = cell.encodedSize ∧
      cell.HasOneName blank (cell.encodedSize + padding.size) ∧
      decode (cell.encode blank ++ padding : ByteArray) 0x20 = .ok cell := by
  intro cell blank padding
  have writable : cell.Writable := by
    change shiftedNode.Writable
    decide
  have size_eq : blank.size = cell.encodedSize := by decide
  have oneName : cell.HasOneName blank (cell.encodedSize + padding.size) :=
    fun _ => .inr (by decide)
  exact ⟨writable, size_eq, oneName, decode_encode_padded writable size_eq padding oneName 0x20⟩

end Cell

end RegistryHive
