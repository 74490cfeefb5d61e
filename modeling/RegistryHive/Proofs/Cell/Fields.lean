import RegistryHive.Cell.Content
import RegistryHive.Proofs.Text.StoredNames

/-!
# Reading cells field by field

Each structure is given by the parts that stand in the body of its cell, every
field at its own position. A body in which the parts stand is read as the
structure, whatever stands between them and behind them. The name of a key node
is the exception: when it stands in the shifted layout, the bytes in its
canonical place decide whether it is found (`KeyNode.readName?_shifted`).
-/

namespace RegistryHive

section Views

variable {view : ByteView} {start : Nat}

theorem HoldsAt.u16At_view {value : UInt16} (h : HoldsAt view.content start (u16Bytes value)) :
    view.u16At start = value := by
  rw [← ByteView.u16At_content]
  exact h.u16At_eq

theorem HoldsAt.u32At_view {value : UInt32} (h : HoldsAt view.content start (u32Bytes value)) :
    view.u32At start = value := by
  rw [← ByteView.u32At_content]
  exact h.u32At_eq

theorem HoldsAt.u64At_view {value : UInt64} (h : HoldsAt view.content start (u64Bytes value)) :
    view.u64At start = value := by
  rw [← ByteView.u64At_content]
  exact h.u64At_eq

theorem HoldsAt.content_part {part : ByteArray} (h : HoldsAt view.content start part) :
    (view.part start (start + part.size)).content = part := by
  rw [ByteView.content_part]
  exact h.extract_eq

theorem HoldsAt.le_size {part : ByteArray} (h : HoldsAt view.content start part) :
    start + part.size ≤ view.size := by
  have inside := h.inside
  rwa [ByteView.size_content] at inside

@[simp] theorem CellTag.size_mark (tag : CellTag) : tag.mark.size = 2 := by
  simp [CellTag.mark]

/-- A body that begins with the mark of a tag has that tag. -/
theorem HoldsAt.tag_eq {tag : CellTag} (h : HoldsAt view.content 0 tag.mark) :
    CellTag.ofBytes? (view.byteAt 0) (view.byteAt 1) = some tag := by
  have first := h.byteAt_eq 0 (by rw [CellTag.size_mark]; omega)
  have second := h.byteAt_eq 1 (by rw [CellTag.size_mark]; omega)
  rw [CellTag.mark, byteAt_toByteArray, ByteView.byteAt_content] at first second
  rw [CellTag.ofBytes?_eq_some_iff]
  exact Prod.ext first.symm second.symm

/-- A body that has a tag begins with its mark. -/
theorem holdsAt_mark {tag : CellTag} (long : 2 ≤ view.size)
    (tagged : CellTag.ofBytes? (view.byteAt 0) (view.byteAt 1) = some tag) :
    HoldsAt view.content 0 tag.mark := by
  have bytes := CellTag.ofBytes?_eq_some_iff.mp tagged
  constructor
  · rwa [CellTag.size_mark, ByteView.size_content]
  · intro i hi
    rw [CellTag.size_mark] at hi
    rw [CellTag.mark, byteAt_toByteArray, ByteView.byteAt_content, bytes]
    obtain rfl | rfl : i = 0 ∨ i = 1 := by omega
    · rfl
    · rfl

theorem HoldsAt.isAtStart_eq {tag : CellTag} (h : HoldsAt view.content 0 tag.mark) :
    tag.isAtStart view = true := CellTag.isAtStart_iff.mpr h.tag_eq

/-- Reads a cell body as the structure that a tag names. -/
def Cell.decodeAs (tag : CellTag) (body : ByteView) (offset : UInt32) : Except HiveError Cell :=
  match tag with
  | .keyNode => (KeyNode.decode body offset).map key
  | .valueNode => (ValueNode.decode body offset).map value
  | .subkeyList _ => (SubkeyList.decode body offset).map subkeyList
  | .bigData => (BigData.decode body offset).map bigData
  | .security => .ok security

/-- A body that begins with the mark of a tag is read as the structure that the tag names. -/
theorem Cell.decode_eq_decodeAs {tag : CellTag} (h : HoldsAt view.content 0 tag.mark)
    (offset : UInt32) : Cell.decode view offset = Cell.decodeAs tag view offset := by
  have size_le := h.le_size
  rw [CellTag.size_mark] at size_le
  rw [decode, if_neg (by omega), h.tag_eq]
  cases tag <;> rfl

end Views

/-- A mark, a count and what is counted stand one after the other. -/
theorem holdsParts_counted (tag : CellTag) (count : UInt16) (rest : ByteArray) :
    HoldsParts (tag.mark ++ u16Bytes count ++ rest)
      [(0x00, tag.mark), (0x02, u16Bytes count), (0x04, rest)] := by
  have number := holdsAt_append tag.mark (u16Bytes count)
  have behind := holdsAt_append (tag.mark ++ u16Bytes count) rest
  rw [ByteArray.size_append, CellTag.size_mark, size_u16Bytes] at behind
  rw [CellTag.size_mark] at number
  simp only [holdsParts_cons, holdsParts_nil, and_true]
  exact ⟨((holdsAt_self _).append _).append _, number.append rest, behind⟩

namespace KeyNode

/-- The bytes of the name of a key. -/
def nameBytes (node : KeyNode) : ByteArray := encodeName node.flags.isCompressed node.name

/-- What stands in the body of a key node. -/
def parts (node : KeyNode) : List (Nat × ByteArray) :=
  [(0x00, CellTag.keyNode.mark), (0x02, u16Bytes node.flags.bits),
    (0x04, u64Bytes node.lastWritten), (0x10, u32Bytes node.parent),
    (0x14, u32Bytes node.subkeyCount), (0x18, u32Bytes node.volatileSubkeyCount),
    (0x1C, u32Bytes node.subkeyList), (0x20, u32Bytes node.volatileSubkeyList),
    (0x24, u32Bytes node.valueCount), (0x28, u32Bytes node.valueList),
    (0x2C, u32Bytes node.security), (0x30, u32Bytes node.className),
    (0x4A, u16Bytes node.classNameLength),
    (node.layout.lengthPosition, u16Bytes (UInt16.ofNat node.nameBytes.size)),
    (node.layout.namePosition, node.nameBytes)]

/-- The length of the name that a cell body gives in a layout. -/
def nameLength (body : ByteView) (layout : NameLayout) : Nat :=
  (body.u16At layout.lengthPosition).toNat

/-- A cell body gives a length of the name in a layout. It is not zero, and the name ends inside
the body. -/
structure NameFits (body : ByteView) (layout : NameLayout) : Prop where
  present : layout.lengthPosition + 2 ≤ body.size
  nonzero : 0 < nameLength body layout
  inside : layout.namePosition + nameLength body layout ≤ body.size

/-- What stands in the place of the name in a layout, as far as the body reaches. -/
def nameText (body : ByteView) (flags : KeyFlags) (layout : NameLayout) : String :=
  decodeName flags.isCompressed
    (body.part layout.namePosition (layout.namePosition + nameLength body layout))

section Names

variable {view : ByteView} {flags : KeyFlags} {layout : NameLayout} {name : String}

theorem nameAt?_of_fits (fits : NameFits view layout) :
    nameAt? view flags layout = some (nameText view flags layout) :=
  if_pos ⟨fits.present, fits.nonzero, fits.inside⟩

theorem nameAt?_of_not_fits (overrun : ¬ NameFits view layout) :
    nameAt? view flags layout = none :=
  if_neg fun ⟨present, nonzero, inside⟩ => overrun ⟨present, nonzero, inside⟩

theorem nameAt?_eq_some_iff :
    nameAt? view flags layout = some name ↔
      NameFits view layout ∧ name = nameText view flags layout := by
  by_cases fits : NameFits view layout
  · rw [nameAt?_of_fits fits, Option.some.injEq]
    exact ⟨fun same => ⟨fits, same.symm⟩, fun same => same.2.symm⟩
  · rw [nameAt?_of_not_fits fits]
    exact ⟨fun found => (by cases found), fun found => absurd found.1 fits⟩

/-- A name is read in a layout in whose places its length and its bytes stand. -/
theorem nameAt?_eq_some (nonempty : name ≠ "") (storable : IsStorable flags.isCompressed name)
    (length : HoldsAt view.content layout.lengthPosition
      (u16Bytes (UInt16.ofNat (encodeName flags.isCompressed name).size)))
    (bytes : HoldsAt view.content layout.namePosition (encodeName flags.isCompressed name)) :
    nameAt? view flags layout = some name := by
  have length_eq : (view.u16At layout.lengthPosition).toNat =
      (encodeName flags.isCompressed name).size := by
    rw [length.u16At_view, storable.toNat_size]
  have fits : NameFits view layout := {
    present := length.le_size
    nonzero := by
      rw [nameLength, length_eq]
      exact size_encodeName_pos nonempty
    inside := by
      rw [nameLength, length_eq]
      exact bytes.le_size }
  rw [nameAt?_of_fits fits, nameText, nameLength, length_eq,
    storable.decodeName_eq bytes.content_part]

/-- The place of the length in canonical layout holds no name: the number in it is zero, or a name
of that length overruns a body of the given size. -/
def LacksCanonicalName (bytes : ByteArray) (size : Nat) : Prop :=
  u16At bytes NameLayout.canonical.lengthPosition = 0 ∨
    size < NameLayout.canonical.namePosition +
      (u16At bytes NameLayout.canonical.lengthPosition).toNat

theorem nameAt?_canonical_eq_none (lacks : LacksCanonicalName view.content view.size) :
    nameAt? view flags .canonical = none := by
  rw [LacksCanonicalName, ByteView.u16At_content] at lacks
  apply nameAt?_of_not_fits
  rintro ⟨-, positive, inside⟩
  rcases lacks with zero | overrun
  · rw [nameLength, zero] at positive
    exact absurd positive (Nat.lt_irrefl 0)
  · exact absurd inside (Nat.not_le.mpr overrun)

/-- A plausible name in canonical layout is taken, whatever stands in the shifted place. -/
theorem readName?_canonical (read : nameAt? view flags .canonical = some name)
    (accepted : isPlausibleName name = true) :
    readName? view flags = some (.canonical, name) := by
  rw [readName?, read]
  exact if_pos accepted

/-- A name in shifted layout is taken when there is none in canonical layout. -/
theorem readName?_shifted (read : nameAt? view flags .shifted = some name)
    (lacks : LacksCanonicalName view.content view.size) :
    readName? view flags = some (.shifted, name) := by
  rw [readName?, nameAt?_canonical_eq_none lacks, read]
  rfl

end Names

/-- The key node with the fields of a cell body, and with a name that was read from a layout. -/
def nodeOf (body : ByteView) (layout : NameLayout) (name : String) : KeyNode where
  flags := ⟨body.u16At 0x02⟩
  lastWritten := body.u64At 0x04
  parent := body.u32At 0x10
  subkeyCount := body.u32At 0x14
  volatileSubkeyCount := body.u32At 0x18
  subkeyList := body.u32At 0x1C
  volatileSubkeyList := body.u32At 0x20
  valueCount := body.u32At 0x24
  valueList := body.u32At 0x28
  security := body.u32At 0x2C
  className := body.u32At 0x30
  classNameLength := body.u16At 0x4A
  layout := layout
  name := name

/-- A key node is read from a body that is long enough, begins with the tag and gives a name. The
rest of the node is taken from its fields. -/
theorem decode_eq_ok_iff {body : ByteView} {offset : UInt32} {node : KeyNode} :
    decode body offset = .ok node ↔
      minimumSize ≤ body.size ∧ CellTag.keyNode.isAtStart body = true ∧
        ∃ layout name, readName? body ⟨body.u16At 0x02⟩ = some (layout, name) ∧
          node = nodeOf body layout name := by
  constructor
  · intro read
    rw [decode] at read
    split at read
    · cases read
    rename_i long
    split at read
    · cases read
    rename_i tag
    simp only at read
    split at read
    · cases read
    rename_i layout name named
    exact ⟨Nat.le_of_not_lt long, by simpa using tag, layout, name, named,
      (Except.ok.inj read).symm⟩
  · rintro ⟨long, tag, layout, name, named, rfl⟩
    rw [decode, if_neg (Nat.not_lt.mpr long), tag]
    simp only [named]
    rfl

/-- A body in which the fields of a key node stand is read as this node, when its name is found. -/
theorem decode_eq_ok {node : KeyNode} {view : ByteView}
    (stands : HoldsParts view.content node.parts)
    (named : readName? view node.flags = some (node.layout, node.name)) (offset : UInt32) :
    decode view offset = .ok node := by
  simp only [parts, holdsParts_cons] at stands
  obtain ⟨mark, flags, lastWritten, parent, subkeyCount, volatileSubkeyCount, subkeyList,
    volatileSubkeyList, valueCount, valueList, security, className, classNameLength, -⟩ := stands
  have size_le := classNameLength.le_size
  rw [size_u16Bytes] at size_le
  refine decode_eq_ok_iff.mpr ⟨size_le, mark.isAtStart_eq, node.layout, node.name, ?_, ?_⟩
  · rw [flags.u16At_view]
    exact named
  · simp only [nodeOf, flags.u16At_view, lastWritten.u64At_view, parent.u32At_view,
      subkeyCount.u32At_view, volatileSubkeyCount.u32At_view, subkeyList.u32At_view,
      volatileSubkeyList.u32At_view, valueCount.u32At_view, valueList.u32At_view,
      security.u32At_view, className.u32At_view, classNameLength.u16At_view]

end KeyNode

namespace ValueNode

/-- The name is stored in one byte for each character. -/
def isCompressed (node : ValueNode) : Bool := node.flags &&& 1 != 0

/-- The bytes of the name of a value. -/
def nameBytes (node : ValueNode) : ByteArray := encodeName node.isCompressed node.name

/-- What stands in the body of a value node. -/
def parts (node : ValueNode) : List (Nat × ByteArray) :=
  [(0x00, CellTag.valueNode.mark), (0x02, u16Bytes node.nameLength),
    (0x04, u32Bytes node.rawSize), (0x08, u32Bytes node.dataOffset),
    (0x0C, u32Bytes node.type.code), (0x10, u16Bytes node.flags), (0x14, node.nameBytes)]

/-- A value node that can be written: its name length is that of its name, and its type is the one
that its number stands for. -/
structure Writable (node : ValueNode) : Prop where
  storable : IsStorable node.isCompressed node.name
  nameLength_eq : node.nameLength.toNat = node.nameBytes.size
  type_eq : .ofCode node.type.code = node.type

/-- A body in which the fields of a value node stand is read as this node. -/
theorem decode_eq_ok {node : ValueNode} (writable : node.Writable) {view : ByteView}
    (stands : HoldsParts view.content node.parts) (offset : UInt32) :
    decode view offset = .ok node := by
  simp only [parts, holdsParts_cons] at stands
  obtain ⟨mark, nameLength, rawSize, dataOffset, type, flags, bytes, -⟩ := stands
  have inside : minimumSize + node.nameBytes.size ≤ view.size := bytes.le_size
  have name : decodeName node.isCompressed
      (view.part minimumSize (minimumSize + node.nameBytes.size)) = node.name :=
    writable.storable.decodeName_eq bytes.content_part
  simp only [decode]
  rw [nameLength.u16At_view, writable.nameLength_eq, if_neg (by omega), mark.isAtStart_eq,
    if_neg (by decide), if_neg (by omega), rawSize.u32At_view, dataOffset.u32At_view,
    type.u32At_view, flags.u16At_view, writable.type_eq]
  change Except.ok { node with
    name := decodeName node.isCompressed _ : ValueNode } = _
  rw [name]

end ValueNode

namespace ListSlot

/-- The bytes of a slot. -/
def bytes (slot : ListSlot) : ByteArray :=
  match slot.hint with
  | some hint => u32Bytes slot.offset ++ u32Bytes hint
  | none => u32Bytes slot.offset

/-- A slot has a hint exactly in the shapes that have one. -/
def IsOf (slot : ListSlot) (shape : ListShape) : Prop := slot.hint.isSome = shape.hasHints

theorem size_bytes {slot : ListSlot} {shape : ListShape} (ofShape : slot.IsOf shape) :
    slot.bytes.size = shape.slotSize := by
  obtain ⟨offset, hint⟩ := slot
  rw [IsOf] at ofShape
  rw [ListShape.slotSize, ← ofShape]
  cases hint with
  | none => exact size_u32Bytes offset
  | some hint =>
      change (u32Bytes offset ++ u32Bytes hint).size = 8
      rw [ByteArray.size_append, size_u32Bytes, size_u32Bytes]

end ListSlot

/-- The slots are found in a body that has room for a header and begins with the mark of a list. -/
theorem SlotTable.decode_eq_ok {view : ByteView} {shape : ListShape}
    (long : headerSize ≤ view.size) (mark : HoldsAt view.content 0 (CellTag.subkeyList shape).mark)
    (offset : UInt32) : decode view offset = .ok { shape := shape, body := view } := by
  rw [decode, if_neg (Nat.not_lt.mpr long), ListShape.ofBytes, mark.tag_eq]
  rfl

/-- A slot is read where its bytes stand. -/
theorem SlotTable.slotAt_eq {table : SlotTable} {slot : ListSlot} {i : Nat}
    (ofShape : slot.IsOf table.shape)
    (stands : HoldsAt table.body.content (headerSize + i * table.shape.slotSize) slot.bytes) :
    table.slotAt i = slot := by
  obtain ⟨offset, hint⟩ := slot
  rw [ListSlot.IsOf] at ofShape
  cases hint with
  | none =>
      have first : HoldsAt table.body.content _ (u32Bytes offset) := stands
      rw [slotAt, offsetAt, hintAt?, ← ofShape, first.u32At_view]
      rfl
  | some hint =>
      have both : HoldsAt table.body.content _ (u32Bytes offset ++ u32Bytes hint) := stands
      obtain ⟨first, second⟩ := both.split
      rw [size_u32Bytes] at second
      rw [slotAt, offsetAt, hintAt?, ← ofShape, first.u32At_view, second.u32At_view]
      rfl

namespace SubkeyList

/-- What stands in the body of a subkey list. -/
def parts (list : SubkeyList) : List (Nat × ByteArray) :=
  [(0x00, (CellTag.subkeyList list.shape).mark),
    (0x02, u16Bytes (UInt16.ofNat list.slots.length)),
    (0x04, joined (list.slots.map ListSlot.bytes))]

/-- A subkey list that can be written: its slots are those of its shape, and a field of 16 bits
can count them. -/
structure Writable (list : SubkeyList) : Prop where
  ofShape : ∀ slot ∈ list.slots, slot.IsOf list.shape
  length_le : list.slots.length ≤ 65535

section Reading

variable {list : SubkeyList} {view : ByteView}

theorem size_of_mem_slots (ofShape : ∀ slot ∈ list.slots, slot.IsOf list.shape) :
    ∀ part ∈ list.slots.map ListSlot.bytes, part.size = list.shape.slotSize := by
  intro part member
  obtain ⟨slot, inList, rfl⟩ := List.mem_map.mp member
  exact ListSlot.size_bytes (ofShape slot inList)

/-- The slots of a list take the size of a slot each. -/
theorem size_joined_slots (ofShape : ∀ slot ∈ list.slots, slot.IsOf list.shape) :
    (joined (list.slots.map ListSlot.bytes)).size = list.shape.slotSize * list.slots.length := by
  rw [size_joined (size_of_mem_slots ofShape), List.length_map]

/-- The slots are found in a body that begins with the mark of a list. -/
theorem slotTable_decode_eq_ok (stands : HoldsParts view.content list.parts) (offset : UInt32) :
    SlotTable.decode view offset = .ok { shape := list.shape, body := view } := by
  simp only [parts, holdsParts_cons] at stands
  obtain ⟨mark, number, -⟩ := stands
  have size_le := number.le_size
  rw [size_u16Bytes] at size_le
  exact SlotTable.decode_eq_ok size_le mark offset

/-- A body in which the slots of a list stand has these slots and no more, even if there is room
for more. -/
theorem Writable.slots_eq (writable : list.Writable) (stands : HoldsParts view.content list.parts) :
    ({ shape := list.shape, body := view } : SlotTable).slots = list.slots := by
  simp only [parts, holdsParts_cons] at stands
  obtain ⟨-, number, slots, -⟩ := stands
  have declared : (view.u16At 2).toNat = list.slots.length := by
    rw [number.u16At_view, UInt16.toNat_ofNat']
    exact Nat.mod_eq_of_lt (Nat.lt_succ_of_le writable.length_le)
  have room : list.slots.length ≤ (view.size - SlotTable.headerSize) / list.shape.slotSize := by
    have size_le := slots.le_size
    rw [size_joined_slots writable.ofShape, Nat.mul_comm] at size_le
    rw [Nat.le_div_iff_mul_le list.shape.slotSize_pos, SlotTable.headerSize]
    omega
  have count : ({ shape := list.shape, body := view } : SlotTable).count = list.slots.length := by
    rw [SlotTable.count, declared]
    exact Nat.min_eq_left room
  rw [SlotTable.slots_eq, count]
  apply List.ext_getElem (by simp)
  intro i hi hi'
  rw [List.getElem_map, List.getElem_range]
  apply SlotTable.slotAt_eq (writable.ofShape _ (List.getElem_mem hi'))
  have slot := slots.trans
    (holdsAt_joined (size_of_mem_slots writable.ofShape) i (by rwa [List.length_map]))
  rwa [List.getElem_map, Nat.mul_comm] at slot

/-- A body in which a subkey list stands is read as this list. -/
theorem decode_eq_ok (writable : list.Writable) (stands : HoldsParts view.content list.parts)
    (offset : UInt32) : decode view offset = .ok list := by
  rw [decode, slotTable_decode_eq_ok stands]
  change Except.ok (ofTable { shape := list.shape, body := view }) = _
  rw [ofTable, writable.slots_eq stands]

end Reading

end SubkeyList

namespace BigData

/-- What stands in the body of a big data header. -/
def parts (header : BigData) : List (Nat × ByteArray) :=
  [(0x00, CellTag.bigData.mark), (0x02, u16Bytes header.segmentCount),
    (0x04, u32Bytes header.segmentList)]

/-- A body in which a big data header stands is read as this header. -/
theorem decode_eq_ok {header : BigData} {view : ByteView}
    (stands : HoldsParts view.content header.parts) (offset : UInt32) :
    decode view offset = .ok header := by
  simp only [parts, holdsParts_cons] at stands
  obtain ⟨mark, count, list, -⟩ := stands
  have size_le := list.le_size
  rw [size_u32Bytes] at size_le
  rw [decode, if_neg (by rw [headerSize]; omega), mark.isAtStart_eq, count.u16At_view,
    list.u32At_view]
  rfl

end BigData

end RegistryHive
