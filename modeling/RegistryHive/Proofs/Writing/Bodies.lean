import RegistryHive.Proofs.Cell.EncodedCell
import RegistryHive.Proofs.Writing.Heap
import RegistryHive.Proofs.Writing.Names

/-!
# Reading the bodies of written cells

Every kind of cell that a writer writes is read back from its body. The body of a
key is the only one that changes after it was written, so it is described by the
fields that stand in it (`KeyRecord.InBody`): a new key has neither subkeys nor
values, and hanging a list under it replaces two of the fields and leaves the
others. The other bodies are read as they were written.
-/

namespace RegistryHive

open HiveWriter

/-- Lengthening leaves parts in their places. -/
theorem HoldsParts.paddedBody {body : ByteArray} {parts : List (Nat × ByteArray)}
    (h : HoldsParts body parts) : HoldsParts (paddedBody body) parts :=
  fun part member => (h part member).paddedBody

/-- A zero number stands wherever there are enough zeros. -/
theorem holdsAt_zeros {count start : Nat} (inside : start + 4 ≤ count) :
    HoldsAt (zeros count) start (u32Bytes 0) := by
  constructor
  · rw [size_zeros, size_u32Bytes]
    exact inside
  · intro i _
    have zero : u32Bytes 0 = (List.replicate 4 0).toByteArray := rfl
    rw [byteAt_zeros, zero, byteAt_toByteArray, List.getD_eq_getElem?_getD, List.getElem?_replicate]
    split <;> rfl

/-- Replacing two fields leaves the parts that overlap neither. -/
theorem HoldsAt.overwrite_fields {body part : ByteArray} {start first second : Nat}
    (h : HoldsAt body start part) (value value' : UInt32)
    (before : start + part.size ≤ first ∨ first + 4 ≤ start)
    (after : start + part.size ≤ second ∨ second + 4 ≤ start) :
    HoldsAt (overwrite (overwrite body first (u32Bytes value)) second (u32Bytes value'))
      start part :=
  (h.overwrite_of_disjoint before).overwrite_of_disjoint after

theorem size_keyBody (flags : UInt16) (name : ByteArray) :
    (keyBody flags name).size = 0x4C + name.size := by
  have fit : ∀ part ∈ keyParts flags name, part.1 + part.2.size ≤ 0x4C + name.size := by
    simp [keyParts]
    omega
  rw [keyBody, size_writeParts, size_zeros]
  rwa [size_zeros]

/-- What stands in a key cell, apart from what all keys have in common. -/
structure KeyRecord where
  name : String
  subkeyCount : UInt32
  subkeyList : UInt32
  valueCount : UInt32
  valueList : UInt32

namespace KeyRecord

/-- A key without subkeys and values. -/
def new (name : String) : KeyRecord where
  name := name
  subkeyCount := 0
  subkeyList := nullOffset
  valueCount := 0
  valueList := nullOffset

/-- The fields of a key stand in the body of its cell. -/
structure InBody (record : KeyRecord) (body : ByteArray) : Prop where
  mark : HoldsAt body 0 CellTag.keyNode.mark
  flags : ∃ bits, HoldsAt body 0x02 (u16Bytes bits) ∧ (KeyFlags.mk bits).isCompressed = true
  lastWritten : HoldsAt body 0x04 (u64Bytes writtenTime)
  subkeyCount : HoldsAt body 0x14 (u32Bytes record.subkeyCount)
  subkeyList : HoldsAt body 0x1C (u32Bytes record.subkeyList)
  valueCount : HoldsAt body 0x24 (u32Bytes record.valueCount)
  valueList : HoldsAt body 0x28 (u32Bytes record.valueList)
  nameLength : HoldsAt body 0x48 (u16Bytes (UInt16.ofNat record.name.toUTF8.size))
  name : HoldsAt body 0x4C record.name.toUTF8

/-- A key node has the fields of a record. -/
structure Describes (record : KeyRecord) (node : KeyNode) : Prop where
  name : node.name = record.name
  lastWritten : node.lastWritten = writtenTime
  subkeyCount : node.subkeyCount = record.subkeyCount
  subkeyList : node.subkeyList = record.subkeyList
  valueCount : node.valueCount = record.valueCount
  valueList : node.valueList = record.valueList

/-- The fields of a new key. -/
theorem inBody_new {bits : UInt16} (compressed : (KeyFlags.mk bits).isCompressed = true)
    (name : String) : (new name).InBody (paddedBody (keyBody bits name.toUTF8)) := by
  have stands (part : Nat × ByteArray) (member : part ∈ keyParts bits name.toUTF8) :
      HoldsAt (paddedBody (keyBody bits name.toUTF8)) part.1 part.2 :=
    (holdsAt_writeParts (by simp [keyParts]) member).paddedBody
  have blank {start : Nat} (unwritten : start = 0x14 ∨ start = 0x24) :
      HoldsAt (paddedBody (keyBody bits name.toUTF8)) start (u32Bytes 0) := by
    refine ((holdsAt_zeros (by omega)).writeParts ?_).paddedBody
    simp only [keyParts, List.mem_cons, List.not_mem_nil, or_false, forall_eq_or_imp, forall_eq,
      size_u16Bytes, size_u32Bytes, size_u64Bytes, CellTag.size_mark]
    omega
  exact {
    mark := stands (0, CellTag.keyNode.mark) (by simp [keyParts])
    flags := ⟨bits, stands (0x02, u16Bytes bits) (by simp [keyParts]), compressed⟩
    lastWritten := stands (0x04, u64Bytes writtenTime) (by simp [keyParts])
    subkeyCount := blank (.inl rfl)
    subkeyList := stands (0x1C, u32Bytes nullOffset) (by simp [keyParts])
    valueCount := blank (.inr rfl)
    valueList := stands (0x28, u32Bytes nullOffset) (by simp [keyParts])
    nameLength := stands (0x48, u16Bytes (UInt16.ofNat name.toUTF8.size)) (by simp [keyParts])
    name := stands (0x4C, name.toUTF8) (by simp [keyParts]) }

section Patches

variable {record : KeyRecord} {body : ByteArray}

theorem InBody.size_le (inBody : record.InBody body) : 0x4C ≤ body.size := by
  have inside := inBody.name.inside
  omega

/-- Hanging a list of subkeys under a key replaces the two fields that name it. -/
theorem InBody.setSubkeys (inBody : record.InBody body) (list count : UInt32) :
    { record with subkeyCount := count, subkeyList := list : KeyRecord }.InBody
      (overwrite (overwrite body 0x14 (u32Bytes count)) 0x1C (u32Bytes list)) := by
  have kept {start : Nat} {part : ByteArray} (h : HoldsAt body start part)
      (elsewhere : start + part.size ≤ 0x14 ∨ 0x20 ≤ start) :
      HoldsAt (overwrite (overwrite body 0x14 (u32Bytes count)) 0x1C (u32Bytes list)) start part :=
    h.overwrite_fields count list (by omega) (by omega)
  obtain ⟨bits, flags, compressed⟩ := inBody.flags
  exact {
    mark := kept inBody.mark (.inl (by simp))
    flags := ⟨bits, kept flags (.inl (by simp)), compressed⟩
    lastWritten := kept inBody.lastWritten (.inl (by simp))
    subkeyCount := (holdsAt_overwrite body 0x14 _).overwrite_of_disjoint (.inl (by simp))
    subkeyList := holdsAt_overwrite _ 0x1C _
    valueCount := kept inBody.valueCount (.inr (by simp))
    valueList := kept inBody.valueList (.inr (by simp))
    nameLength := kept inBody.nameLength (.inr (by simp))
    name := kept inBody.name (.inr (by simp)) }

/-- Hanging a list of values under a key replaces the two fields that name it. -/
theorem InBody.setValues (inBody : record.InBody body) (list count : UInt32) :
    { record with valueCount := count, valueList := list : KeyRecord }.InBody
      (overwrite (overwrite body 0x24 (u32Bytes count)) 0x28 (u32Bytes list)) := by
  have kept {start : Nat} {part : ByteArray} (h : HoldsAt body start part)
      (elsewhere : start + part.size ≤ 0x24 ∨ 0x2C ≤ start) :
      HoldsAt (overwrite (overwrite body 0x24 (u32Bytes count)) 0x28 (u32Bytes list)) start part :=
    h.overwrite_fields count list (by omega) (by omega)
  obtain ⟨bits, flags, compressed⟩ := inBody.flags
  exact {
    mark := kept inBody.mark (.inl (by simp))
    flags := ⟨bits, kept flags (.inl (by simp)), compressed⟩
    lastWritten := kept inBody.lastWritten (.inl (by simp))
    subkeyCount := kept inBody.subkeyCount (.inl (by simp))
    subkeyList := kept inBody.subkeyList (.inl (by simp))
    valueCount := (holdsAt_overwrite body 0x24 _).overwrite_of_disjoint (.inl (by simp))
    valueList := holdsAt_overwrite _ 0x28 _
    nameLength := kept inBody.nameLength (.inr (by simp))
    name := kept inBody.name (.inr (by simp)) }

end Patches

section Names

variable {record : KeyRecord} {view : ByteView} {flags : KeyFlags}

/-- The name of a key can be read in canonical layout. -/
theorem InBody.nameAt?_eq (inBody : record.InBody view.content) (stored : IsStoredName record.name)
    (compressed : flags.isCompressed = true) :
    KeyNode.nameAt? view flags .canonical = some record.name := by
  have bytes : encodeName flags.isCompressed record.name = record.name.toUTF8 := by
    rw [compressed, stored.isValueName.toUTF8_eq]
    rfl
  apply KeyNode.nameAt?_eq_some stored.nonempty
  · rw [compressed]
    exact stored.isValueName.isStorable
  · rw [bytes]
    exact inBody.nameLength
  · rw [bytes]
    exact inBody.name

/-- A shifted reading begins with the fifth character of the name. -/
theorem InBody.isPlausibleName_shifted (inBody : record.InBody view.content)
    (stored : IsStoredName record.name)
    (fifth : record.name.toList[4]? = some KeyPath.separator)
    (compressed : flags.isCompressed = true) {text : String}
    (read : KeyNode.nameAt? view flags .shifted = some text) : isPlausibleName text = false := by
  have byte : view.byteAt 0x50 = 0x5C := by
    have long : 4 < record.name.toUTF8.size := by
      obtain ⟨inside, -⟩ := List.getElem?_eq_some_iff.mp fifth
      rw [stored.isValueName.toUTF8_eq, OneByte.encode, List.size_toByteArray, List.length_map]
      exact inside
    have here := inBody.name.byteAt_eq 4 long
    rwa [stored.byteAt_toUTF8_eq fifth, ByteView.byteAt_content] at here
  obtain ⟨⟨-, positive, inside⟩, rfl⟩ := KeyNode.nameAt?_eq_some_iff.mp read
  change 0x50 + (view.u16At 0x4C).toNat ≤ view.size at inside
  change 0 < (view.u16At 0x4C).toNat at positive
  have first : (view.part 0x50 (0x50 + (view.u16At 0x4C).toNat)).byteAt 0 = 0x5C := by
    rw [ByteView.byteAt_part, if_pos (by omega)]
    exact byte
  have inPart : 0 < (view.part 0x50 (0x50 + (view.u16At 0x4C).toNat)).size := by
    rw [ByteView.size_part]
    omega
  have begins := OneByte.mem_decode_of_byteAt_zero inPart (by rw [first]; decide)
  rw [first] at begins
  rw [KeyNode.nameText, decodeName, if_pos compressed]
  exact isPlausibleName_eq_false begins

/-- The name of a key is found in canonical layout. -/
theorem InBody.readName?_eq (inBody : record.InBody view.content)
    (stored : IsStoredName record.name) (compressed : flags.isCompressed = true) :
    KeyNode.readName? view flags = some (.canonical, record.name) := by
  have read := inBody.nameAt?_eq stored compressed
  rcases stored.kept with passes | fifth
  · exact KeyNode.readName?_canonical read passes
  · have refused : (KeyNode.nameAt? view flags .shifted).filter isPlausibleName = none := by
      rw [Option.filter_eq_none_iff]
      intro text read
      rw [inBody.isPlausibleName_shifted stored fifth compressed read]
      exact Bool.false_ne_true
    rw [KeyNode.readName?, read]
    simp only [refused]
    split <;> rfl

end Names

/-- The body of a key cell is read back. -/
theorem InBody.decode {record : KeyRecord} {view : ByteView} (inBody : record.InBody view.content)
    (stored : IsStoredName record.name) (offset : UInt32) :
    ∃ node, Cell.decode view offset = .ok (.key node) ∧ record.Describes node := by
  have size_le := inBody.size_le
  rw [ByteView.size_content] at size_le
  obtain ⟨bits, flags, compressed⟩ := inBody.flags
  rw [← flags.u16At_view] at compressed
  have name := inBody.readName?_eq stored compressed
  have read : KeyNode.decode view offset = .ok (.nodeOf view .canonical record.name) :=
    KeyNode.decode_eq_ok_iff.mpr
      ⟨size_le, inBody.mark.isAtStart_eq, .canonical, record.name, name, rfl⟩
  rw [Cell.decode_eq_decodeAs inBody.mark, Cell.decodeAs, read]
  exact ⟨_, rfl, rfl, inBody.lastWritten.u64At_view, inBody.subkeyCount.u32At_view,
    inBody.subkeyList.u32At_view, inBody.valueCount.u32At_view, inBody.valueList.u32At_view⟩

end KeyRecord

section Lists

variable {view : ByteView}

/-- The list that is written for offsets: a hint is zero in the shapes that have one. -/
def listOf (shape : ListShape) (offsets : List UInt32) : SubkeyList where
  shape := shape
  slots := offsets.map fun offset =>
    { offset := offset, hint := if shape.hasHints then some 0 else none }

theorem offsets_listOf (shape : ListShape) (offsets : List UInt32) :
    (listOf shape offsets).offsets = offsets := by
  rw [SubkeyList.offsets, listOf, List.map_map]
  exact List.map_id offsets

theorem isOf_of_mem_listOf {shape : ListShape} {offsets : List UInt32} :
    ∀ slot ∈ (listOf shape offsets).slots, slot.IsOf (listOf shape offsets).shape := by
  intro slot member
  obtain ⟨offset, -, rfl⟩ := List.mem_map.mp member
  change (if shape.hasHints then some (0 : UInt32) else none).isSome = shape.hasHints
  cases shape.hasHints <;> rfl

/-- A list with no more slots than its header can count can be written. -/
theorem writable_listOf {shape : ListShape} {offsets : List UInt32}
    (fits : offsets.length ≤ 65535) : (listOf shape offsets).Writable where
  ofShape := isOf_of_mem_listOf
  length_le := by rwa [listOf, List.length_map]

/-- The body of a list is made of the bytes of its slots. -/
theorem listBody_eq (shape : ListShape) (offsets : List UInt32) :
    listBody shape offsets = (CellTag.subkeyList shape).mark ++
      u16Bytes (UInt16.ofNat (listOf shape offsets).slots.length) ++
        joined ((listOf shape offsets).slots.map ListSlot.bytes) := by
  have bytes : ListSlot.bytes ∘ (fun offset : UInt32 =>
      { offset := offset, hint := if shape.hasHints then some 0 else none }) = slotBytes shape := by
    funext offset
    rw [Function.comp, slotBytes, ListSlot.bytes]
    cases shape.hasHints <;> rfl
  rw [listOf, List.length_map, List.map_map, bytes]
  rfl

theorem holdsParts_listBody (shape : ListShape) (offsets : List UInt32) :
    HoldsParts (listBody shape offsets) (listOf shape offsets).parts := by
  rw [listBody_eq]
  exact holdsParts_counted _ _ _

theorem size_listBody (shape : ListShape) (offsets : List UInt32) :
    (listBody shape offsets).size = 4 + shape.slotSize * offsets.length := by
  rw [listBody_eq, ByteArray.size_append, ByteArray.size_append, CellTag.size_mark, size_u16Bytes,
    SubkeyList.size_joined_slots isOf_of_mem_listOf, listOf, List.length_map]

/-- The body of a subkey list is read back. -/
theorem slotTable_decode {shape : ListShape} {offsets : List UInt32}
    (content : view.content = paddedBody (listBody shape offsets)) (offset : UInt32) :
    SlotTable.decode view offset = .ok { shape := shape, body := view } := by
  have stands := (holdsParts_listBody shape offsets).paddedBody
  rw [← content] at stands
  exact SubkeyList.slotTable_decode_eq_ok stands offset

/-- A list with no more slots than its header can count holds the offsets it was written with. -/
theorem offsets_slots {shape : ListShape} {offsets : List UInt32}
    (content : view.content = paddedBody (listBody shape offsets))
    (fits : offsets.length ≤ 65535) :
    ({ shape := shape, body := view } : SlotTable).slots.map (·.offset) = offsets := by
  have stands := (holdsParts_listBody shape offsets).paddedBody
  rw [← content] at stands
  have slots := (writable_listOf fits).slots_eq stands
  change ({ shape := shape, body := view } : SlotTable).slots = _ at slots
  rw [slots]
  exact offsets_listOf shape offsets

private theorem size_of_mem_u32Bytes (offsets : List UInt32) :
    ∀ part ∈ offsets.map u32Bytes, part.size = 4 := by
  intro part member
  obtain ⟨offset, -, rfl⟩ := List.mem_map.mp member
  exact size_u32Bytes offset

theorem size_offsetsBody (offsets : List UInt32) :
    (offsetsBody offsets).size = 4 * offsets.length := by
  rw [offsetsBody, size_joined (size_of_mem_u32Bytes offsets), List.length_map]

theorem size_bigDataBody (count : Nat) (list : UInt32) : (bigDataBody count list).size = 8 := by
  rw [bigDataBody, ByteArray.size_append, ByteArray.size_append, CellTag.size_mark, size_u16Bytes,
    size_u32Bytes]

/-- A list of bare offsets is as long as it has to be. -/
theorem length_le_of_content_eq {offsets : List UInt32}
    (content : view.content = paddedBody (offsetsBody offsets)) :
    offsets.length ≤ view.size / 4 := by
  have size_le := size_le_size_paddedBody (offsetsBody offsets)
  rw [← content, ByteView.size_content, size_offsetsBody] at size_le
  omega

/-- A list of bare offsets is read back. -/
theorem u32At_of_content_eq {offsets : List UInt32}
    (content : view.content = paddedBody (offsetsBody offsets)) (i : Nat)
    (h : i < offsets.length) : view.u32At (4 * i) = offsets[i] := by
  have slot := holdsAt_joined (size_of_mem_u32Bytes offsets) i (by rwa [List.length_map])
  rw [List.getElem_map] at slot
  have written : HoldsAt view.content (4 * i) (u32Bytes offsets[i]) := by
    rw [content]
    exact slot.paddedBody
  exact written.u32At_view

end Lists

section Values

variable {view : ByteView}

theorem size_valueBody (name : ByteArray) (code : UInt32) (fields : PayloadFields) :
    (valueBody name code fields).size = 0x14 + name.size := by
  have fit : ∀ part ∈ valueParts name code fields, part.1 + part.2.size ≤ 0x14 + name.size := by
    simp [valueParts]
    omega
  rw [valueBody, size_writeParts, size_zeros]
  rwa [size_zeros]

/-- The value node that is written. -/
def valueNodeOf (name : String) (code : UInt32) (fields : PayloadFields) : ValueNode where
  nameLength := UInt16.ofNat name.toUTF8.size
  rawSize := fields.size
  dataOffset := fields.location
  type := .ofCode code
  flags := 1
  name := name

section ValueNodes

variable {name : String} {code : UInt32} {fields : PayloadFields}

theorem isCompressed_valueNodeOf : (valueNodeOf name code fields).isCompressed = true := by
  change ((1 : UInt16) &&& 1 != 0) = true
  decide

theorem nameBytes_valueNodeOf (valid : IsValueName name) :
    (valueNodeOf name code fields).nameBytes = name.toUTF8 := by
  rw [ValueNode.nameBytes, isCompressed_valueNodeOf]
  exact valid.toUTF8_eq.symm

theorem writable_valueNodeOf (valid : IsValueName name) :
    (valueNodeOf name code fields).Writable where
  storable := by
    rw [isCompressed_valueNodeOf]
    exact valid.isStorable
  nameLength_eq := by
    rw [nameBytes_valueNodeOf valid]
    exact UInt16.toNat_ofNat'.trans (Nat.mod_eq_of_lt (Nat.lt_succ_of_le valid.size_toUTF8_le))
  type_eq := congrArg ValueType.ofCode (ValueType.code_ofCode code)

theorem parts_valueNodeOf (valid : IsValueName name) :
    (valueNodeOf name code fields).parts = valueParts name.toUTF8 code fields := by
  have type : (valueNodeOf name code fields).type.code = code := ValueType.code_ofCode code
  rw [ValueNode.parts, nameBytes_valueNodeOf valid, type]
  rfl

/-- The body of a value node is read back. -/
theorem valueNode_decode (content : view.content = paddedBody (valueBody name.toUTF8 code fields))
    (valid : IsValueName name) (offset : UInt32) :
    Cell.decode view offset = .ok (.value (valueNodeOf name code fields)) := by
  have stands : HoldsParts view.content (valueNodeOf name code fields).parts := by
    rw [content, parts_valueNodeOf valid]
    intro part member
    exact (holdsAt_writeParts (by simp [valueParts]) member).paddedBody
  have writable : (Cell.value (valueNodeOf name code fields)).Writable :=
    writable_valueNodeOf valid
  exact writable.decode_eq_ok stands trivial offset

end ValueNodes

/-- The body of a big data header is read back. -/
theorem bigData_decode {count : Nat} {list : UInt32}
    (content : view.content = paddedBody (bigDataBody count list)) (offset : UInt32) :
    Cell.decode view offset =
      .ok (.bigData { segmentCount := UInt16.ofNat count, segmentList := list }) := by
  have stands : HoldsParts view.content (BigData.parts ⟨UInt16.ofNat count, list⟩) := by
    rw [content]
    exact (holdsParts_counted .bigData (UInt16.ofNat count) (u32Bytes list)).paddedBody
  have writable : (Cell.bigData ⟨UInt16.ofNat count, list⟩).Writable := trivial
  exact writable.decode_eq_ok stands trivial offset

end Values

end RegistryHive
