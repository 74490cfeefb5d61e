import RegistryHive.Field
import RegistryHive.Proofs.Cell.Fields
import RegistryHive.Proofs.Cell.SameContent

/-!
# Damaged subkey lists

A subkey list is cut to the slots that its cell holds before any slot is read.
Here it is read once more with every number checked where it is taken
(`SubkeyList.readChecked`). One number outside the cell would refuse the whole
list, but the cut leaves no such number (`readChecked_eq_decode`).

So a cell of four bytes or more with the tag of a list is always read, and its
slots are those that it declares, as far as they are there. A cell that is cut
off anywhere gives the first of these slots (`decode_readable_prefix`).
-/

namespace RegistryHive

section Numbers

variable {bytes : ByteArray} {start : Nat}

/-- A 16-bit number whose bytes are there is read. -/
theorem readU16_eq_ok (inside : start + 2 ≤ bytes.size) :
    readU16 bytes start = .ok (u16At bytes start) := by
  have number := readNumber_eq_ok_iff.mpr ⟨inside, (toNat_u16At bytes start).symm⟩
  rw [readU16, number]
  exact congrArg Except.ok UInt16.ofNat_toNat

/-- A 32-bit number whose bytes are there is read. -/
theorem readU32_eq_ok (inside : start + 4 ≤ bytes.size) :
    readU32 bytes start = .ok (u32At bytes start) := by
  have number := readNumber_eq_ok_iff.mpr ⟨inside, (toNat_u32At bytes start).symm⟩
  rw [readU32, number]
  exact congrArg Except.ok UInt32.ofNat_toNat

end Numbers

namespace ListShape

theorem four_le_slotSize (shape : ListShape) : 4 ≤ shape.slotSize := by
  cases shape <;> decide

theorem slotSize_of_hasHints {shape : ListShape} (hints : shape.hasHints = true) :
    shape.slotSize = 8 := if_pos hints

end ListShape

namespace SlotTable

/-- The slot at an index, if the numbers in it are there. -/
def readSlot (table : SlotTable) (i : Nat) : Except HiveError ListSlot := do
  let start := headerSize + i * table.shape.slotSize
  let offset ← readU32 table.body.content start
  if table.shape.hasHints then
    let hint ← readU32 table.body.content (start + 4)
    pure { offset := offset, hint := some hint }
  else pure { offset := offset, hint := none }

section Slots

variable {table : SlotTable} {i : Nat} (counted : i < table.count)

include counted

/-- A slot below the number of slots ends inside the body. -/
theorem slot_inside :
    headerSize + i * table.shape.slotSize + table.shape.slotSize ≤ table.body.content.size := by
  have fits : i + 1 ≤ (table.body.size - headerSize) / table.shape.slotSize :=
    Nat.lt_of_lt_of_le counted (Nat.min_le_right _ _)
  have room : (i + 1) * table.shape.slotSize ≤ table.body.size - headerSize :=
    (Nat.le_div_iff_mul_le table.shape.slotSize_pos).mp fits
  have positive := table.shape.slotSize_pos
  rw [Nat.succ_mul] at room
  rw [ByteView.size_content]
  omega

theorem readU32_offset :
    readU32 table.body.content (headerSize + i * table.shape.slotSize) =
      .ok (table.offsetAt i) := by
  have inside := slot_inside counted
  have wide := table.shape.four_le_slotSize
  rw [readU32_eq_ok (by omega), ByteView.u32At_content, offsetAt]

theorem exists_readU32_hint (hints : table.shape.hasHints = true) :
    ∃ hint, readU32 table.body.content (headerSize + i * table.shape.slotSize + 4) = .ok hint ∧
      table.hintAt? i = some hint := by
  have inside := slot_inside counted
  have wide := ListShape.slotSize_of_hasHints hints
  refine ⟨_, readU32_eq_ok (by omega), ?_⟩
  rw [ByteView.u32At_content, hintAt?, if_pos hints]

/-- The numbers in a slot below the number of slots are those at its place. -/
theorem slotAt_readable :
    readU32 table.body.content (4 + i * if table.shape.hasHints then 8 else 4) =
        .ok (table.slotAt i).offset ∧
      if table.shape.hasHints then
        ∃ hint, readU32 table.body.content (8 + i * 8) = .ok hint ∧
          (table.slotAt i).hint = some hint
      else (table.slotAt i).hint = none := by
  refine ⟨readU32_offset counted, ?_⟩
  split
  · rename_i hints
    obtain ⟨hint, read, found⟩ := exists_readU32_hint counted hints
    have position : 8 + i * 8 = headerSize + i * table.shape.slotSize + 4 := by
      rw [ListShape.slotSize_of_hasHints hints, headerSize]
      omega
    rw [position]
    exact ⟨hint, read, found⟩
  · rename_i bare
    exact if_neg bare

/-- A slot below the number of slots is read. -/
theorem readSlot_eq_ok : table.readSlot i = .ok (table.slotAt i) := by
  rw [readSlot, readU32_offset counted, slotAt]
  cases hints : table.shape.hasHints with
  | true =>
      obtain ⟨hint, read, slot⟩ := exists_readU32_hint counted hints
      rw [read, slot]
      rfl
  | false =>
      rw [hintAt?, hints]
      rfl

end Slots

/-- All slots are read, one after the other. -/
theorem mapM_readSlot (table : SlotTable) :
    (List.range table.count).mapM table.readSlot = .ok table.slots := by
  have read : ∀ indices : List Nat, (∀ i ∈ indices, i < table.count) →
      indices.mapM table.readSlot = .ok (indices.map table.slotAt) := by
    intro indices counted
    induction indices with
    | nil => rfl
    | cons i rest ih =>
        rw [List.mapM_cons, readSlot_eq_ok (counted i List.mem_cons_self),
          ih fun j member => counted j (List.mem_cons_of_mem i member)]
        rfl
  rw [read _ fun _ => List.mem_range.mp, slots_eq]

section Cut

variable {table other : SlotTable} (shape : table.shape = other.shape)
  (agree : table.body.AgreeBelow other.body table.body.size)

include shape agree

/-- A body that goes on has the same slots, as far as they are counted. -/
theorem slotAt_of_agreeBelow {i : Nat} (counted : i < table.count) :
    table.slotAt i = other.slotAt i := by
  have inside := slot_inside counted
  have wide := table.shape.four_le_slotSize
  rw [ByteView.size_content] at inside
  rw [slotAt, slotAt, offsetAt, offsetAt, hintAt?, hintAt?, ← shape,
    agree.u32At_eq (by omega)]
  cases hints : table.shape.hasHints with
  | true =>
      have wide := ListShape.slotSize_of_hasHints hints
      rw [agree.u32At_eq (by omega)]
  | false => rfl

/-- A body that goes on has at least as many slots. -/
theorem count_le_of_agreeBelow (long : headerSize ≤ table.body.size) :
    table.count ≤ other.count := by
  have declared : table.body.u16At 2 = other.body.u16At 2 := agree.u16At_eq long
  have room : (table.body.size - headerSize) / table.shape.slotSize ≤
      (other.body.size - headerSize) / table.shape.slotSize :=
    Nat.div_le_div_right (Nat.sub_le_sub_right agree.le_size' headerSize)
  rw [count, count, declared, ← shape]
  omega

/-- The slots of a body that is cut off are the first ones of the whole body. -/
theorem slots_prefix_of_agreeBelow (long : headerSize ≤ table.body.size) :
    table.slots <+: other.slots := by
  have fewer := count_le_of_agreeBelow shape agree long
  refine List.prefix_iff_getElem.mpr ⟨by simpa using fewer, ?_⟩
  intro i inside
  rw [length_slots] at inside
  simp only [slots_eq, List.getElem_map, List.getElem_range]
  exact slotAt_of_agreeBelow shape agree inside

end Cut

end SlotTable

/-- What is left of a byte string when it is cut off agrees with it. -/
theorem ByteView.agreeBelow_extract (bytes : ByteArray) (size : Nat) :
    (ofBytes (bytes.extract 0 size)).AgreeBelow (ofBytes bytes)
      (ofBytes (bytes.extract 0 size)).size where
  le_size := Nat.le_refl _
  le_size' := by
    rw [size_ofBytes, size_ofBytes, ByteArray.size_extract]
    omega
  byteAt_eq i inside := by
    rw [size_ofBytes, ByteArray.size_extract] at inside
    rw [byteAt_ofBytes, byteAt_ofBytes, byteAt_extract, if_pos (by omega), Nat.zero_add]

namespace SubkeyList

/-- Reads a subkey list from a cell body, if every number that is taken is there. The offset is only
named in errors. -/
def readChecked (bytes : ByteArray) (offset : UInt32) : Except HiveError SubkeyList :=
  if bytes.size < SlotTable.headerSize then
    .error (.truncated offset SlotTable.headerSize bytes.size)
  else do
    let shape ← ListShape.ofBytes (byteAt bytes 0) (byteAt bytes 1)
    let declared ← readU16 bytes 2
    let count := min declared.toNat ((bytes.size - SlotTable.headerSize) / shape.slotSize)
    let slots ← (List.range count).mapM ({ shape := shape, body := bytes } : SlotTable).readSlot
    pure { shape := shape, slots := slots }

/-- No number that is taken lies outside the cell body. -/
theorem readChecked_eq_decode (bytes : ByteArray) (offset : UInt32) :
    readChecked bytes offset = decode bytes offset := by
  rw [readChecked, decode, SlotTable.decode, ByteView.size_ofBytes, ByteView.byteAt_ofBytes,
    ByteView.byteAt_ofBytes]
  split
  · rfl
  · rename_i long
    rw [SlotTable.headerSize] at long
    cases ListShape.ofBytes (byteAt bytes 0) (byteAt bytes 1) with
    | error error => rfl
    | ok shape =>
        have declared : readU16 bytes 2 = .ok (u16At bytes 2) := readU16_eq_ok (by omega)
        have slots := SlotTable.mapM_readSlot { shape := shape, body := bytes }
        rw [SlotTable.count, ← ByteView.u16At_content, ByteView.content_ofBytes,
          ByteView.size_ofBytes] at slots
        simp only [declared, slots, Except.map, bind, Except.bind, pure, Except.pure, ofTable]

/-- A cell body with the mark of a list has its slots. -/
theorem decode_of_mark {bytes : ByteArray} {shape : ListShape}
    (long : SlotTable.headerSize ≤ bytes.size)
    (mark : HoldsAt bytes 0 (CellTag.subkeyList shape).mark) (offset : UInt32) :
    decode bytes offset = .ok (ofTable { shape := shape, body := bytes }) := by
  rw [decode, SlotTable.decode_eq_ok long (by rwa [ByteView.content_ofBytes])]
  rfl

/-- A list that is cut off behind its mark and its number is read, and has the first of its
slots. -/
theorem exists_decode_extract {bytes : ByteArray} {shape : ListShape} {size : Nat}
    (long : 4 ≤ bytes.size) (mark : HoldsAt bytes 0 (CellTag.subkeyList shape).mark)
    (offset : UInt32) (four : 4 ≤ size) :
    ∃ cut, decode (bytes.extract 0 size) offset = .ok cut ∧ cut.shape = shape ∧
      cut.slots <+: (ofTable { shape := shape, body := bytes }).slots := by
  have rest : SlotTable.headerSize ≤ (bytes.extract 0 size).size := by
    rw [ByteArray.size_extract, SlotTable.headerSize]
    omega
  have cut_mark : HoldsAt (bytes.extract 0 size) 0 (CellTag.subkeyList shape).mark := by
    refine holdsAt_extract_zero_iff.mpr ⟨mark, ?_⟩
    rw [CellTag.size_mark]
    omega
  refine ⟨_, decode_of_mark rest cut_mark offset, rfl, ?_⟩
  simp only [ofTable]
  exact SlotTable.slots_prefix_of_agreeBelow rfl (ByteView.agreeBelow_extract bytes size) rest

/-- A damaged list gives its readable beginning.

Every byte string of at least four bytes that begins with the mark of a list is read, with every
number in it checked to be there. Its slots are so many as it declares, or as many as there is room
for if that is less; every slot holds the number in its place, and the number behind that as its
hint in the shapes that have hints. When the byte string is cut off behind its fourth byte or later,
it is still read, as a list with the first of these slots. -/
theorem decode_readable_prefix {bytes : ByteArray} {shape : ListShape} (long : 4 ≤ bytes.size)
    (mark : HoldsAt bytes 0 (CellTag.subkeyList shape).mark) (offset : UInt32) :
    ∃ (list : SubkeyList) (declared : UInt16), decode bytes offset = .ok list ∧
      readChecked bytes offset = .ok list ∧ list.shape = shape ∧
      readU16 bytes 2 = .ok declared ∧
      list.slots.length =
        min declared.toNat ((bytes.size - 4) / if shape.hasHints then 8 else 4) ∧
      (∀ i (inside : i < list.slots.length),
        readU32 bytes (4 + i * if shape.hasHints then 8 else 4) = .ok list.slots[i].offset ∧
        if shape.hasHints then
          ∃ hint, readU32 bytes (8 + i * 8) = .ok hint ∧ list.slots[i].hint = some hint
        else list.slots[i].hint = none) ∧
      ∀ size, 4 ≤ size → ∃ cut, decode (bytes.extract 0 size) offset = .ok cut ∧
        cut.shape = shape ∧ cut.slots <+: list.slots := by
  let table : SlotTable := { shape := shape, body := bytes }
  have body : table.body.content = bytes := ByteView.content_ofBytes bytes
  have read : decode bytes offset = .ok (ofTable table) := decode_of_mark long mark offset
  refine ⟨_, u16At bytes 2, read, ?_, rfl, readU16_eq_ok (by omega), ?_, ?_,
    fun size => exists_decode_extract long mark offset⟩
  · rw [readChecked_eq_decode, read]
  · rw [ofTable, SlotTable.length_slots, SlotTable.count, ← ByteView.u16At_content,
      ByteView.content_ofBytes, ByteView.size_ofBytes]
    rfl
  · intro i inside
    have counted : i < table.count := by rwa [ofTable, SlotTable.length_slots] at inside
    have slot : (ofTable table).slots[i] = table.slotAt i := by
      simp only [ofTable, SlotTable.slots_eq, List.getElem_map, List.getElem_range]
    rw [slot, ← body]
    exact SlotTable.slotAt_readable counted

/-- A hash leaf declares three slots. The second one is cut off behind its offset, and a cut through
the offset of the first one leaves no slot. -/
theorem decode_readable_prefix_hashLeaf :
    let bytes : ByteArray :=
      [0x6C, 0x68, 3, 0, 0x80, 0, 0, 0, 1, 2, 3, 4, 0, 1, 0, 0, 9].toByteArray
    4 ≤ bytes.size ∧ HoldsAt bytes 0 (CellTag.subkeyList .hashLeaf).mark ∧
      ∃ list, decode bytes 0 = .ok list ∧ list.slots = [⟨0x80, some 0x04030201⟩] ∧
        ∃ cut, decode (bytes.extract 0 7) 0 = .ok cut ∧ cut.slots <+: list.slots ∧
          cut.slots = [] := by
  intro bytes
  have long : 4 ≤ bytes.size := by decide
  have mark : HoldsAt bytes 0 (CellTag.subkeyList .hashLeaf).mark :=
    (holdsAt_self (CellTag.subkeyList .hashLeaf).mark).append
      [3, 0, 0x80, 0, 0, 0, 1, 2, 3, 4, 0, 1, 0, 0, 9].toByteArray
  obtain ⟨list, _, read, _, _, _, _, _, cuts⟩ := decode_readable_prefix long mark 0
  obtain ⟨cut, read', _, front⟩ := cuts 7 (by decide)
  have slots : decode bytes 0 = .ok ⟨.hashLeaf, [⟨0x80, some 0x04030201⟩]⟩ := by decide
  have slots' : decode (bytes.extract 0 7) 0 = .ok ⟨.hashLeaf, []⟩ := by decide
  obtain rfl := Except.ok.inj (read.symm.trans slots)
  obtain rfl := Except.ok.inj (read'.symm.trans slots')
  exact ⟨long, mark, _, read, rfl, _, read', front, rfl⟩

end SubkeyList

end RegistryHive
