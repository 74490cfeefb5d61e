import RegistryHive.Cell.Tag

/-!
# Subkey lists

A subkey list declares a number of slots and holds them one after the other.
Every slot is an offset; in a fast leaf and in a hash leaf a hint follows it. A
list that declares more slots than its cell holds is cut to those that are
there, so a damaged list still gives its readable beginning.

A `SlotTable` reads single slots where they lie in the cell; a `SubkeyList` holds
all of them. `SlotTable.slots_eq` says that the list holds what the table reads.
-/

namespace RegistryHive

/-- A slot of a subkey list. -/
structure ListSlot where
  /-- A key node, or a further list in an index root. -/
  offset : UInt32
  /-- The hint beside the offset, in the shapes that have one. -/
  hint : Option UInt32
  deriving DecidableEq, Repr

/-- The slots of a subkey list in the body of its cell. -/
structure SlotTable where
  shape : ListShape
  body : ByteView

namespace SlotTable

/-- The number of bytes before the first slot. -/
def headerSize : Nat := 4

/-- The number of slots: as many as declared, if they are there. -/
def count (table : SlotTable) : Nat :=
  min (table.body.u16At 2).toNat ((table.body.size - headerSize) / table.shape.slotSize)

/-- The offset in the slot at an index. -/
def offsetAt (table : SlotTable) (i : Nat) : UInt32 :=
  table.body.u32At (headerSize + i * table.shape.slotSize)

/-- The hint in the slot at an index. -/
def hintAt? (table : SlotTable) (i : Nat) : Option UInt32 :=
  if table.shape.hasHints then some (table.body.u32At (headerSize + i * table.shape.slotSize + 4))
  else none

/-- The slot at an index. -/
def slotAt (table : SlotTable) (i : Nat) : ListSlot :=
  { offset := table.offsetAt i, hint := table.hintAt? i }

/-- Finds the slots in a cell body. The offset is only named in errors. -/
def decode (body : ByteView) (offset : UInt32) : Except HiveError SlotTable :=
  if body.size < headerSize then .error (.truncated offset headerSize body.size)
  else
    (ListShape.ofBytes (body.byteAt 0) (body.byteAt 1)).map fun shape =>
      { shape := shape, body := body }

/-- A cell body of sufficient size has slots exactly when its tag is that of a subkey list. -/
theorem toOption_decode (body : ByteView) (offset : UInt32) :
    (decode body offset).toOption =
      if body.size < headerSize then none
      else
        match CellTag.ofBytes? (body.byteAt 0) (body.byteAt 1) with
        | some (.subkeyList shape) => some { shape := shape, body := body }
        | _ => none := by
  unfold decode ListShape.ofBytes
  split
  · rfl
  · cases CellTag.ofBytes? (body.byteAt 0) (body.byteAt 1) with
    | none => rfl
    | some tag => cases tag <;> rfl

/-- Puts the first `count` slots before other slots. -/
def slotsBefore (table : SlotTable) : Nat → List ListSlot → List ListSlot
  | 0, rest => rest
  | count + 1, rest => slotsBefore table count (table.slotAt count :: rest)

/-- All slots, in order. -/
def slots (table : SlotTable) : List ListSlot := table.slotsBefore table.count []

private theorem slotsBefore_eq (table : SlotTable) (count : Nat) (rest : List ListSlot) :
    table.slotsBefore count rest = (List.range count).map table.slotAt ++ rest := by
  induction count generalizing rest with
  | zero => rfl
  | succ count ih => simp [slotsBefore, ih, List.range_succ]

/-- The slots are those at the indices below their number. -/
theorem slots_eq (table : SlotTable) : table.slots = (List.range table.count).map table.slotAt := by
  simp [slots, slotsBefore_eq]

@[simp] theorem length_slots (table : SlotTable) : table.slots.length = table.count := by
  simp [slots_eq]

/-- The slots name further lists. -/
def isIndexRoot (table : SlotTable) : Bool := table.shape == .indexRoot

end SlotTable

/-- A subkey list. -/
structure SubkeyList where
  shape : ListShape
  slots : List ListSlot
  deriving DecidableEq, Repr

namespace SubkeyList

/-- The list with the slots of a table. -/
def ofTable (table : SlotTable) : SubkeyList := { shape := table.shape, slots := table.slots }

/-- Reads a subkey list from a cell body. The offset is only named in errors. -/
def decode (body : ByteView) (offset : UInt32) : Except HiveError SubkeyList :=
  (SlotTable.decode body offset).map ofTable

/-- The offsets in the slots, in order. -/
def offsets (list : SubkeyList) : List UInt32 := list.slots.map (·.offset)

/-- The slots name further lists. -/
def isIndexRoot (list : SubkeyList) : Bool := list.shape == .indexRoot

end SubkeyList

end RegistryHive
