import RegistryHive.Cell.BigData
import RegistryHive.Cell.KeyNode
import RegistryHive.Cell.SubkeyList
import RegistryHive.Cell.ValueNode

/-!
# Contents of cells

`Cell.decode` reads the tag of a cell body and leaves the rest to the reader of
the structure that the tag names. Security descriptors are recognised and not
read any further.
-/

namespace RegistryHive

/-- What a cell holds. -/
inductive Cell
  | key (node : KeyNode)
  | value (node : ValueNode)
  | subkeyList (list : SubkeyList)
  | bigData (header : BigData)
  | security
  deriving DecidableEq

namespace Cell

/-- Reads a cell body. The offset is only named in errors. -/
def decode (body : ByteView) (offset : UInt32) : Except HiveError Cell :=
  if body.size < 2 then .error (.truncated offset 2 body.size)
  else
    match CellTag.ofBytes? (body.byteAt 0) (body.byteAt 1) with
    | some .keyNode => (KeyNode.decode body offset).map key
    | some .valueNode => (ValueNode.decode body offset).map value
    | some (.subkeyList _) => (SubkeyList.decode body offset).map subkeyList
    | some .bigData => (BigData.decode body offset).map bigData
    | some .security => .ok security
    | none => .error (.unknownCellTag [body.byteAt 0, body.byteAt 1].toByteArray offset)

/-- The key node of a cell. -/
def key? : Cell → Option KeyNode
  | key node => some node
  | _ => none

/-- The value node of a cell. -/
def value? : Cell → Option ValueNode
  | value node => some node
  | _ => none

/-- The subkey list of a cell. -/
def subkeyList? : Cell → Option SubkeyList
  | subkeyList list => some list
  | _ => none

/-- The big data header of a cell. -/
def bigData? : Cell → Option BigData
  | bigData header => some header
  | _ => none

private theorem subkeyList?_map {α : Type} {cell : α → Cell}
    (other : ∀ content, (cell content).subkeyList? = none) (read : Except HiveError α) :
    (read.map cell).toOption.bind subkeyList? = none := by
  cases read with
  | error error => rfl
  | ok content => exact other content

/-- A cell holds a subkey list exactly when its slots can be found. -/
theorem subkeyList?_decode (body : ByteView) (offset : UInt32) :
    (decode body offset).toOption.bind subkeyList? =
      (SlotTable.decode body offset).toOption.map SubkeyList.ofTable := by
  unfold decode
  split
  · rename_i short
    rw [SlotTable.toOption_decode, if_pos (by rw [SlotTable.headerSize]; omega)]
    rfl
  · split
    · rename_i tag
      rw [subkeyList?_map fun _ => rfl, SlotTable.toOption_decode, tag]
      simp
    · rename_i tag
      rw [subkeyList?_map fun _ => rfl, SlotTable.toOption_decode, tag]
      simp
    · rw [SubkeyList.decode]
      cases SlotTable.decode body offset <;> rfl
    · rename_i tag
      rw [subkeyList?_map fun _ => rfl, SlotTable.toOption_decode, tag]
      simp
    · rename_i tag
      rw [SlotTable.toOption_decode, tag]
      simp [subkeyList?, Except.toOption]
    · rename_i tag
      rw [SlotTable.toOption_decode, tag]
      simp [Except.toOption]

end Cell

end RegistryHive
