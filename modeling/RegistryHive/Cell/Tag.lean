import RegistryHive.ByteView
import RegistryHive.HiveError

/-!
# Cell tags

The first two bytes of a cell body say what the cell holds. Four tags belong to
subkey lists: three kinds of leaf, which list key nodes, and the index root,
which lists further lists.
-/

namespace RegistryHive

/-- The four shapes of a subkey list. -/
inductive ListShape
  /-- Bare offsets of key nodes. -/
  | indexLeaf
  /-- Offsets of key nodes, each with the first characters of the name. -/
  | fastLeaf
  /-- Offsets of key nodes, each with a hash of the name. -/
  | hashLeaf
  /-- Offsets of further lists. -/
  | indexRoot
  deriving DecidableEq, Repr

namespace ListShape

/-- Every slot holds a hint beside the offset. -/
def hasHints : ListShape → Bool
  | fastLeaf | hashLeaf => true
  | indexLeaf | indexRoot => false

/-- The number of bytes of a slot. -/
def slotSize (shape : ListShape) : Nat := if shape.hasHints then 8 else 4

theorem slotSize_pos (shape : ListShape) : 0 < shape.slotSize := by
  cases shape <;> decide

end ListShape

/-- What a cell holds. -/
inductive CellTag
  | keyNode
  | valueNode
  | security
  | subkeyList (shape : ListShape)
  | bigData
  deriving DecidableEq, Repr

namespace CellTag

/-- The two bytes of a tag, which are the letters `nk`, `vk`, `sk`, `li`, `lf`, `lh`, `ri`
and `db`. -/
def bytes : CellTag → UInt8 × UInt8
  | keyNode => (0x6E, 0x6B)
  | valueNode => (0x76, 0x6B)
  | security => (0x73, 0x6B)
  | subkeyList .indexLeaf => (0x6C, 0x69)
  | subkeyList .fastLeaf => (0x6C, 0x66)
  | subkeyList .hashLeaf => (0x6C, 0x68)
  | subkeyList .indexRoot => (0x72, 0x69)
  | bigData => (0x64, 0x62)

/-- The two bytes at the start of the body of a cell. -/
def mark (tag : CellTag) : ByteArray := [tag.bytes.1, tag.bytes.2].toByteArray

/-- The tag that two bytes stand for. -/
def ofBytes? (first second : UInt8) : Option CellTag :=
  match first, second with
  | 0x6E, 0x6B => some keyNode
  | 0x76, 0x6B => some valueNode
  | 0x73, 0x6B => some security
  | 0x6C, 0x69 => some (subkeyList .indexLeaf)
  | 0x6C, 0x66 => some (subkeyList .fastLeaf)
  | 0x6C, 0x68 => some (subkeyList .hashLeaf)
  | 0x72, 0x69 => some (subkeyList .indexRoot)
  | 0x64, 0x62 => some bigData
  | _, _ => none

@[simp] theorem ofBytes?_bytes (tag : CellTag) : ofBytes? tag.bytes.1 tag.bytes.2 = some tag := by
  cases tag with
  | subkeyList shape => cases shape <;> decide
  | _ => decide

/-- Two bytes stand for a tag exactly when they are its bytes. -/
theorem ofBytes?_eq_some_iff {first second : UInt8} {tag : CellTag} :
    ofBytes? first second = some tag ↔ tag.bytes = (first, second) := by
  constructor
  · intro h
    unfold ofBytes? at h
    split at h <;> cases h <;> rfl
  · intro h
    have := ofBytes?_bytes tag
    rwa [h] at this

/-- A cell body begins with the bytes of the tag. -/
def isAtStart (tag : CellTag) (body : ByteView) : Bool :=
  body.byteAt 0 == tag.bytes.1 && body.byteAt 1 == tag.bytes.2

theorem isAtStart_iff {tag : CellTag} {body : ByteView} :
    tag.isAtStart body = true ↔ ofBytes? (body.byteAt 0) (body.byteAt 1) = some tag := by
  rw [ofBytes?_eq_some_iff, isAtStart, Bool.and_eq_true, beq_iff_eq, beq_iff_eq, Prod.ext_iff]
  exact ⟨fun h => ⟨h.1.symm, h.2.symm⟩, fun h => ⟨h.1.symm, h.2.symm⟩⟩

/-- The tag is that of a subkey list. -/
def isSubkeyList : CellTag → Bool
  | subkeyList _ => true
  | _ => false

end CellTag

/-- The shape of the list whose tag is given by two bytes. -/
def ListShape.ofBytes (first second : UInt8) : Except HiveError ListShape :=
  match CellTag.ofBytes? first second with
  | some (.subkeyList shape) => .ok shape
  | _ => .error (.notSubkeyList [first, second].toByteArray)

end RegistryHive
