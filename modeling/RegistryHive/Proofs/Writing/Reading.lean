import Mathlib.Data.List.Basic
import RegistryHive.Proofs.Traversal.ListTrees
import RegistryHive.Proofs.Traversal.Preorder
import RegistryHive.Proofs.Writing.Payloads
import RegistryHive.Proofs.Writing.KeyTree

/-!
# Reading written keys

From here on only the cells count: `Shows` says that an image has every cell of a
heap in which all written contents stand. A key is then read with its name, its
time and its lists; a leaf or an index root gives the cells it was written with;
and a value gives its name, its type and its payload. `readsKey` collects what is
read of a key in a tree that has been laid out.
-/

namespace RegistryHive

open HiveWriter

/-- The image has everything that was asked to be written. -/
def Shows (image : HiveImage) (contents : Contents) : Prop :=
  ∃ heap, ReadsHeap image heap ∧
    ∀ {cell content}, contents cell = some content → content.StoredIn heap cell

/-- The image of a finished run has everything that was asked to be written. -/
theorem HiveWriter.Run.shows {writer : HiveWriter} {contents : Contents}
    (run : Run writer contents) (small : writer.bins.size < 2 ^ 31) :
    Shows writer.image contents := by
  obtain ⟨heap, stores⟩ := run.stores small
  exact ⟨heap, stores.represents.readsHeap small, stores.stored⟩

/-- What is read of the uppermost key of a tree. -/
structure ReadsKey (image : HiveImage) (tree : KeyTree UInt32) (node : KeyNode) : Prop where
  readable : image.keyNode? tree.cell = some node
  name : node.name = tree.name
  lastWritten : node.lastWritten = writtenTime
  subkeys : image.subkeysOf node =
    tree.subkeys.map fun subkey => { name := subkey.name, offset := subkey.cell }
  values : image.valuesOf node = tree.values.map WrittenValue.value

namespace Shows

variable {image : HiveImage} {contents : Contents}

theorem keyNode?_eq (shown : Shows image contents) {cell : UInt32} {record : KeyRecord}
    (written : contents cell = some (.key record)) (name : IsStoredName record.name) :
    ∃ node, image.keyNode? cell = some node ∧ record.Describes node := by
  obtain ⟨heap, reads, stored⟩ := shown
  obtain ⟨body, here, inBody⟩ := stored written
  obtain ⟨view, read, rfl⟩ := reads.read here
  obtain ⟨node, decoded, describes⟩ := inBody.decode name cell
  refine ⟨node, ?_, describes⟩
  rw [HiveImage.keyNode?, HiveImage.decode, read]
  simp only [decoded]
  rfl

/-- A key is yielded with the name it was written with, wherever a leaf names it. -/
theorem child?_eq (shown : Shows image contents) {cell : UInt32} {record : KeyRecord}
    (written : contents cell = some (.key record)) (name : IsStoredName record.name) :
    SubkeyWalk.child? image cell = some { name := record.name, offset := cell } := by
  obtain ⟨node, readable, describes⟩ := shown.keyNode?_eq written name
  exact SubkeyWalk.child?_eq_some_iff.mpr ⟨rfl, node, readable, describes.name⟩

/-- A subkey list is read with its shape and its offsets. -/
theorem isList (shown : Shows image contents) {cell : UInt32} {shape : ListShape}
    {offsets : List UInt32} (written : contents cell = some (.list shape offsets))
    (fits : offsets.length ≤ 65535) : image.IsList cell shape offsets := by
  obtain ⟨heap, reads, stored⟩ := shown
  obtain ⟨view, read, content⟩ := reads.read (stored written)
  refine HiveImage.isList_iff.mpr ⟨⟨shape, view⟩, ?_, rfl, offsets_slots content fits⟩
  rw [HiveImage.slotTable?, read]
  simp only [slotTable_decode content cell]
  rfl

/-- Leaves are trees of lists that name what the leaves name, one after the other. -/
theorem listTrees_leaves (shown : Shows image contents) {room : Nat} {leaves : List UInt32}
    {parts : List (List UInt32)} (each : List.Forall₂ contents.HasLeaf leaves parts) :
    image.ListTrees (room + 1) leaves leaves parts.flatten := by
  induction each with
  | nil => exact .nil
  | cons first _ ih =>
      obtain ⟨shape, isLeaf, written, fits⟩ := first
      exact .leaf (shown.isList written fits) isLeaf ih

/-- An index root is none of the leaves that it names. -/
theorem not_mem_leaves {list : UInt32} {leaves members : List UInt32}
    {parts : List (List UInt32)} (written : contents list = some (.list .indexRoot members))
    (each : List.Forall₂ contents.HasLeaf leaves parts) : list ∉ leaves := by
  intro member
  induction each with
  | nil => exact List.not_mem_nil member
  | cons first _ ih =>
      obtain rfl | later := List.mem_cons.mp member
      · obtain ⟨shape, isLeaf, written', -⟩ := first
        cases written.symm.trans written'
        exact isLeaf rfl
      · exact ih later

/-- A list that was written, with its leaves, is a tree of lists that names the same cells. -/
theorem exists_listTrees (shown : Shows image contents) {list : UInt32} {cells : List UInt32}
    (written : contents.HasList list cells) :
    ∃ lists, lists.Nodup ∧ image.ListTrees maxListDepth [list] lists cells := by
  cases written with
  | leaf written =>
      have trees : image.ListTrees maxListDepth [list] [list] [cells].flatten :=
        shown.listTrees_leaves (List.forall₂_cons.mpr ⟨written, .nil⟩)
      rw [List.flatten_cons, List.flatten_nil, List.append_nil] at trees
      exact ⟨[list], List.pairwise_singleton _ list, trees⟩
  | @index leaves parts written few distinct each =>
      have trees : image.ListTrees maxListDepth [list] (list :: (leaves ++ []))
          (parts.flatten ++ []) :=
        .indexRoot (shown.isList written few) (shown.listTrees_leaves each) .nil
      rw [List.append_nil, List.append_nil] at trees
      exact ⟨list :: leaves, List.nodup_cons.mpr ⟨not_mem_leaves written each, distinct⟩, trees⟩

/-- The children in a list are the readable ones among the cells that it was written with. -/
theorem childrenAt_eq (shown : Shows image contents) {list : UInt32} {cells : List UInt32}
    (written : contents.HasList list cells) :
    image.childrenAt list = cells.filterMap (SubkeyWalk.child? image) := by
  obtain ⟨lists, distinct, trees⟩ := shown.exists_listTrees written
  exact HiveImage.childrenAt_eq_of_listTrees trees distinct

private theorem length_flatten_le {leaves : List UInt32} {parts : List (List UInt32)}
    (each : List.Forall₂ contents.HasLeaf leaves parts) :
    parts.flatten.length ≤ 65535 * leaves.length := by
  induction each with
  | nil => exact Nat.zero_le _
  | cons first others ih =>
      obtain ⟨-, -, -, fits⟩ := first
      rw [List.flatten_cons, List.length_append, List.length_cons]
      omega

/-- A count of zero is declared for no subkeys only. -/
theorem subkeyCount_eq_zero_iff {record : KeyRecord} {cells : List UInt32}
    (has : contents.HasSubkeys record cells) : record.subkeyCount = 0 ↔ cells = [] := by
  rcases has with ⟨rfl, zero⟩ | ⟨count, list⟩
  · simp [zero]
  · have few : cells.length < 2 ^ 32 := by
      cases list with
      | leaf written =>
          obtain ⟨-, -, -, fits⟩ := written
          omega
      | index written few distinct each =>
          have total := length_flatten_le each
          omega
    rw [count, ← List.length_eq_zero_iff, ← UInt32.toNat_inj, UInt32.toNat_ofNat',
      Nat.mod_eq_of_lt few]
    rfl

/-- The subkeys of a key are the readable ones among the cells that hang under it. -/
theorem subkeysOf_eq (shown : Shows image contents) {record : KeyRecord} {node : KeyNode}
    (describes : record.Describes node) {cells : List UInt32}
    (has : contents.HasSubkeys record cells) :
    image.subkeysOf node = cells.filterMap (SubkeyWalk.child? image) := by
  have empty := subkeyCount_eq_zero_iff has
  rw [HiveImage.subkeysOf, KeyNode.hasSubkeys, describes.subkeyCount, describes.subkeyList]
  by_cases none : cells = []
  · rw [empty.mpr none, none]
    rfl
  · rw [if_pos (bne_iff_ne.mpr fun zero => none (empty.mp zero))]
    rcases has with ⟨nil, -⟩ | ⟨-, list⟩
    · exact absurd nil none
    · exact shown.childrenAt_eq list

/-- A value is read with its name, its type and its payload. -/
theorem valueNode?_eq (shown : Shows image contents) {cell : UInt32} {value : WrittenValue}
    (written : contents cell = some (.value value)) (valid : value.Valid) :
    ∃ node, image.valueNode? cell = some node ∧ image.valueOf node = value.value := by
  obtain ⟨heap, reads, stored⟩ := shown
  obtain ⟨fields, here, payload⟩ := stored written
  obtain ⟨view, read, content⟩ := reads.read here
  have decoded := valueNode_decode content valid.name cell
  have data : (valueNodeOf value.name value.code fields).payload image = .ok value.payload :=
    (payload.stores_valueNodeOf reads valid.size_le _ _).payload_eq
  refine ⟨valueNodeOf value.name value.code fields, ?_, ?_⟩
  · rw [HiveImage.valueNode?, HiveImage.decode, read]
    simp only [decoded]
    rfl
  · rw [HiveImage.valueOf, data]
    rfl

/-- The offsets in the list of values of a key are those it was written with. -/
theorem valueOffsets_eq (shown : Shows image contents) {record : KeyRecord} {node : KeyNode}
    (describes : record.Describes node) {cells : List UInt32}
    (count : record.valueCount = UInt32.ofNat cells.length)
    (written : contents record.valueList = some (.valueList cells)) :
    image.valueOffsets node = cells := by
  obtain ⟨heap, reads, stored⟩ := shown
  have here := stored written
  obtain ⟨view, read, content⟩ := reads.read here
  have room := length_le_of_content_eq content
  have few : cells.length < 2 ^ 32 := by
    have size_lt := reads.size_lt here
    rw [← content, ByteView.size_content] at size_lt
    omega
  have toNat : node.valueCount.toNat = cells.length := by
    rw [describes.valueCount, count, UInt32.toNat_ofNat', Nat.mod_eq_of_lt few]
  rw [HiveImage.valueOffsets, KeyNode.hasValues, describes.valueList]
  by_cases none : cells = []
  · have zero : node.valueCount = 0 := by
      rw [describes.valueCount, count, none]
      rfl
    rw [zero, none]
    rfl
  · have nonzero : node.valueCount ≠ 0 := by
      intro zero
      rw [zero] at toNat
      exact none (List.length_eq_zero_iff.mp toNat.symm)
    rw [bne_iff_ne.mpr nonzero, bne_iff_ne.mpr (reads.valid here), read]
    simp only [Bool.and_self, if_true, toNat]
    rw [Nat.min_eq_left room]
    apply List.ext_getElem (by simp)
    intro i hi hi'
    rw [List.getElem_map, List.getElem_range]
    exact u32At_of_content_eq content i hi'

/-- The values of a key are read as they were written. -/
theorem valuesOf_eq (shown : Shows image contents) {record : KeyRecord} {node : KeyNode}
    (describes : record.Describes node) {values : List WrittenValue}
    (has : contents.HasValues record values) (valid : ∀ value ∈ values, value.Valid) :
    image.valuesOf node = values.map WrittenValue.value := by
  rcases has with ⟨rfl, zero⟩ | ⟨count, cells, written, each⟩
  · rw [HiveImage.valuesOf, HiveImage.valueOffsets, KeyNode.hasValues, describes.valueCount, zero]
    rfl
  · rw [← each.length_eq] at count
    rw [HiveImage.valuesOf, shown.valueOffsets_eq describes count written]
    clear written count
    induction each with
    | nil => rfl
    | @cons cell value cells values first others ih =>
        obtain ⟨valueNode, readable, same⟩ :=
          shown.valueNode?_eq first (valid value List.mem_cons_self)
        have rest := ih fun other later => valid other (List.mem_cons_of_mem value later)
        rw [List.filterMap_cons, readable]
        simp only [List.map_cons]
        rw [same, rest]

/-- A key of a tree that has been laid out is read with its name, its subkeys and its values. -/
theorem readsKey (shown : Shows image contents) {tree : KeyTree UInt32} (has : contents.HasKey tree)
    (stored : IsStoredName tree.name) (values : ∀ value ∈ tree.values, value.Valid)
    (subkeys : ∀ subkey ∈ tree.subkeys, contents.HasKey subkey ∧ IsStoredName subkey.name) :
    ∃ node, ReadsKey image tree node := by
  obtain ⟨record, written, name, hasSubkeys, hasValues⟩ := has
  obtain ⟨node, readable, describes⟩ := shown.keyNode?_eq written (by rwa [name])
  refine ⟨node, readable, describes.name.trans name, describes.lastWritten, ?_,
    shown.valuesOf_eq describes hasValues values⟩
  rw [shown.subkeysOf_eq describes hasSubkeys, List.filterMap_map,
    List.filterMap_eq_map_iff_forall_eq_some]
  intro subkey member
  obtain ⟨⟨record', written', name', -, -⟩, stored'⟩ := subkeys subkey member
  rw [← name'] at stored' ⊢
  exact shown.child?_eq written' stored'

end Shows

end RegistryHive
