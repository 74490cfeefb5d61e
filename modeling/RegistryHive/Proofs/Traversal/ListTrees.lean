import RegistryHive.Proofs.Cell.Fields
import RegistryHive.Proofs.Traversal.Flatten

/-!
# Trees of lists

The keys under a list can be spread over lists in many ways: in one leaf or in many,
with or without hints, directly or behind index roots. `IsList` says in terms of bytes
what a single list names, and `ListTrees` follows the lists down to their leaves: it
keeps the cells of all lists, and the keys that the leaves name from left to right.

As long as no cell occurs twice and the lists are not nested too deep, recursion takes
exactly these cells as lists (`ListTrees.covers`), so what is yielded depends on
the keys alone (`childrenAt_eq_of_listTrees`), and so does the key that is found by a
name (`findChild?_eq_of_childrenAt_eq`).
-/

namespace RegistryHive

/-- The offsets in a cell body that is a list of this shape. There are as many as the list declares,
or as there is room for, and every slot begins with its offset. -/
def ListShape.offsetsIn (shape : ListShape) (body : ByteArray) : List UInt32 :=
  (List.range (min (u16At body 2).toNat ((body.size - 4) / shape.slotSize))).map fun i =>
    u32At body (4 + shape.slotSize * i)

namespace SlotTable

/-- The offsets are read where a list of this shape has them. -/
theorem map_offset_slots (table : SlotTable) :
    table.slots.map (·.offset) = table.shape.offsetsIn table.body.content := by
  simp only [slots_eq, List.map_map, ListShape.offsetsIn, ByteView.u16At_content,
    ByteView.u32At_content, ByteView.size_content]
  refine List.map_congr_left fun i _ => ?_
  simp only [Function.comp, slotAt, offsetAt, headerSize, Nat.mul_comm]

/-- A cell body has slots exactly if it has room for a header and begins with the mark of a list. -/
theorem toOption_decode_eq_some_iff {view : ByteView} {offset : UInt32} {table : SlotTable} :
    (decode view offset).toOption = some table ↔
      headerSize ≤ view.size ∧ HoldsAt view.content 0 (CellTag.subkeyList table.shape).mark ∧
        table.body = view := by
  rw [toOption_decode]
  constructor
  · intro found
    split at found
    · cases found
    · rename_i long
      split at found
      · rename_i shape tagged
        obtain rfl := Option.some.inj found
        have long := Nat.le_of_not_lt long
        exact ⟨long, holdsAt_mark (Nat.le_trans (by decide) long) tagged, rfl⟩
      · cases found
  · rintro ⟨long, mark, rfl⟩
    rw [if_neg (Nat.not_lt.mpr long), mark.tag_eq]

end SlotTable

namespace HiveImage

/-- The allocated cell at an offset begins with the mark of a list of this shape, and these are the
offsets in its slots. -/
def IsList (image : HiveImage) (list : UInt32) (shape : ListShape) (offsets : List UInt32) : Prop :=
  ∃ body, image.readCell list = .ok body ∧ 4 ≤ body.size ∧
    HoldsAt body 0 (CellTag.subkeyList shape).mark ∧ shape.offsetsIn body = offsets

/-- The lists at these offsets, with all lists below them, are nested at most so deep. They take
these cells, each list before those below it, and their leaves name these keys, from left to
right. -/
inductive ListTrees (image : HiveImage) : Nat → List UInt32 → List UInt32 → List UInt32 → Prop
  | nil {room : Nat} : ListTrees image room [] [] []
  | leaf {room : Nat} {list : UInt32} {shape : ListShape} {named rest cells keys : List UInt32}
      (isList : image.IsList list shape named) (isLeaf : shape ≠ .indexRoot)
      (others : ListTrees image (room + 1) rest cells keys) :
      ListTrees image (room + 1) (list :: rest) (list :: cells) (named ++ keys)
  | indexRoot {room : Nat} {list : UInt32} {members inner named rest cells keys : List UInt32}
      (isList : image.IsList list .indexRoot members)
      (below : ListTrees image room members inner named)
      (others : ListTrees image (room + 1) rest cells keys) :
      ListTrees image (room + 1) (list :: rest) (list :: (inner ++ cells)) (named ++ keys)

section IsList

variable {image : HiveImage} {list : UInt32} {shape : ListShape} {offsets : List UInt32}

/-- A cell is a list exactly if its slots can be found. -/
theorem isList_iff :
    image.IsList list shape offsets ↔
      ∃ table, image.slotTable? list = some table ∧ table.shape = shape ∧
        table.slots.map (·.offset) = offsets := by
  rw [slotTable?, IsList, readCell]
  cases image.cellBody list with
  | error error => simp [Except.map]
  | ok view =>
      simp only [SlotTable.toOption_decode_eq_some_iff]
      constructor
      · rintro ⟨body, read, long, mark, rfl⟩
        obtain rfl : view.content = body := by simpa [Except.map] using read
        rw [ByteView.size_content] at long
        exact ⟨⟨shape, view⟩, ⟨long, mark, rfl⟩, rfl, SlotTable.map_offset_slots _⟩
      · rintro ⟨table, ⟨long, mark, rfl⟩, rfl, rfl⟩
        rw [← ByteView.size_content] at long
        exact ⟨_, rfl, long, mark, (SlotTable.map_offset_slots _).symm⟩

/-- A list is not at the null offset. -/
theorem IsList.valid (isList : image.IsList list shape offsets) : list ≠ nullOffset := by
  obtain ⟨body, read, -⟩ := isList
  exact ne_nullOffset_of_readCell read

/-- A leaf names keys and no lists. -/
theorem IsList.lists_of_leaf (isList : image.IsList list shape offsets)
    (isLeaf : shape ≠ .indexRoot) :
    image.memberLists list = [] ∧
      image.leafKeys list = offsets.filterMap (SubkeyWalk.child? image) := by
  obtain ⟨table, readable, rfl, rfl⟩ := isList_iff.mp isList
  exact HiveImage.lists_of_leaf readable (beq_eq_false_iff_ne.mpr isLeaf)

/-- An index root names lists and no keys. -/
theorem IsList.lists_of_indexRoot (isList : image.IsList list .indexRoot offsets) :
    image.memberLists list = offsets ∧ image.leafKeys list = [] := by
  obtain ⟨table, readable, shape, rfl⟩ := isList_iff.mp isList
  exact HiveImage.lists_of_indexRoot readable (beq_iff_eq.mpr shape)

end IsList

end HiveImage

/-- Recursion takes these cells as lists, one after the other, and yields these keys. -/
structure Flattened.Covers (flat : Flattened) (cells : List UInt32) (keys : List ChildKey) :
    Prop where
  cells_eq : flat.visits.map (·.offset) = cells
  keys_eq : flat.keys = keys

namespace HiveImage

section Trees

variable {image : HiveImage} {room depth : Nat} {visited : OffsetSet} {list : UInt32}

/-- A list that has not been visited comes first, then the lists below it, then those after it. -/
theorem flattenAll_cons_covers {rest inner cells : List UInt32} {below others : List ChildKey}
    (valid : list ≠ nullOffset) (shallow : depth < maxListDepth)
    (distinct : (list :: (inner ++ cells)).Nodup)
    (fresh : ∀ cell ∈ list :: (inner ++ cells), cell ∉ visited)
    (members : (image.flattenAll (image.memberLists list) (depth + 1)
      (visited.insert list)).Covers inner below)
    (later : ∀ {visited}, (∀ cell ∈ cells, cell ∉ visited) →
      (image.flattenAll rest depth visited).Covers cells others) :
    (image.flattenAll (list :: rest) depth visited).Covers (list :: (inner ++ cells))
      (image.leafKeys list ++ below ++ others) := by
  have accepted : ¬ (list = nullOffset ∨ maxListDepth ≤ depth ∨ list ∈ visited) := by
    rintro (null | deep | old)
    · exact valid null
    · exact Nat.not_lt.mpr deep shallow
    · exact fresh list List.mem_cons_self old
  have accounts := image.accounts_flattenAll (image.memberLists list) (depth + 1)
    (visited.insert list)
  obtain ⟨notBelow, distinct'⟩ := List.nodup_cons.mp distinct
  -- The lists after it are neither this list, nor below it, nor visited before.
  have fresh' : ∀ cell ∈ cells, cell ∉ (image.flattenAll (image.memberLists list) (depth + 1)
      (visited.insert list)).after := by
    intro cell member after
    obtain before | here := (accounts.mem_after_iff cell).mp after
    · obtain same | old := Std.HashSet.mem_insert.mp before
      · exact notBelow (List.mem_append_right inner (eq_of_beq same ▸ member))
      · exact fresh cell (List.mem_cons_of_mem list (List.mem_append_right inner member)) old
    · rw [members.cells_eq] at here
      exact (List.nodup_append.mp distinct').2.2 cell here cell member rfl
  have others := later fresh'
  constructor
  · simp only [flattenAll_cons, flatten_of_not_refused accepted, Flattened.append,
      Flattened.within, List.map_cons, List.map_append, members.cells_eq, others.cells_eq,
      List.cons_append]
  · simp only [flattenAll_cons, flatten_of_not_refused accepted, Flattened.append,
      Flattened.within, members.keys_eq, others.keys_eq]

/-- Recursion over lists that have not been visited takes the cells of all lists below them as lists
and yields the readable ones among their keys. -/
theorem ListTrees.covers {lists cells keys : List UInt32}
    (trees : image.ListTrees room lists cells keys) (shallow : depth + room ≤ maxListDepth)
    (distinct : cells.Nodup) (fresh : ∀ cell ∈ cells, cell ∉ visited) :
    (image.flattenAll lists depth visited).Covers cells
      (keys.filterMap (SubkeyWalk.child? image)) := by
  induction trees generalizing depth visited with
  | nil =>
      rw [flattenAll_nil]
      exact ⟨rfl, rfl⟩
  | @leaf room list shape named rest cells keys isList isLeaf others ih =>
      obtain ⟨noMembers, named_eq⟩ := isList.lists_of_leaf isLeaf
      have members : (image.flattenAll (image.memberLists list) (depth + 1)
          (visited.insert list)).Covers [] [] := by
        rw [noMembers, flattenAll_nil]
        exact ⟨rfl, rfl⟩
      have all : (image.flattenAll (list :: rest) depth visited).Covers (list :: ([] ++ cells)) _ :=
        flattenAll_cons_covers isList.valid (by omega) distinct fresh members
          fun fresh => ih shallow (List.nodup_cons.mp distinct).2 fresh
      rwa [List.append_nil, named_eq, ← List.filterMap_append] at all
  | @indexRoot room list members inner named rest cells keys isList below others ihBelow ih =>
      obtain ⟨members_eq, noKeys⟩ := isList.lists_of_indexRoot
      obtain ⟨notBelow, distinct'⟩ := List.nodup_cons.mp distinct
      have members' : (image.flattenAll (image.memberLists list) (depth + 1)
          (visited.insert list)).Covers inner (named.filterMap (SubkeyWalk.child? image)) := by
        rw [members_eq]
        apply ihBelow (by omega) (List.nodup_append.mp distinct').1
        intro cell member marked
        obtain same | old := Std.HashSet.mem_insert.mp marked
        · exact notBelow (List.mem_append_left cells (eq_of_beq same ▸ member))
        · exact fresh cell (List.mem_cons_of_mem list (List.mem_append_left cells member)) old
      have all : (image.flattenAll (list :: rest) depth visited).Covers _ _ :=
        flattenAll_cons_covers isList.valid (by omega) distinct fresh members'
          fun fresh => ih shallow (List.nodup_append.mp distinct').2.1 fresh
      rwa [noKeys, List.nil_append, ← List.filterMap_append] at all

/-- A walk yields the readable ones among the keys that the leaves below its list name, if the lists
are not nested too deep and no cell is among them twice. -/
theorem childrenAt_eq_of_listTrees {cells keys : List UInt32}
    (trees : image.ListTrees maxListDepth [list] cells keys) (distinct : cells.Nodup) :
    image.childrenAt list = keys.filterMap (SubkeyWalk.child? image) := by
  have covers : (image.flattenAll [list] 0 ∅).Covers cells _ :=
    trees.covers (Nat.zero_add _).le distinct fun _ _ => Std.HashSet.not_mem_empty
  rw [flattenAll_singleton] at covers
  rw [childrenAt_eq_keys, covers.keys_eq]

/-- A search for a name ends at the first readable key of this name, where the walk yields the
readable ones among some keys. -/
theorem findChild?_eq_of_childrenAt_eq {keys : List UInt32}
    (yields : image.childrenAt list = keys.filterMap (SubkeyWalk.child? image)) (name : String) :
    image.findChild? list name = keys.find? fun key =>
      (image.keyNode? key).any fun node => Text.lowerCase node.name == Text.lowerCase name := by
  have test (key : UInt32) : (SubkeyWalk.child? image key).any (fun child =>
      Text.lowerCase child.name == Text.lowerCase name) =
        (image.keyNode? key).any fun node => Text.lowerCase node.name == Text.lowerCase name := by
    rw [SubkeyWalk.child?, Option.any_map]
  rw [findChild?_eq, yields, List.find?_filterMap]
  simp only [test]
  cases found : keys.find? fun key =>
      (image.keyNode? key).any fun node => Text.lowerCase node.name == Text.lowerCase name with
  | none => rfl
  | some key =>
      have bears := List.find?_some found
      obtain ⟨node, readable⟩ : ∃ node, image.keyNode? key = some node := by
        cases readable : image.keyNode? key with
        | none => simp [readable] at bears
        | some node => exact ⟨node, rfl⟩
      simp only [Option.bind_some, SubkeyWalk.child?, readable, Option.map_some]

end Trees

end HiveImage

end RegistryHive
