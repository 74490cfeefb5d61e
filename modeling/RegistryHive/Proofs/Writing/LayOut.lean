import RegistryHive.Proofs.Writing.RoundTrip

/-!
# Laying a tree out depth first

A key is written first, then the trees below it one after the other, then the
lists that name its subkeys, and at last its values. A plan at every key says which
leaves the subkeys go to. What comes out is the same tree, with the cells of its
keys in place of the plans, and the state of the writer.

Every call adds a number of bytes that is known before it, so the length of the
bin is bounded by the space that the tree takes (`HiveWriter.size_layOut_le`).
-/

namespace RegistryHive

/-- How the subkeys of a key are listed. -/
inductive ListPlan
  /-- In one leaf. -/
  | leaf (shape : ListShape)
  /-- In leaves under an index root, each of which takes a number of subkeys. -/
  | index (leaves : List (ListShape × Nat))

/-- A plan lists a number of subkeys, with no more slots in a list than its header can count. -/
def ListPlan.Fits : ListPlan → Nat → Prop
  | leaf shape, count => shape ≠ .indexRoot ∧ count ≤ 65535
  | index leaves, count => leaves.length ≤ 65535 ∧
      (∀ leaf ∈ leaves, leaf.1 ≠ .indexRoot ∧ leaf.2 ≤ 65535) ∧ (leaves.map (·.2)).sum = count

instance (plan : ListPlan) (count : Nat) : Decidable (plan.Fits count) :=
  match plan with
  | .leaf shape => inferInstanceAs (Decidable (shape ≠ .indexRoot ∧ count ≤ 65535))
  | .index leaves => inferInstanceAs (Decidable (leaves.length ≤ 65535 ∧
      (∀ leaf ∈ leaves, leaf.1 ≠ .indexRoot ∧ leaf.2 ≤ 65535) ∧ (leaves.map (·.2)).sum = count))

/-- The plan at every key of a tree lists its subkeys. -/
def KeyTree.Fits (tree : KeyTree ListPlan) : Prop :=
  ∀ node ∈ tree.nodes, node.mark.Fits node.subkeys.length

instance (tree : KeyTree ListPlan) : Decidable tree.Fits :=
  inferInstanceAs (Decidable (∀ node ∈ tree.nodes, node.mark.Fits node.subkeys.length))

namespace HiveWriter

/-- Writes leaves, each of which takes some of the cells. -/
def leaves (writer : HiveWriter) : List (ListShape × Nat) → List UInt32 → List UInt32 × HiveWriter
  | [], _ => ([], writer)
  | leaf :: rest, cells =>
      let first := writer.list leaf.1 (cells.take leaf.2)
      let others := first.writer.leaves rest (cells.drop leaf.2)
      (first.offset :: others.1, others.2)

/-- Writes lists that name cells in the way of a plan. -/
def listBy (writer : HiveWriter) (cells : List UInt32) : ListPlan → Written
  | .leaf shape => writer.list shape cells
  | .index plan =>
      let parts := writer.leaves plan cells
      parts.2.list .indexRoot parts.1

/-- Writes values one after the other. -/
def allValues (writer : HiveWriter) : List WrittenValue → List UInt32 × HiveWriter
  | [] => ([], writer)
  | value :: rest =>
      let first := writer.value value
      let others := first.writer.allValues rest
      (first.offset :: others.1, others.2)

/-- Hangs the keys at these cells under a key. -/
def hangSubkeys (writer : HiveWriter) (key : UInt32) (plan : ListPlan) (cells : List UInt32) :
    HiveWriter :=
  let list := writer.listBy cells plan
  list.writer.setSubkeys key list.offset (UInt32.ofNat cells.length)

/-- Writes values and hangs them under a key. -/
def hangValues (writer : HiveWriter) (key : UInt32) (values : List WrittenValue) : HiveWriter :=
  let cells := writer.allValues values
  cells.2.setValues key cells.1

mutual

/-- Writes everything below a key that has been written to a cell. -/
def fill (writer : HiveWriter) (cell : UInt32) :
    KeyTree ListPlan → KeyTree UInt32 × HiveWriter
  | .node plan name values subkeys =>
      let below := writer.fillAll subkeys
      (.node cell name values below.1,
        (below.2.hangSubkeys cell plan (below.1.map KeyTree.cell)).hangValues cell values)

/-- Writes trees one after the other. -/
def fillAll (writer : HiveWriter) :
    List (KeyTree ListPlan) → List (KeyTree UInt32) × HiveWriter
  | [] => ([], writer)
  | tree :: rest =>
      let key := writer.key tree.name
      let first := key.writer.fill key.offset tree
      let others := first.2.fillAll rest
      (first.1 :: others.1, others.2)

end

/-- Lays a tree out, and marks its keys with their cells. -/
def layOut (tree : KeyTree ListPlan) : KeyTree UInt32 × HiveWriter :=
  let root := HiveWriter.start.rootKey tree.name
  root.writer.fill root.offset tree

section Sizes

theorem size_le_leaves (writer : HiveWriter) (plan : List (ListShape × Nat))
    (cells : List UInt32) :
    writer.bins.size ≤ (writer.leaves plan cells).2.bins.size := by
  induction plan generalizing writer cells with
  | nil => exact Nat.le_refl _
  | cons leaf rest ih =>
      apply Nat.le_trans (size_le_alloc writer (listBody leaf.1 (cells.take leaf.2)))
      exact ih _ _

theorem size_le_listBy (writer : HiveWriter) (cells : List UInt32) (plan : ListPlan) :
    writer.bins.size ≤ (writer.listBy cells plan).writer.bins.size := by
  cases plan with
  | leaf shape => exact size_le_alloc writer _
  | index plan => exact Nat.le_trans (size_le_leaves writer plan cells) (size_le_alloc _ _)

theorem size_allValues (writer : HiveWriter) (values : List WrittenValue) :
    (writer.allValues values).2.bins.size =
      writer.bins.size + (values.map valueSpace).sum := by
  induction values generalizing writer with
  | nil => rfl
  | cons value rest ih =>
      change ((writer.value value).writer.allValues rest).2.bins.size = _
      rw [ih, size_value, List.map_cons, List.sum_cons, Nat.add_assoc]

theorem size_le_allValues (writer : HiveWriter) (values : List WrittenValue) :
    writer.bins.size ≤ (writer.allValues values).2.bins.size := by
  rw [size_allValues]
  exact Nat.le_add_right _ _

theorem size_le_hangSubkeys (writer : HiveWriter) (key : UInt32) (plan : ListPlan)
    (cells : List UInt32) :
    writer.bins.size ≤ (writer.hangSubkeys key plan cells).bins.size :=
  Nat.le_trans (size_le_listBy writer cells plan) (size_le_setSubkeys _ key _ _)

theorem size_le_hangValues (writer : HiveWriter) (key : UInt32) (values : List WrittenValue) :
    writer.bins.size ≤ (writer.hangValues key values).bins.size :=
  Nat.le_trans (size_le_allValues writer values) (size_le_setValues _ key _)

mutual

theorem size_le_fill (writer : HiveWriter) (cell : UInt32) :
    (tree : KeyTree ListPlan) → writer.bins.size ≤ (writer.fill cell tree).2.bins.size
  | .node plan name values subkeys => by
      rw [fill]
      apply Nat.le_trans (size_le_fillAll writer subkeys)
      apply Nat.le_trans (size_le_hangSubkeys _ cell plan _)
      exact size_le_hangValues _ cell values

theorem size_le_fillAll (writer : HiveWriter) :
    (trees : List (KeyTree ListPlan)) → writer.bins.size ≤ (writer.fillAll trees).2.bins.size
  | [] => by rw [fillAll]
  | tree :: rest => by
      rw [fillAll]
      apply Nat.le_trans (size_le_alloc writer _)
      apply Nat.le_trans (size_le_fill _ _ tree)
      exact size_le_fillAll _ rest

end

end Sizes

theorem length_fillAll (writer : HiveWriter) (trees : List (KeyTree ListPlan)) :
    (writer.fillAll trees).1.length = trees.length := by
  induction trees generalizing writer with
  | nil => rfl
  | cons tree rest ih =>
      rw [fillAll]
      exact congrArg (· + 1) (ih _)

end HiveWriter

/-- The space of the lists that a plan asks for. -/
def ListPlan.space : ListPlan → Nat → Nat
  | leaf shape, count => HiveWriter.listSpace shape count
  | index leaves, _ =>
      (leaves.map fun leaf => HiveWriter.listSpace leaf.1 leaf.2).sum +
        HiveWriter.listSpace .indexRoot leaves.length

namespace KeyTree

mutual

/-- The space of a tree. -/
def space : KeyTree ListPlan → Nat
  | node plan name values subkeys =>
      HiveWriter.keySpace name + spaceAll subkeys + plan.space subkeys.length +
        (values.map HiveWriter.valueSpace).sum + HiveWriter.cellSpace (4 * values.length)

/-- The space of trees. -/
def spaceAll : List (KeyTree ListPlan) → Nat
  | [] => 0
  | tree :: rest => tree.space + spaceAll rest

end

end KeyTree

namespace HiveWriter

section Bounds

theorem length_allValues (writer : HiveWriter) (values : List WrittenValue) :
    (writer.allValues values).1.length = values.length := by
  induction values generalizing writer with
  | nil => rfl
  | cons value rest ih => exact congrArg (· + 1) (ih _)

theorem length_leaves (writer : HiveWriter) (plan : List (ListShape × Nat))
    (cells : List UInt32) : (writer.leaves plan cells).1.length = plan.length := by
  induction plan generalizing writer cells with
  | nil => rfl
  | cons leaf rest ih => exact congrArg (· + 1) (ih _ _)

theorem size_leaves_le (writer : HiveWriter) (plan : List (ListShape × Nat))
    (cells : List UInt32) :
    (writer.leaves plan cells).2.bins.size ≤
      writer.bins.size + (plan.map fun leaf => listSpace leaf.1 leaf.2).sum := by
  induction plan generalizing writer cells with
  | nil => exact Nat.le_refl _
  | cons leaf rest ih =>
      have others := ih (writer.list leaf.1 (cells.take leaf.2)).writer (cells.drop leaf.2)
      have taken := listSpace_mono leaf.1 (List.length_take_le leaf.2 cells)
      rw [size_list] at others
      rw [List.map_cons, List.sum_cons]
      change (((writer.list _ _).writer).leaves rest _).2.bins.size ≤ _
      omega

theorem size_listBy_le (writer : HiveWriter) (cells : List UInt32) (plan : ListPlan) :
    (writer.listBy cells plan).writer.bins.size ≤
      writer.bins.size + plan.space cells.length := by
  cases plan with
  | leaf shape => exact (size_list writer shape cells).le
  | index plan =>
      have leaves := size_leaves_le writer plan cells
      change ((writer.leaves plan cells).2.list _ _).writer.bins.size ≤ _
      rw [size_list, length_leaves, ListPlan.space]
      omega

variable {writer : HiveWriter} {cell : UInt32}

theorem size_hangSubkeys_le (inside : cell.toNat + 0x50 ≤ writer.bins.size) (plan : ListPlan)
    (cells : List UInt32) :
    (writer.hangSubkeys cell plan cells).bins.size ≤
      writer.bins.size + plan.space cells.length := by
  have grown := size_le_listBy writer cells plan
  simp only [hangSubkeys, setSubkeys]
  rw [size_patch_key (by omega) _ _ (by decide) (by decide)]
  exact size_listBy_le writer cells plan

theorem size_hangValues_le (inside : cell.toNat + 0x50 ≤ writer.bins.size)
    (values : List WrittenValue) :
    (writer.hangValues cell values).bins.size ≤
      writer.bins.size + (values.map valueSpace).sum + cellSpace (4 * values.length) := by
  have grown := size_le_allValues writer values
  have room := size_le_alloc (writer.allValues values).2
    (offsetsBody (writer.allValues values).1)
  simp only [hangValues, setValues]
  rw [size_patch_key (by omega) _ _ (by decide) (by decide), size_bins_alloc, size_offsetsBody,
    length_allValues, size_allValues]

mutual

/-- What is written below a key takes no more than its space. -/
theorem size_fill_le (writer : HiveWriter) (cell : UInt32) : (tree : KeyTree ListPlan) →
    cell.toNat + 0x50 ≤ writer.bins.size →
    (writer.fill cell tree).2.bins.size + keySpace tree.name ≤ writer.bins.size + tree.space
  | .node plan name values subkeys, inside => by
      have grown := size_le_fillAll writer subkeys
      have below := size_fillAll_le writer subkeys
      have cells : ((writer.fillAll subkeys).1.map KeyTree.cell).length = subkeys.length := by
        rw [List.length_map, length_fillAll]
      have lists := size_le_hangSubkeys (writer.fillAll subkeys).2 cell plan
        ((writer.fillAll subkeys).1.map KeyTree.cell)
      have named := size_hangSubkeys_le (Nat.le_trans inside grown) plan
        ((writer.fillAll subkeys).1.map KeyTree.cell)
      have valued := size_hangValues_le (Nat.le_trans inside (Nat.le_trans grown lists)) values
      rw [cells] at named
      rw [fill, KeyTree.space, KeyTree.name]
      simp only
      omega

theorem size_fillAll_le (writer : HiveWriter) : (trees : List (KeyTree ListPlan)) →
    (writer.fillAll trees).2.bins.size ≤ writer.bins.size + KeyTree.spaceAll trees
  | [] => by rw [fillAll, KeyTree.spaceAll, Nat.add_zero]
  | tree :: rest => by
      have key := size_key writer tree.name
      have first := size_fill_le (writer.key tree.name).writer (writer.key tree.name).offset tree
        (offset_alloc_keyBody_le writer 0x0020 tree.name)
      have others := size_fillAll_le
        ((writer.key tree.name).writer.fill (writer.key tree.name).offset tree).2 rest
      rw [fillAll, KeyTree.spaceAll]
      simp only
      omega

end

/-- A tree that is laid out takes its space behind the header of the bin. -/
theorem size_layOut_le (tree : KeyTree ListPlan) :
    (layOut tree).2.bins.size ≤ binHeaderSize + tree.space := by
  have header := size_start
  have key := size_rootKey .start tree.name
  have below := size_fill_le (HiveWriter.start.rootKey tree.name).writer
    (HiveWriter.start.rootKey tree.name).offset tree
    (offset_rootKey_le .start tree.name)
  simp only [layOut]
  omega

end Bounds

section SameTree

open KeyTree

@[simp] theorem root_alloc (writer : HiveWriter) (body : ByteArray) :
    (writer.alloc body).writer.root = writer.root := rfl

@[simp] theorem root_patch (writer : HiveWriter) (cell : UInt32) (field : Nat)
    (bytes : ByteArray) : (writer.patch cell field bytes).root = writer.root := rfl

theorem root_allocAll (writer : HiveWriter) (bodies : List ByteArray) :
    (writer.allocAll bodies).2.root = writer.root := by
  induction bodies generalizing writer with
  | nil => rfl
  | cons body rest ih => exact (ih _).trans (root_alloc writer body)

theorem root_leaves (writer : HiveWriter) (plan : List (ListShape × Nat)) (cells : List UInt32) :
    (writer.leaves plan cells).2.root = writer.root := by
  induction plan generalizing writer cells with
  | nil => rfl
  | cons leaf rest ih => exact (ih _ _).trans (root_alloc writer _)

theorem root_hangSubkeys (writer : HiveWriter) (cell : UInt32) (plan : ListPlan)
    (cells : List UInt32) : (writer.hangSubkeys cell plan cells).root = writer.root := by
  cases plan with
  | leaf shape => simp only [hangSubkeys, setSubkeys, listBy, list, root_patch, root_alloc]
  | index plan =>
      simp only [hangSubkeys, setSubkeys, listBy, list, root_patch, root_alloc, root_leaves]

theorem root_bigData (writer : HiveWriter) (payload : ByteArray) :
    (writer.bigData payload).writer.root = writer.root := by
  simp only [bigData]
  rw [root_alloc, root_alloc, root_allocAll]

theorem root_payload (writer : HiveWriter) (payload : ByteArray) :
    (writer.payload payload).2.root = writer.root := by
  obtain ⟨-, written⟩ | ⟨-, -, written⟩ | ⟨-, written⟩ := payload_cases writer payload
  · rw [written]
  · rw [written, root_alloc]
  · rw [written]
    exact root_bigData writer payload

theorem root_allValues (writer : HiveWriter) (values : List WrittenValue) :
    (writer.allValues values).2.root = writer.root := by
  induction values generalizing writer with
  | nil => rfl
  | cons value rest ih => exact (ih _).trans (root_payload writer value.payload)

theorem root_hangValues (writer : HiveWriter) (cell : UInt32) (values : List WrittenValue) :
    (writer.hangValues cell values).root = writer.root := by
  simp only [hangValues, setValues, root_patch, root_alloc, root_allValues]

mutual

/-- Filling a key leaves the root where it is. -/
theorem root_fill (writer : HiveWriter) (cell : UInt32) :
    (tree : KeyTree ListPlan) → (writer.fill cell tree).2.root = writer.root
  | .node plan name values subkeys => by
      rw [fill, root_hangValues, root_hangSubkeys]
      exact root_fillAll writer subkeys

theorem root_fillAll (writer : HiveWriter) :
    (trees : List (KeyTree ListPlan)) → (writer.fillAll trees).2.root = writer.root
  | [] => by rw [fillAll]
  | tree :: rest => by
      rw [fillAll]
      simp only
      rw [root_fillAll _ rest, root_fill _ _ tree]
      rfl

end

theorem name_fill (writer : HiveWriter) (cell : UInt32) (tree : KeyTree ListPlan) :
    (writer.fill cell tree).1.name = tree.name := by
  cases tree
  rfl

theorem map_name_fillAll (writer : HiveWriter) (trees : List (KeyTree ListPlan)) :
    (writer.fillAll trees).1.map name = trees.map name := by
  induction trees generalizing writer with
  | nil => rfl
  | cons tree rest ih =>
      rw [fillAll, List.map_cons, List.map_cons, ih, name_fill]

theorem names_layOut (tree : KeyTree ListPlan) :
    (layOut tree).1.name = tree.name ∧
      (layOut tree).1.subkeys.map name = tree.subkeys.map name := by
  refine ⟨name_fill _ _ tree, ?_⟩
  cases tree
  exact map_name_fillAll _ _

mutual

/-- The keys that should be read are those of the tree that was laid out. -/
theorem located_fill (relative path : String) (writer : HiveWriter) (cell : UInt32) :
    (tree : KeyTree ListPlan) →
    (writer.fill cell tree).1.located relative path = tree.located relative path
  | .node plan name values subkeys => by
      rw [fill, located, located, locatedAll_fillAll relative path writer subkeys]
      simp only [KeyTree.key, KeyTree.name, KeyTree.subkeys, KeyTree.values, map_name_fillAll]

theorem locatedAll_fillAll (relative path : String) (writer : HiveWriter) :
    (trees : List (KeyTree ListPlan)) →
    locatedAll relative path (writer.fillAll trees).1 = locatedAll relative path trees
  | [] => rfl
  | tree :: rest => by
      rw [fillAll, locatedAll, locatedAll, name_fill, located_fill, locatedAll_fillAll]

end

/-- A tree is valid when its uppermost key is and the trees below it are. -/
theorem valid_node {α : Type} {mark : α} {name : String} {values : List WrittenValue}
    {subkeys : List (KeyTree α)} :
    (node mark name values subkeys).Valid ↔
      (IsKeyName name ∧ (∀ value ∈ values, value.Valid) ∧
        subkeys.Pairwise fun a b => a.name.toLower ≠ b.name.toLower) ∧
      ∀ tree ∈ subkeys, tree.Valid := by
  constructor
  · intro valid
    refine ⟨valid _ (node mark name values subkeys).mem_nodes_self, ?_⟩
    intro tree listed other member
    apply valid
    rw [nodes]
    exact List.mem_cons_of_mem _ (mem_nodesAll listed member)
  · rintro ⟨here, below⟩ other member
    rw [nodes, List.mem_cons] at member
    rcases member with rfl | member
    · exact here
    · obtain ⟨tree, listed, member⟩ := mem_nodesAll_iff.mp member
      exact below tree listed other member

mutual

theorem valid_fill (writer : HiveWriter) (cell : UInt32) :
    (tree : KeyTree ListPlan) → tree.Valid → (writer.fill cell tree).1.Valid
  | .node plan name values subkeys, valid => by
      obtain ⟨⟨here, each, different⟩, below⟩ := valid_node.mp valid
      rw [fill]
      apply valid_node.mpr
      refine ⟨⟨here, each, ?_⟩, valid_fillAll writer subkeys below⟩
      have named : ((writer.fillAll subkeys).1.map KeyTree.name).Pairwise fun a b =>
          a.toLower ≠ b.toLower := by
        rw [map_name_fillAll]
        exact (List.pairwise_map (f := KeyTree.name) (R := fun a b => a.toLower ≠ b.toLower)).mpr
          different
      exact (List.pairwise_map (f := KeyTree.name)).mp named

theorem valid_fillAll (writer : HiveWriter) : (trees : List (KeyTree ListPlan)) →
    (∀ tree ∈ trees, tree.Valid) → ∀ tree ∈ (writer.fillAll trees).1, tree.Valid
  | [], _ => by
      intro tree listed
      exact absurd listed List.not_mem_nil
  | tree :: rest, valid => by
      intro laid listed
      rw [fillAll, List.mem_cons] at listed
      rcases listed with rfl | listed
      · exact valid_fill _ _ tree (valid tree List.mem_cons_self)
      · apply valid_fillAll _ rest ?_ laid listed
        intro other member
        exact valid other (List.mem_cons_of_mem tree member)

end

/-- Laying a tree out changes none of its keys. -/
theorem allKeys_layOut (tree : KeyTree ListPlan) : (layOut tree).1.allKeys = tree.allKeys := by
  rw [layOut, KeyTree.allKeys, located_fill, name_fill, KeyTree.allKeys]

theorem valid_layOut {tree : KeyTree ListPlan} (valid : tree.Valid) : (layOut tree).1.Valid :=
  valid_fill _ _ tree valid

end SameTree

end HiveWriter

end RegistryHive
