import RegistryHive.Key
import RegistryHive.KeyPath
import RegistryHive.Proofs.Writing.Run

/-!
# Registry trees that have been written

A tree whose keys are marked with cells is laid out by a run of a writer when
every key has been written to its own cell, and the lists that were hung under it
name the cells of its subkeys and of its values (`Contents.LaysOut`). The order of
the calls, the shapes of the lists and the way in which an index root cuts the
subkeys into leaves are left to the run.

`KeyTree.located` gives the keys of a tree as they should be read, in pre-order,
each with its path relative to the root; the marks play no part in it.
-/

namespace RegistryHive

/-- A tree of keys with a mark at every key. -/
inductive KeyTree (α : Type)
  | node (mark : α) (name : String) (values : List WrittenValue) (subkeys : List (KeyTree α))

/-- The value as it should be read. -/
def WrittenValue.value (value : WrittenValue) : Value where
  name := value.name
  type := .ofCode value.code
  data := .decode value.payload (.ofCode value.code)

/-- A value that can be written: a payload of more than 65535 segments cannot be counted. -/
@[mk_iff]
structure WrittenValue.Valid (value : WrittenValue) : Prop where
  name : IsValueName value.name
  size_le : value.payload.size ≤ 65535 * segmentLimit

instance (value : WrittenValue) : Decidable value.Valid :=
  decidable_of_iff' _ (WrittenValue.valid_iff value)

/-- A key and its path relative to the root. -/
structure LocatedKey where
  relative : String
  key : Key

namespace KeyTree

section Keys

variable {α : Type}

/-- The mark of the uppermost key. -/
def mark : KeyTree α → α
  | node mark _ _ _ => mark

/-- The name of the uppermost key. -/
def name : KeyTree α → String
  | node _ name _ _ => name

/-- The values of the uppermost key. -/
def values : KeyTree α → List WrittenValue
  | node _ _ values _ => values

/-- The trees below the uppermost key. -/
def subkeys : KeyTree α → List (KeyTree α)
  | node _ _ _ subkeys => subkeys

/-- The uppermost key as it should be read under a path. -/
def key (tree : KeyTree α) (path : String) : Key where
  name := tree.name
  path := path
  lastModified := .ofFiletime writtenTime
  subkeyNames := tree.subkeys.map name
  values := tree.values.map WrittenValue.value

mutual

/-- The tree and all trees below it, in pre-order. -/
def nodes : KeyTree α → List (KeyTree α)
  | node mark name values subkeys => node mark name values subkeys :: nodesAll subkeys

/-- All trees in a list of trees, in pre-order. -/
def nodesAll : List (KeyTree α) → List (KeyTree α)
  | [] => []
  | tree :: rest => tree.nodes ++ nodesAll rest

end

mutual

/-- All keys of a tree, in pre-order, when the uppermost key has these paths. -/
def located (relative path : String) : KeyTree α → List LocatedKey
  | node mark name values subkeys =>
      { relative := relative, key := (node mark name values subkeys).key path } ::
        locatedAll relative path subkeys

/-- All keys of the trees below a key with these paths. -/
def locatedAll (relative path : String) : List (KeyTree α) → List LocatedKey
  | [] => []
  | tree :: rest =>
      tree.located (KeyPath.child relative tree.name) (KeyPath.append path tree.name) ++
        locatedAll relative path rest

end

/-- All keys of a tree whose uppermost key is the root, in pre-order. -/
def allKeys (tree : KeyTree α) : List LocatedKey := tree.located "" tree.name

/-- The names and the values of a tree can be written, and the names of the subkeys of a key
differ in more than the case of letters. -/
def Valid (tree : KeyTree α) : Prop :=
  ∀ node ∈ tree.nodes, IsKeyName node.name ∧ (∀ value ∈ node.values, value.Valid) ∧
    node.subkeys.Pairwise fun a b => a.name.toLower ≠ b.name.toLower

instance (tree : KeyTree α) : Decidable tree.Valid :=
  inferInstanceAs (Decidable (∀ node ∈ tree.nodes,
    IsKeyName node.name ∧ (∀ value ∈ node.values, value.Valid) ∧
      node.subkeys.Pairwise fun a b => a.name.toLower ≠ b.name.toLower))

end Keys

/-- The cell of the uppermost key of a tree that is marked with cells. -/
def cell (tree : KeyTree UInt32) : UInt32 := tree.mark

end KeyTree

namespace Contents

variable (contents : Contents)

/-- A leaf was written that names these cells. A header counts up to 65535 slots. -/
def HasLeaf (leaf : UInt32) (cells : List UInt32) : Prop :=
  ∃ shape, shape ≠ .indexRoot ∧ contents leaf = some (.list shape cells) ∧ cells.length ≤ 65535

/-- A leaf, or an index root over leaves, was written that names these cells. -/
inductive HasList (list : UInt32) : List UInt32 → Prop
  | leaf {cells : List UInt32} (written : contents.HasLeaf list cells) : HasList list cells
  | index {leaves : List UInt32} {parts : List (List UInt32)}
      (written : contents list = some (.list .indexRoot leaves)) (few : leaves.length ≤ 65535)
      (distinct : leaves.Nodup) (each : List.Forall₂ contents.HasLeaf leaves parts) :
      HasList list parts.flatten

/-- The list that hangs under a key names these cells of subkeys. -/
def HasSubkeys (record : KeyRecord) (cells : List UInt32) : Prop :=
  cells = [] ∧ record.subkeyCount = 0 ∨
    record.subkeyCount = UInt32.ofNat cells.length ∧ contents.HasList record.subkeyList cells

/-- The list that hangs under a key names cells to which these values were written. -/
def HasValues (record : KeyRecord) (values : List WrittenValue) : Prop :=
  values = [] ∧ record.valueCount = 0 ∨
    record.valueCount = UInt32.ofNat values.length ∧
      ∃ cells, contents record.valueList = some (.valueList cells) ∧
        List.Forall₂ (fun cell value => contents cell = some (.value value)) cells values

/-- The uppermost key of a tree was written to its cell, with its subkeys and its values. -/
def HasKey (tree : KeyTree UInt32) : Prop :=
  ∃ record, contents tree.cell = some (.key record) ∧ record.name = tree.name ∧
    contents.HasSubkeys record (tree.subkeys.map KeyTree.cell) ∧
    contents.HasValues record tree.values

/-- All keys of a tree were written, each to a cell of its own, the uppermost one to the cell of
the root. -/
structure LaysOut (root : UInt32) (tree : KeyTree UInt32) : Prop where
  root_eq : tree.cell = root
  distinct : (tree.nodes.map KeyTree.cell).Nodup
  written : ∀ node ∈ tree.nodes, contents.HasKey node

end Contents

end RegistryHive
