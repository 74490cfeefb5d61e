import Mathlib.Data.List.Pairwise
import RegistryHive.Proofs.Writing.Reading

/-!
# Reading undoes writing

A tree that has been laid out by a run of a writer is read back from the finished
file. Every key of the tree is read at its own cell (`ReadsTree`), its cells are
the only ones that can be reached, and sibling names differ, so the traversal is
plain recursion from cell to cell. Since no cell occurs twice in the tree, the
recursion never passes over a key, and it hands out the keys of the tree in
pre-order; and the path of each key leads to its cell, one name after the other.
-/

namespace RegistryHive

namespace KeyTree

variable {α : Type}

theorem mem_nodes_self (tree : KeyTree α) : tree ∈ tree.nodes := by
  obtain ⟨cell, name, values, subkeys⟩ := tree
  rw [nodes]
  exact List.mem_cons_self

theorem mem_nodesAll_iff {trees : List (KeyTree α)} {node : KeyTree α} :
    node ∈ nodesAll trees ↔ ∃ tree ∈ trees, node ∈ tree.nodes := by
  induction trees with
  | nil => simp [nodesAll]
  | cons first rest ih => simp [nodesAll, ih]

theorem mem_nodesAll {trees : List (KeyTree α)} {tree node : KeyTree α} (listed : tree ∈ trees)
    (member : node ∈ tree.nodes) : node ∈ nodesAll trees :=
  mem_nodesAll_iff.mpr ⟨tree, listed, member⟩

mutual

/-- The subkeys of the keys of a tree are keys of the tree. -/
theorem subkey_mem_nodes {node subkey : KeyTree α} (below : subkey ∈ node.subkeys) :
    (tree : KeyTree α) → node ∈ tree.nodes → subkey ∈ tree.nodes
  | .node cell name values subkeys, member => by
      rw [nodes, List.mem_cons] at member ⊢
      rcases member with rfl | member
      · exact .inr (mem_nodesAll below subkey.mem_nodes_self)
      · exact .inr (subkey_mem_nodesAll below subkeys member)

theorem subkey_mem_nodesAll {node subkey : KeyTree α} (below : subkey ∈ node.subkeys) :
    (trees : List (KeyTree α)) → node ∈ nodesAll trees → subkey ∈ nodesAll trees
  | [], member => absurd member List.not_mem_nil
  | tree :: rest, member => by
      rw [nodesAll, List.mem_append] at member ⊢
      rcases member with member | member
      · exact .inl (subkey_mem_nodes below tree member)
      · exact .inr (subkey_mem_nodesAll below rest member)

end

end KeyTree

/-- Every key of a tree is read at its own cell. -/
structure ReadsTree (image : HiveImage) (tree : KeyTree UInt32) : Prop where
  root_eq : image.baseBlock.rootOffset = tree.cell
  distinct : (tree.nodes.map KeyTree.cell).Nodup
  valid : tree.Valid
  reads : ∀ node ∈ tree.nodes, ∃ keyNode, ReadsKey image node keyNode

/-- Every key of a tree that has been laid out is read at its own cell. -/
theorem HiveWriter.Run.readsKeys {writer : HiveWriter} {contents : Contents}
    {tree : KeyTree UInt32} (run : Run writer contents) (laid : contents.LaysOut writer.root tree)
    (stored : ∀ node ∈ tree.nodes,
      IsStoredName node.name ∧ ∀ value ∈ node.values, value.Valid)
    (small : writer.bins.size < 2 ^ 31) :
    ∀ node ∈ tree.nodes, ∃ keyNode, ReadsKey writer.image node keyNode := by
  intro node member
  obtain ⟨name, values⟩ := stored node member
  apply (run.shows small).readsKey (laid.written node member) name values
  intro subkey below
  have inTree := KeyTree.subkey_mem_nodes below tree member
  exact ⟨laid.written subkey inTree, (stored subkey inTree).1⟩

/-- A tree that has been laid out is read from the image of the finished file. -/
theorem HiveWriter.Run.readsTree {writer : HiveWriter} {contents : Contents} {tree : KeyTree UInt32}
    (run : Run writer contents) (laid : contents.LaysOut writer.root tree) (valid : tree.Valid)
    (small : writer.bins.size < 2 ^ 31) : ReadsTree writer.image tree where
  root_eq := (rootOffset_image writer).trans laid.root_eq.symm
  distinct := laid.distinct
  valid := valid
  reads := by
    apply run.readsKeys laid ?_ small
    intro node member
    obtain ⟨name, values, -⟩ := valid node member
    exact ⟨name.isStoredName, values⟩

/-- Only the cells of a tree can be reached when its keys are read and its uppermost one is the
root. -/
theorem exists_node_of_reachable {image : HiveImage} {tree : KeyTree UInt32}
    (root_eq : image.baseBlock.rootOffset = tree.cell)
    (reads : ∀ node ∈ tree.nodes, ∃ keyNode, ReadsKey image node keyNode) {offset : UInt32}
    (reachable : image.Reachable offset) : ∃ node ∈ tree.nodes, node.cell = offset := by
  induction reachable with
  | root readable => exact ⟨tree, tree.mem_nodes_self, root_eq.symm⟩
  | @subkey offset keyNode child above readable listed ih =>
      obtain ⟨node, member, rfl⟩ := ih
      obtain ⟨keyNode', reads'⟩ := reads node member
      obtain rfl := Option.some.inj (readable.symm.trans reads'.readable)
      rw [reads'.subkeys] at listed
      obtain ⟨subkey, below, rfl⟩ := List.mem_map.mp listed
      exact ⟨subkey, KeyTree.subkey_mem_nodes below tree member, rfl⟩

namespace ReadsTree

variable {image : HiveImage} {tree : KeyTree UInt32}

theorem wellNamed (reads : ReadsTree image tree) : image.WellNamed := by
  intro offset keyNode reachable readable child listed
  obtain ⟨node, member, rfl⟩ := exists_node_of_reachable reads.root_eq reads.reads reachable
  obtain ⟨keyNode', reads'⟩ := reads.reads node member
  obtain rfl := Option.some.inj (readable.symm.trans reads'.readable)
  obtain ⟨-, -, different⟩ := reads.valid node member
  rw [reads'.subkeys] at listed ⊢
  obtain ⟨subkey, below, rfl⟩ := List.mem_map.mp listed
  have name := (reads.valid subkey (KeyTree.subkey_mem_nodes below tree member)).1
  refine ⟨name.nonempty, name.separator_not_mem, fun other listed' same => ?_⟩
  obtain ⟨subkey', below', rfl⟩ := List.mem_map.mp listed'
  have name' := (reads.valid subkey' (KeyTree.subkey_mem_nodes below' tree member)).1
  by_contra apart
  have distinct : subkey' ≠ subkey := fun equal => apart (by rw [equal])
  have symmetric : Std.Symm fun a b : KeyTree UInt32 => a.name.toLower ≠ b.name.toLower :=
    ⟨fun _ _ h => h.symm⟩
  exact different.forall below' below distinct ((name'.sameName_iff name).mp same)

end ReadsTree

section Visit

variable {image : HiveImage}

open KeyTree

/-- A key that is read as it was written is handed out as it was written. -/
theorem ReadsKey.keyOf_eq {tree : KeyTree UInt32} {node : KeyNode}
    (reads : ReadsKey image tree node) (path : String) :
    image.keyOf { offset := tree.cell, node := node, path := path } = tree.key path := by
  rw [HiveImage.keyOf, HiveImage.subkeyNames_eq, reads.subkeys, reads.values,
    KeyNode.lastWrittenTime, reads.lastWritten, reads.name, List.map_map]
  rfl

mutual

/-- Plain recursion hands out the keys of a tree whose cells it has not visited, and it visits
these cells and no others. -/
theorem visit_tree (relative path : String) :
    (tree : KeyTree UInt32) → (visited : OffsetSet) →
    (∀ node ∈ tree.nodes, ∃ keyNode, ReadsKey image node keyNode) →
    (tree.nodes.map cell).Nodup → (∀ node ∈ tree.nodes, node.cell ∉ visited) →
    (HiveImage.visit image visited tree.cell path).keys.map image.keyOf =
        (tree.located relative path).map (·.key) ∧
      ∀ offset, offset ∈ (HiveImage.visit image visited tree.cell path).after ↔
        offset ∈ visited ∨ offset ∈ tree.nodes.map cell
  | .node here name values subkeys, visited, reads, distinct, fresh => by
      have self := (node here name values subkeys).mem_nodes_self
      obtain ⟨keyNode, read⟩ := reads _ self
      have targets : (image.subkeysOf keyNode).map (fun child =>
          (child.offset, KeyPath.append path child.name)) =
          subkeys.map fun tree => (tree.cell, KeyPath.append path tree.name) := by
        rw [read.subkeys, List.map_map]
        rfl
      rw [nodes, List.map_cons, List.nodup_cons] at distinct
      obtain ⟨alone, distinct⟩ := distinct
      rw [nodes] at reads fresh
      have fresh' : ∀ node ∈ nodesAll subkeys, node.cell ∉ visited.insert here := by
        intro node member visitedNode
        rcases Std.HashSet.mem_insert.mp visitedNode with same | before
        · exact alone (List.mem_map.mpr ⟨node, member, (eq_of_beq same).symm⟩)
        · exact fresh node (List.mem_cons_of_mem _ member) before
      obtain ⟨keys, after⟩ := visitAll_trees relative path subkeys (visited.insert here)
        (fun node member => reads node (List.mem_cons_of_mem _ member)) distinct fresh'
      have new : here ∉ visited := fresh _ List.mem_cons_self
      constructor
      · change (HiveImage.visit image visited here path).keys.map image.keyOf = _
        rw [HiveImage.keys_visit_of_not_mem new read.readable, targets, List.map_cons, keys,
          located, List.map_cons]
        exact congrArg (· :: _) (read.keyOf_eq path)
      · intro offset
        change offset ∈ (HiveImage.visit image visited here path).after ↔ _
        rw [HiveImage.after_visit_of_not_mem new read.readable, targets, after, nodes,
          List.map_cons, List.mem_cons, Std.HashSet.mem_insert, beq_iff_eq]
        change (here = offset ∨ _) ∨ _ ↔ _ ∨ offset = here ∨ _
        rw [eq_comm (a := here), or_assoc, or_left_comm]

theorem visitAll_trees (relative path : String) :
    (trees : List (KeyTree UInt32)) → (visited : OffsetSet) →
    (∀ node ∈ nodesAll trees, ∃ keyNode, ReadsKey image node keyNode) →
    ((nodesAll trees).map cell).Nodup → (∀ node ∈ nodesAll trees, node.cell ∉ visited) →
    (HiveImage.visitAll image visited
        (trees.map fun tree => (tree.cell, KeyPath.append path tree.name))).keys.map image.keyOf =
        (locatedAll relative path trees).map (·.key) ∧
      ∀ offset, offset ∈ (HiveImage.visitAll image visited
          (trees.map fun tree => (tree.cell, KeyPath.append path tree.name))).after ↔
        offset ∈ visited ∨ offset ∈ (nodesAll trees).map cell
  | [], visited, _, _, _ => by
      rw [List.map_nil, HiveImage.keys_visitAll_nil, HiveImage.after_visitAll_nil, locatedAll,
        nodesAll]
      simp
  | tree :: rest, visited, reads, distinct, fresh => by
      rw [nodesAll] at reads distinct fresh
      rw [List.map_append, List.nodup_append] at distinct
      obtain ⟨distinct, distinctRest, apart⟩ := distinct
      obtain ⟨keys, after⟩ := visit_tree (KeyPath.child relative tree.name)
        (KeyPath.append path tree.name) tree visited
        (fun node member => reads node (List.mem_append_left _ member)) distinct
        (fun node member => fresh node (List.mem_append_left _ member))
      have freshRest : ∀ node ∈ nodesAll rest,
          node.cell ∉ (HiveImage.visit image visited tree.cell
            (KeyPath.append path tree.name)).after := by
        intro node member visitedNode
        rcases (after node.cell).mp visitedNode with before | inTree
        · exact fresh node (List.mem_append_right _ member) before
        · exact apart _ inTree _ (List.mem_map_of_mem member) rfl
      obtain ⟨keysRest, afterRest⟩ := visitAll_trees relative path rest _
        (fun node member => reads node (List.mem_append_right _ member)) distinctRest freshRest
      constructor
      · rw [List.map_cons, HiveImage.keys_visitAll_cons, List.map_append, keys, keysRest,
          locatedAll, List.map_append]
      · intro offset
        rw [List.map_cons, HiveImage.after_visitAll_cons, afterRest, after, nodesAll,
          List.map_append, List.mem_append, or_assoc]

end

end Visit

section Resolve

variable {image : HiveImage}

open KeyTree

mutual

/-- Where a path leads to the uppermost key of a tree, the paths of all its keys lead to them. -/
theorem resolve_located (wellNamed : image.WellNamed) (relative path : String) :
    (tree : KeyTree UInt32) → (keyNode : KeyNode) →
    (∀ node ∈ tree.nodes, ∃ keyNode, ReadsKey image node keyNode) →
    image.Reachable tree.cell → ReadsKey image tree keyNode →
    image.resolve (KeyPath.components relative) =
      some { offset := tree.cell, node := keyNode, path := path } →
    ∀ entry ∈ tree.located relative path, ∃ found,
      image.resolve (KeyPath.components entry.relative) = some found ∧
        image.keyOf found = entry.key
  | .node here name values subkeys, keyNode, reads, reachable, read, leads => by
      intro entry member
      rw [located, List.mem_cons] at member
      rcases member with rfl | below
      · exact ⟨_, leads, read.keyOf_eq path⟩
      · rw [nodes] at reads
        refine resolve_locatedAll wellNamed relative path subkeys
          (fun node member => reads node (List.mem_cons_of_mem _ member)) ?_ entry below
        -- Every subkey is found by its name below the key that the path leads to.
        intro subkey listed
        have child : ({ name := subkey.name, offset := subkey.cell } : ChildKey) ∈
            image.subkeysOf keyNode := by
          rw [read.subkeys]
          exact List.mem_map_of_mem listed
        let parent : FoundKey := { offset := here, node := keyNode, path := path }
        have above : image.Reachable parent.offset := reachable
        obtain ⟨node, readable, found⟩ := descend_of_wellNamed wellNamed above read.readable child
        refine ⟨.subkey reachable read.readable child, node, readable, ?_⟩
        rw [KeyPath.components_child, HiveImage.resolve_append, leads]
        exact found

theorem resolve_locatedAll (wellNamed : image.WellNamed) (relative path : String) :
    (trees : List (KeyTree UInt32)) →
    (∀ node ∈ nodesAll trees, ∃ keyNode, ReadsKey image node keyNode) →
    (∀ tree ∈ trees, image.Reachable tree.cell ∧ ∃ keyNode,
      image.keyNode? tree.cell = some keyNode ∧
      image.resolve (KeyPath.components (KeyPath.child relative tree.name)) =
        some { offset := tree.cell, node := keyNode, path := KeyPath.append path tree.name }) →
    ∀ entry ∈ locatedAll relative path trees, ∃ found,
      image.resolve (KeyPath.components entry.relative) = some found ∧
        image.keyOf found = entry.key
  | [], _, _ => by
      intro entry member
      rw [locatedAll] at member
      exact absurd member List.not_mem_nil
  | tree :: rest, reads, leads => by
      intro entry member
      rw [locatedAll, List.mem_append] at member
      rw [nodesAll] at reads
      rcases member with first | later
      · obtain ⟨reachable, keyNode, readable, found⟩ := leads tree List.mem_cons_self
        have reads' : ∀ node ∈ tree.nodes, ∃ keyNode, ReadsKey image node keyNode :=
          fun node member => reads node (List.mem_append_left _ member)
        obtain ⟨keyNode', read⟩ := reads' tree tree.mem_nodes_self
        obtain rfl := Option.some.inj (readable.symm.trans read.readable)
        exact resolve_located wellNamed _ _ tree keyNode reads' reachable read found entry first
      · exact resolve_locatedAll wellNamed relative path rest
          (fun node member => reads node (List.mem_append_right _ member))
          (fun other listed => leads other (List.mem_cons_of_mem tree listed)) entry later

end

end Resolve

namespace ReadsTree

variable {image : HiveImage} {tree : KeyTree UInt32}

theorem root?_eq (reads : ReadsTree image tree) {keyNode : KeyNode}
    (read : ReadsKey image tree keyNode) :
    image.root? = some { offset := tree.cell, node := keyNode, path := tree.name } := by
  rw [HiveImage.root?, reads.root_eq, read.readable, Option.map_some, read.name]

/-- The traversal hands out the keys of the tree in pre-order. -/
theorem visitedKeys_eq (reads : ReadsTree image tree) :
    image.visitedKeys.map image.keyOf = tree.allKeys.map (·.key) := by
  obtain ⟨keyNode, read⟩ := reads.reads tree tree.mem_nodes_self
  rw [visitedKeys_eq_preorder reads.wellNamed, HiveImage.preorder, reads.root?_eq read]
  exact (visit_tree "" tree.name tree ∅ reads.reads reads.distinct
    fun node _ => Std.HashSet.not_mem_empty).1

/-- The path of every key relative to the root leads to this key. -/
theorem find?_eq (reads : ReadsTree image tree) {entry : LocatedKey}
    (member : entry ∈ tree.allKeys) :
    (image.find? entry.relative).map image.keyOf = some entry.key := by
  obtain ⟨keyNode, read⟩ := reads.reads tree tree.mem_nodes_self
  have root := reads.root?_eq read
  have reachable : image.Reachable tree.cell := by
    have readable := read.readable
    rw [← reads.root_eq] at readable ⊢
    exact .root readable
  have leads : image.resolve (KeyPath.components "") =
      some { offset := tree.cell, node := keyNode, path := tree.name } := by
    rw [KeyPath.components_empty, HiveImage.resolve, root]
    rfl
  obtain ⟨found, resolved, same⟩ := resolve_located reads.wellNamed "" tree.name tree keyNode
    reads.reads reachable read leads entry member
  rw [HiveImage.find?, resolved]
  exact congrArg some same

end ReadsTree

/-- The hive that is loaded from the finished file. -/
def HiveWriter.hive (writer : HiveWriter) : Hive where
  image := writer.image
  replay := .zero

theorem HiveWriter.hive_ofBytes_build (writer : HiveWriter) :
    Hive.ofBytes writer.build = .ok writer.hive := by
  rw [Hive.ofBytes, ofBytes_build]
  rfl

/-- The finished file is loaded, and its keys are those of the tree. -/
theorem ReadsTree.exists_hive {writer : HiveWriter} {tree : KeyTree UInt32}
    (reads : ReadsTree writer.image tree) :
    ∃ hive, Hive.ofBytes writer.build = .ok hive ∧
      hive.keys = tree.allKeys.map (·.key) ∧
      ∀ entry ∈ tree.allKeys, hive.key? entry.relative = some entry.key := by
  refine ⟨writer.hive, writer.hive_ofBytes_build, reads.visitedKeys_eq, ?_⟩
  intro entry member
  exact reads.find?_eq member

end RegistryHive
