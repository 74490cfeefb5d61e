import RegistryHive.Proofs.Traversal.Visible
import RegistryHive.Proofs.Writing.ReadBack

/-!
# Looking up the paths of keys

The path of a key begins with the name of the root, but a path that is looked up is
relative to the root in the first place. The name of the root is passed over only if
the whole path leads nowhere. So the path of a key leads back to the key unless it is
the relative path of another one, and that is so for some key exactly if a subkey of
the root bears the name of the root (`Hive.key?_path`).

The stored names on the way to a key are what ties its path to its place:
`exists_stored_of_descend` reads them off the path and finds the key again with them.
-/

namespace RegistryHive

namespace HiveImage

/-- The names of all reachable keys are components of paths. -/
def NamedByComponents (image : HiveImage) : Prop :=
  ∀ offset node, image.Reachable offset → image.keyNode? offset = some node → IsComponent node.name

/-- A subkey of the root bears the name of the root, in some spelling. -/
def RootNameTaken (image : HiveImage) : Prop :=
  ∃ root, image.root? = some root ∧
    ∃ child ∈ image.subkeysOf root.node, Text.SameName child.name root.node.name

variable {image : HiveImage}

section Subkey

variable {parent next : FoundKey} {name : String}

/-- A subkey that is found by a name bears this name, in some spelling, and its path is the path
above continued by the name as it is stored. -/
theorem exists_child_of_subkey? (found : image.subkey? parent name = some next) :
    (∃ child ∈ image.subkeysOf parent.node, child.offset = next.offset ∧
      child.name = next.node.name) ∧
    Text.SameName next.node.name name ∧ next.path = KeyPath.append parent.path next.node.name := by
  unfold subkey? at found
  split at found
  · rename_i hasSubkeys
    obtain ⟨offset, first, under⟩ := Option.bind_eq_some_iff.mp found
    obtain ⟨child, listed, rfl, same, node, readable, name⟩ := exists_child_of_findChild? first
    obtain ⟨node', readable', rfl⟩ := Option.map_eq_some_iff.mp under
    cases readable.symm.trans readable'
    refine ⟨⟨child, mem_subkeysOf_iff.mpr ⟨hasSubkeys, listed⟩, rfl, name.symm⟩, ?_, rfl⟩
    rwa [← name] at same
  · cases found

/-- All spellings of a name lead to the same subkey. -/
theorem subkey?_of_sameName {name' : String} (same : Text.SameName name name') :
    image.subkey? parent name = image.subkey? parent name' := by
  rw [subkey?, subkey?, findChild?_eq, findChild?_eq, same]

/-- A name leads nowhere exactly if no subkey bears it. -/
theorem subkey?_eq_none_iff :
    image.subkey? parent name = none ↔
      ∀ child ∈ image.subkeysOf parent.node, ¬ Text.SameName child.name name := by
  constructor
  · intro nowhere child listed same
    obtain ⟨hasSubkeys, inList⟩ := mem_subkeysOf_iff.mp listed
    cases first : image.findChild? parent.node.subkeyList name with
    | none =>
        rw [findChild?_eq, Option.map_eq_none_iff, List.find?_eq_none] at first
        exact first child inList (beq_iff_eq.mpr same)
    | some offset =>
        obtain ⟨-, -, -, -, node, readable, -⟩ := exists_child_of_findChild? first
        rw [subkey?, if_pos hasSubkeys, first, Option.bind_some, subkeyAt?, readable] at nowhere
        cases nowhere
  · intro unnamed
    apply Option.eq_none_iff_forall_ne_some.mpr
    intro next found
    obtain ⟨⟨child, listed, -, name⟩, same, -⟩ := exists_child_of_subkey? found
    rw [← name] at same
    exact unnamed child listed same

end Subkey

/-- The path of a key that was found below another one consists of the components of the path above
and the stored names of the keys between. These are as many as the names that led there, and they
lead there too. -/
theorem exists_stored_of_descend (named : image.NamedByComponents) {parent found : FoundKey}
    (reachable : image.Reachable parent.offset)
    (readable : image.keyNode? parent.offset = some parent.node) {names : List String}
    (leads : image.descend parent names = some found) :
    ∃ stored, KeyPath.components found.path = KeyPath.components parent.path ++ stored ∧
      stored.length = names.length ∧ image.descend parent stored = some found := by
  induction names generalizing parent with
  | nil =>
      obtain rfl := Option.some.inj leads
      exact ⟨[], (List.append_nil _).symm, rfl, rfl⟩
  | cons name rest ih =>
      rw [descend] at leads
      split at leads
      · cases leads
      · rename_i next first
        have readable' := readable_of_subkey? first
        obtain ⟨⟨child, listed, cell, -⟩, same, path⟩ := exists_child_of_subkey? first
        have reachable' : image.Reachable next.offset := by
          rw [← cell]
          exact .subkey reachable readable listed
        have component := named next.offset next.node reachable' readable'
        obtain ⟨stored, components, length, leads'⟩ := ih reachable' readable' leads
        refine ⟨next.node.name :: stored, ?_, congrArg (· + 1) length, ?_⟩
        · rw [components, path, KeyPath.components_append, component.components_eq,
            List.append_assoc, List.singleton_append]
        · rw [descend, subkey?_of_sameName same, first]
          exact leads'

/-- The path of a key that names lead to begins with the name of the root, and the stored names
behind it lead to the key from the root. -/
theorem exists_stored_of_resolve (named : image.NamedByComponents) {found : FoundKey}
    {names : List String} (leads : image.resolve names = some found) :
    ∃ root stored, image.root? = some root ∧
      KeyPath.components found.path = root.node.name :: stored ∧ stored.length = names.length ∧
      image.resolve stored = some found := by
  unfold resolve at leads
  split at leads
  · cases leads
  · rename_i root root_eq
    obtain ⟨node, readable, rfl⟩ := Option.map_eq_some_iff.mp root_eq
    have reachable : image.Reachable image.baseBlock.rootOffset := .root readable
    have component := named _ _ reachable readable
    obtain ⟨stored, components, length, leads'⟩ :=
      exists_stored_of_descend named reachable readable leads
    rw [component.components_eq] at components
    refine ⟨_, stored, root_eq, components, length, ?_⟩
    rw [resolve, root_eq]
    exact leads'

/-- The path of a key leads to the key that it leads to relative to the root, and to the key itself
if there is none. -/
theorem find?_path (named : image.NamedByComponents) {found : FoundKey} {names : List String}
    (leads : image.resolve names = some found) :
    image.find? found.path =
      some ((image.resolve (KeyPath.components found.path)).getD found) := by
  obtain ⟨root, stored, root_eq, components, -, leads'⟩ := exists_stored_of_resolve named leads
  rw [find?]
  cases relative : image.resolve (KeyPath.components found.path) with
  | some other => rfl
  | none =>
      simp only [root_eq, components, Text.SameName.refl, if_true, leads', Option.getD_none]

/-- The key that the path of a key leads to relative to the root has another path. -/
theorem path_ne_of_resolve_path (named : image.NamedByComponents) {found other : FoundKey}
    {names : List String} (leads : image.resolve names = some found)
    (relative : image.resolve (KeyPath.components found.path) = some other) :
    other.path ≠ found.path := by
  obtain ⟨_, _, -, components, -, -⟩ := exists_stored_of_resolve named leads
  obtain ⟨_, _, -, components', length, -⟩ := exists_stored_of_resolve named relative
  intro same
  -- The path of the other key has one component more.
  rw [same, components] at components'
  rw [components] at length
  have shorter := congrArg List.length components'
  simp only [List.length_cons] at length shorter
  omega

/-- No path of a key leads anywhere relative to the root if no subkey of the root bears the name of
the root. -/
theorem resolve_path_eq_none (named : image.NamedByComponents) (free : ¬ image.RootNameTaken)
    {found : FoundKey} {names : List String} (leads : image.resolve names = some found) :
    image.resolve (KeyPath.components found.path) = none := by
  obtain ⟨root, stored, root_eq, components, -, -⟩ := exists_stored_of_resolve named leads
  have nowhere : image.subkey? root root.node.name = none :=
    subkey?_eq_none_iff.mpr fun child listed same => free ⟨root, root_eq, child, listed, same⟩
  rw [components, resolve, root_eq]
  simp only [descend, nowhere]

/-- The path of the root leads to the first subkey that bears the name of the root. -/
theorem resolve_path_root_ne_none (named : image.NamedByComponents) {root : FoundKey}
    (root_eq : image.root? = some root) {child : ChildKey}
    (listed : child ∈ image.subkeysOf root.node)
    (same : Text.SameName child.name root.node.name) :
    image.resolve (KeyPath.components root.path) ≠ none := by
  obtain ⟨node, readable, rfl⟩ := Option.map_eq_some_iff.mp root_eq
  have component := named _ _ (.root readable) readable
  rw [component.components_eq, resolve, root_eq]
  simp only [descend]
  split
  · rename_i nowhere
    exact absurd same (subkey?_eq_none_iff.mp nowhere child listed)
  · exact Option.some_ne_none _

/-- The root is handed out, first of all keys. -/
theorem root_mem_visitedKeys {root : FoundKey} (root_eq : image.root? = some root) :
    root ∈ image.visitedKeys := by
  have cell : (PendingKey.root image).cell? = some root.offset := by
    rw [PendingKey.cell?_root, root_eq]
    rfl
  have run := Traversal.run_start image
  generalize image.visitedKeys = keys at run
  cases run with
  | ended last => cases Traversal.pending_of_ended last
  | passed step rest =>
      obtain ⟨first, _, pending, -, before⟩ := Traversal.exists_of_passed step
      obtain ⟨rfl, -⟩ := List.cons.inj pending
      exact absurd (before root.offset cell) Std.HashSet.not_mem_empty
  | handed step rest =>
      obtain ⟨first, _, leads, pending, -⟩ := Traversal.exists_of_handed step
      obtain ⟨rfl, -⟩ := List.cons.inj pending
      change image.resolve [] = _ at leads
      rw [resolve_nil, root_eq] at leads
      exact Option.some.inj leads ▸ List.mem_cons_self

end HiveImage

namespace Hive

open HiveWriter

/-- The key at the path of a key is this key exactly if the path leads nowhere relative to the
root. -/
theorem key?_path_eq_iff {hive : Hive} (named : hive.image.NamedByComponents) {found : FoundKey}
    (handed : found ∈ hive.image.visitedKeys) :
    hive.key? found.path = some (hive.image.keyOf found) ↔
      hive.image.resolve (KeyPath.components found.path) = none := by
  obtain ⟨names, leads⟩ := (Traversal.run_start hive.image).exists_resolve found handed
  rw [key?, HiveImage.find?_path named leads]
  cases relative : hive.image.resolve (KeyPath.components found.path) with
  | none => exact ⟨fun _ => rfl, fun _ => rfl⟩
  | some other =>
      have different := HiveImage.path_ne_of_resolve_path named leads relative
      refine ⟨fun same => ?_, fun none => by cases none⟩
      exact absurd (congrArg Key.path (Option.some.inj same)) different

/-- Some key cannot be looked up by its path, namely the root, if a subkey of the root bears the
name of the root. -/
theorem exists_key?_path_ne (hive : Hive) (named : hive.image.NamedByComponents)
    (taken : hive.image.RootNameTaken) : ∃ key ∈ hive.keys, hive.key? key.path ≠ some key := by
  obtain ⟨root, root_eq, child, listed, same⟩ := taken
  have handed := HiveImage.root_mem_visitedKeys root_eq
  refine ⟨hive.image.keyOf root, List.mem_map_of_mem handed, fun looked => ?_⟩
  have alone := (key?_path_eq_iff named handed).mp looked
  exact HiveImage.resolve_path_root_ne_none named root_eq listed same alone

/-- Where all names are components of paths, the path of a key leads to the key that it leads to
relative to the root, and to the key itself exactly if there is none. All keys can be looked up by
their paths exactly if no subkey of the root bears the name of the root. -/
theorem key?_path (hive : Hive) (named : hive.image.NamedByComponents) :
    (∀ found ∈ hive.image.visitedKeys,
      hive.image.find? found.path =
        some ((hive.image.resolve (KeyPath.components found.path)).getD found) ∧
      (hive.key? found.path = some (hive.image.keyOf found) ↔
        hive.image.resolve (KeyPath.components found.path) = none)) ∧
    ((∀ key ∈ hive.keys, hive.key? key.path = some key) ↔ ¬ hive.image.RootNameTaken) := by
  refine ⟨?_, ?_, ?_⟩
  · intro found handed
    obtain ⟨names, leads⟩ := (Traversal.run_start hive.image).exists_resolve found handed
    exact ⟨HiveImage.find?_path named leads, key?_path_eq_iff named handed⟩
  · intro all taken
    obtain ⟨key, member, different⟩ := exists_key?_path_ne hive named taken
    exact different (all key member)
  · intro free key member
    obtain ⟨found, handed, rfl⟩ := List.mem_map.mp member
    obtain ⟨names, leads⟩ := (Traversal.run_start hive.image).exists_resolve found handed
    exact (key?_path_eq_iff named handed).mpr (HiveImage.resolve_path_eq_none named free leads)

end Hive

section Written

open HiveWriter

variable {image : HiveImage} {tree : KeyTree UInt32}

theorem ReadsTree.namedByComponents (reads : ReadsTree image tree) : image.NamedByComponents := by
  intro offset keyNode reachable readable
  obtain ⟨node, member, rfl⟩ := exists_node_of_reachable reads.root_eq reads.reads reachable
  obtain ⟨keyNode', read⟩ := reads.reads node member
  cases readable.symm.trans read.readable
  have name := (reads.valid node member).1
  rw [read.name]
  exact ⟨name.nonempty, name.separator_not_mem⟩

theorem ReadsTree.rootNameTaken_iff (reads : ReadsTree image tree) :
    image.RootNameTaken ↔
      ∃ name ∈ tree.subkeys.map KeyTree.name, name.toLower = tree.name.toLower := by
  obtain ⟨keyNode, read⟩ := reads.reads tree tree.mem_nodes_self
  have root := reads.root?_eq read
  have valid := (reads.valid tree tree.mem_nodes_self).1
  constructor
  · rintro ⟨_, root_eq, child, listed, same⟩
    cases root.symm.trans root_eq
    rw [read.subkeys] at listed
    obtain ⟨subkey, below, rfl⟩ := List.mem_map.mp listed
    have valid' := (reads.valid subkey (KeyTree.subkey_mem_nodes below tree tree.mem_nodes_self)).1
    rw [read.name] at same
    exact ⟨subkey.name, List.mem_map_of_mem below, (valid'.sameName_iff valid).mp same⟩
  · rintro ⟨_, named, same⟩
    obtain ⟨subkey, below, rfl⟩ := List.mem_map.mp named
    have valid' := (reads.valid subkey (KeyTree.subkey_mem_nodes below tree tree.mem_nodes_self)).1
    refine ⟨_, root, { name := subkey.name, offset := subkey.cell }, ?_, ?_⟩
    · rw [read.subkeys]
      exact List.mem_map_of_mem below
    · rw [read.name]
      exact (valid'.sameName_iff valid).mpr same

/-- The full path of every key leads to this key if no subkey of the root is called like the
root. -/
theorem ReadsTree.find?_path_eq (reads : ReadsTree image tree)
    (free : ∀ name ∈ tree.subkeys.map KeyTree.name, name.toLower ≠ tree.name.toLower)
    {entry : LocatedKey} (member : entry ∈ tree.allKeys) :
    (image.find? entry.key.path).map image.keyOf = some entry.key := by
  have untaken : ¬ image.RootNameTaken := by
    intro taken
    obtain ⟨name, listed, same⟩ := reads.rootNameTaken_iff.mp taken
    exact free name listed same
  have handed : entry.key ∈ image.visitedKeys.map image.keyOf := by
    rw [reads.visitedKeys_eq]
    exact List.mem_map_of_mem member
  obtain ⟨found, visited, key_eq⟩ := List.mem_map.mp handed
  obtain ⟨names, leads⟩ := (Traversal.run_start image).exists_resolve found visited
  have path_eq : found.path = entry.key.path := congrArg Key.path key_eq
  rw [← path_eq, HiveImage.find?_path reads.namedByComponents leads,
    HiveImage.resolve_path_eq_none reads.namedByComponents untaken leads, Option.getD_none,
    Option.map_some, key_eq]

/-- No subkey of the root is called like the root in the sample. -/
theorem Hive.key?_path_sampleTree :
    (layOut sampleTree).2.hive.image.NamedByComponents ∧
      ∀ key ∈ (layOut sampleTree).2.hive.keys,
        (layOut sampleTree).2.hive.key? key.path = some key := by
  obtain ⟨contents, run, laid⟩ := exists_laysOut sampleTree (by decide) size_layOut_sampleTree
  have reads := run.readsTree laid (valid_layOut (by decide)) size_layOut_sampleTree
  refine ⟨reads.namedByComponents, ?_⟩
  obtain ⟨-, all⟩ := key?_path (layOut sampleTree).2.hive reads.namedByComponents
  apply all.mpr
  obtain ⟨root, subkeys⟩ := names_layOut sampleTree
  intro taken
  obtain ⟨name, subkey, same⟩ := reads.rootNameTaken_iff.mp taken
  rw [root] at same
  rw [subkeys] at subkey
  have different : ∀ name ∈ sampleTree.subkeys.map KeyTree.name,
      name.toLower ≠ sampleTree.name.toLower := by decide
  exact different name subkey same

/-- A root and a subkey of the same name. -/
def namesakeTree : KeyTree ListPlan :=
  .node (.leaf .hashLeaf) "ROOT" [] [.node (.leaf .hashLeaf) "ROOT" [] []]

theorem size_layOut_namesakeTree : (layOut namesakeTree).2.bins.size < 2 ^ 31 :=
  Nat.lt_of_le_of_lt (size_layOut_le namesakeTree) (by decide)

/-- Names tell all keys apart, but the path of the root leads to the subkey. -/
theorem Hive.root_path_ambiguous :
    Hive.ofBytes (layOut namesakeTree).2.build = .ok (layOut namesakeTree).2.hive ∧
      (layOut namesakeTree).2.hive.image.NamedByComponents ∧
      (layOut namesakeTree).2.hive.image.NamesDistinct ∧
      ∃ key ∈ (layOut namesakeTree).2.hive.keys,
        (layOut namesakeTree).2.hive.key? key.path ≠ some key := by
  obtain ⟨contents, run, laid⟩ := exists_laysOut namesakeTree (by decide) size_layOut_namesakeTree
  have reads := run.readsTree laid (valid_layOut (by decide)) size_layOut_namesakeTree
  refine ⟨hive_ofBytes_build _, reads.namedByComponents, reads.wellNamed.namesDistinct, ?_⟩
  apply exists_key?_path_ne (layOut namesakeTree).2.hive reads.namedByComponents
  obtain ⟨root, subkeys⟩ := names_layOut namesakeTree
  apply reads.rootNameTaken_iff.mpr
  rw [root, subkeys]
  exact ⟨"ROOT", List.mem_cons_self, rfl⟩

end Written

end RegistryHive
