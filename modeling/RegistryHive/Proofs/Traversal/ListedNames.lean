import RegistryHive.Proofs.Traversal.FullPaths

/-!
# Opening the subkeys that a key lists

A key that was found at a path lists the names of its subkeys. Any of these names, if it is a
component of a path, can be appended to the path and looked up again, and it leads to the first
subkey in the list that bears it (`Hive.key?_append`). This holds whichever way the path was read.
If it was read relative to the root, the longer path is read so too. If it led nowhere there and its
first name was passed over as the name of the root, the longer path leads nowhere either, and its
first name is passed over again (`HiveImage.find?_append`). Separators too many make no difference,
since only the components of a path are looked at (`Hive.key?_of_components_eq`).
-/

namespace RegistryHive

namespace HiveImage

variable {image : HiveImage} {path name : String} {found next : FoundKey}

/-- A path that leads to a key and is continued by a name of a subkey leads to the subkey. -/
theorem find?_append (leads : image.find? path = some found) (component : IsComponent name)
    (below : image.subkey? found name = some next) :
    image.find? (KeyPath.append path name) = some next := by
  have components : KeyPath.components (KeyPath.append path name) =
      KeyPath.components path ++ [name] := by
    rw [KeyPath.components_append, component.components_eq]
  have step : image.descend found [name] = some next := by
    rw [descend, below]
    rfl
  have onward {names : List String} (here : image.resolve names = some found) :
      image.resolve (names ++ [name]) = some next := by
    rw [resolve_append, here, Option.bind_some, step]
  rw [find?, components]
  unfold find? at leads
  split at leads
  · rename_i relative
    cases leads
    rw [onward relative]
  · rename_i nowhere
    have nowhere' : image.resolve (KeyPath.components path ++ [name]) = none := by
      rw [resolve_append, nowhere, Option.bind_none]
    rw [nowhere']
    split at leads
    · rename_i root first rest root_eq parts
      split at leads
      · rename_i same
        simp only [root_eq, parts, List.cons_append, if_pos same, onward leads]
      · cases leads
    · cases leads

/-- The subkey that a name leads to is the first one in the list that bears it. -/
theorem find?_subkeyNames (below : image.subkey? found name = some next) :
    (image.subkeyNames found.node).find? (fun other => Text.SameName other name) =
      some next.node.name := by
  unfold subkey? at below
  split at below
  · rename_i hasSubkeys
    obtain ⟨offset, first, under⟩ := Option.bind_eq_some_iff.mp below
    obtain ⟨node, readable, rfl⟩ := Option.map_eq_some_iff.mp under
    rw [findChild?_eq] at first
    obtain ⟨child, passes, rfl⟩ := Option.map_eq_some_iff.mp first
    obtain ⟨node', readable', same⟩ := keyNode?_of_mem_childrenAt (List.mem_of_find?_eq_some passes)
    cases readable.symm.trans readable'
    have spelled : (fun child : ChildKey => Text.lowerCase child.name == Text.lowerCase name) =
        (fun other => decide (Text.SameName other name)) ∘ ChildKey.name :=
      funext fun child => beq_eq_decide _ _
    rw [spelled] at passes
    rw [subkeyNames, if_pos hasSubkeys, childNames, List.find?_map, passes, Option.map_some, same]
  · cases below

/-- A listed name leads to a subkey. -/
theorem exists_subkey?_of_listed (listed : name ∈ image.subkeyNames found.node) :
    ∃ next, image.subkey? found name = some next := by
  rw [subkeyNames_eq] at listed
  obtain ⟨child, inList, rfl⟩ := List.mem_map.mp listed
  apply Option.ne_none_iff_exists'.mp
  intro nowhere
  exact subkey?_eq_none_iff.mp nowhere child inList (Text.SameName.refl _)

end HiveImage

namespace Hive

open HiveWriter

/-- A name that a key lists can be appended to any path that leads to the key, if it is a component
of paths. The longer path leads to the first listed subkey of that name, ignoring case, and its path
is the path of the key continued by its name as it is stored. -/
theorem key?_append {hive : Hive} {path : String} {key : Key} (found : hive.key? path = some key)
    {name : String} (listed : name ∈ key.subkeyNames) (component : IsComponent name) :
    ∃ child, hive.key? (KeyPath.append path name) = some child ∧
      key.subkeyNames.find? (fun other => Text.SameName other name) = some child.name ∧
      child.path = KeyPath.append key.path child.name := by
  obtain ⟨parent, leads, rfl⟩ := Option.map_eq_some_iff.mp found
  obtain ⟨next, below⟩ := HiveImage.exists_subkey?_of_listed listed
  obtain ⟨-, -, path_eq⟩ := HiveImage.exists_child_of_subkey? below
  refine ⟨hive.image.keyOf next, ?_, HiveImage.find?_subkeyNames below, path_eq⟩
  rw [key?, HiveImage.find?_append leads component below]
  rfl

/-- Where a path leads is decided by its components, however they are separated. -/
theorem key?_of_components_eq (hive : Hive) {path path' : String}
    (same : KeyPath.components path = KeyPath.components path') :
    hive.key? path = hive.key? path' := by
  rw [key?, key?, HiveImage.find?, HiveImage.find?, same]

/-- A key of the sample is found by a path that begins with the name of the root and has separators
too many. The path is continued by the name of its subkey. -/
theorem key?_append_sampleTree :
    ∃ key child, (layOut sampleTree).2.hive.key? "\\ROOT\\\\Alpha\\" = some key ∧
      "Deep" ∈ key.subkeyNames ∧ IsComponent "Deep" ∧
      (layOut sampleTree).2.hive.key? "\\ROOT\\\\Alpha\\\\Deep" = some child ∧
      child.path = "ROOT\\Alpha\\Deep" := by
  obtain ⟨contents, run, laid⟩ := exists_laysOut sampleTree (by decide) size_layOut_sampleTree
  have reads := run.readsTree laid (valid_layOut (by decide)) size_layOut_sampleTree
  have free : ∀ name ∈ (layOut sampleTree).1.subkeys.map KeyTree.name,
      name.toLower ≠ (layOut sampleTree).1.name.toLower := by
    obtain ⟨root, subkeys⟩ := names_layOut sampleTree
    rw [root, subkeys]
    decide
  let entry : LocatedKey := sampleTree.allKeys[1]
  have member : entry ∈ (layOut sampleTree).1.allKeys := by
    rw [allKeys_layOut]
    exact List.getElem_mem _
  have found : (layOut sampleTree).2.hive.key? "\\ROOT\\\\Alpha\\" = some entry.key := by
    have components : KeyPath.components "\\ROOT\\\\Alpha\\" =
        KeyPath.components entry.key.path := by decide
    rw [key?_of_components_eq _ components]
    exact reads.find?_path_eq free member
  have listed : "Deep" ∈ entry.key.subkeyNames := by decide
  have component : IsComponent "Deep" := ⟨by decide, by decide⟩
  obtain ⟨child, below, first, path⟩ := key?_append found listed component
  refine ⟨entry.key, child, found, listed, component, below, ?_⟩
  have only : entry.key.subkeyNames = ["Deep"] := by decide
  simp only [only, List.find?_cons, Text.SameName.refl, decide_true] at first
  rw [path, ← Option.some.inj first]
  decide

end Hive

end RegistryHive
