import RegistryHive.Proofs.Traversal.ListedNames

/-!
# Spellings of paths

Case does not count in a path that is looked up, and neither do separators too many. Paths whose
components agree in lower case, one by one, lead to the same key, and this key has one path, made of
the names as they are stored. The fallback that passes over the name of the root keeps to this,
since it compares the first component in lower case too (`HiveImage.find?_of_sameNames`).

The name of the root can be put in front of a path in any spelling. Two things can make a
difference then. If a subkey of the root bears this name, the longer path may lead on from there. If
the path itself begins with the name of the root, the fallback removes one of two names and not the
only one. Where neither is so, the longer path leads to the same key
(`HiveImage.find?_append_rootName`).
-/

namespace RegistryHive

namespace HiveImage

variable {image : HiveImage} {path path' spelling : String} {names names' : List String}
  {root : FoundKey}

/-- Spellings of the same names lead to the same key. -/
theorem descend_of_sameNames (same : List.Forall₂ Text.SameName names names') (parent : FoundKey) :
    image.descend parent names = image.descend parent names' := by
  induction same generalizing parent with
  | nil => rfl
  | @cons name name' rest rest' sameName sameRest ih =>
      rw [descend, descend, subkey?_of_sameName sameName]
      cases image.subkey? parent name' with
      | none => rfl
      | some next => exact ih next

theorem resolve_of_sameNames (same : List.Forall₂ Text.SameName names names') :
    image.resolve names = image.resolve names' := by
  rw [resolve, resolve]
  cases image.root? with
  | none => rfl
  | some root => exact descend_of_sameNames same root

/-- Spellings of the same path lead to the same key, also where the name of the root is passed
over. -/
theorem find?_of_sameNames
    (same : List.Forall₂ Text.SameName (KeyPath.components path) (KeyPath.components path')) :
    image.find? path = image.find? path' := by
  rw [find?, find?, resolve_of_sameNames same]
  cases image.resolve (KeyPath.components path') with
  | some found => rfl
  | none =>
      cases image.root? with
      | none => rfl
      | some root =>
          generalize KeyPath.components path = names at same
          generalize KeyPath.components path' = names' at same
          cases same with
          | nil => rfl
          | @cons first first' rest rest' sameFirst sameRest =>
              have passed : Text.SameName first root.node.name ↔
                  Text.SameName first' root.node.name :=
                ⟨sameFirst.symm.trans, sameFirst.trans⟩
              simp only [passed, resolve_of_sameNames sameRest]

/-- A path that does not begin with the name of the root is only read relative to the root. -/
theorem find?_eq_resolve (root_eq : image.root? = some root)
    (other : ∀ first ∈ (KeyPath.components path).head?, ¬ Text.SameName first root.node.name) :
    image.find? path = image.resolve (KeyPath.components path) := by
  rw [find?]
  cases relative : image.resolve (KeyPath.components path) with
  | some found => rfl
  | none =>
      rw [root_eq]
      cases parts : KeyPath.components path with
      | nil => rfl
      | cons first rest =>
          rw [parts] at other
          exact if_neg (other first rfl)

/-- The name of the root can be put in front of a path that does not begin with it, if no subkey of
the root bears it. -/
theorem find?_append_rootName (root_eq : image.root? = some root) (free : ¬ image.RootNameTaken)
    (component : IsComponent spelling) (same : Text.SameName spelling root.node.name)
    (other : ∀ first ∈ (KeyPath.components path).head?, ¬ Text.SameName first root.node.name) :
    image.find? (KeyPath.append spelling path) = image.find? path := by
  have parts : KeyPath.components (KeyPath.append spelling path) =
      spelling :: KeyPath.components path := by
    rw [KeyPath.components_append, component.components_eq, List.singleton_append]
  have unnamed : image.subkey? root spelling = none := by
    rw [subkey?_eq_none_iff]
    intro child listed named
    exact free ⟨root, root_eq, child, listed, named.trans same⟩
  have nowhere : image.resolve (spelling :: KeyPath.components path) = none := by
    rw [resolve, root_eq]
    simp only [descend, unnamed]
  rw [find?_eq_resolve root_eq other, find?, parts, nowhere, root_eq]
  exact if_pos same

end HiveImage

namespace Hive

open HiveWriter

/-- The empty path leads to the root. -/
theorem key?_empty (hive : Hive) : hive.key? "" = hive.rootKey? := by
  rw [key?, rootKey?, HiveImage.find?, KeyPath.components_empty, HiveImage.resolve_nil]
  cases hive.image.root? with
  | none => rfl
  | some root => rfl

/-- Where a path leads is decided by its components in lower case. The name of the root can be put
in front of it in any spelling, unless a subkey of the root bears this name or the path begins with
it already. -/
theorem key?_of_spelling (hive : Hive) :
    (∀ path path', List.Forall₂ Text.SameName (KeyPath.components path) (KeyPath.components path') →
      hive.key? path = hive.key? path') ∧
    ∀ root, hive.rootKey? = some root →
      (∀ name ∈ root.subkeyNames, ¬ Text.SameName name root.name) →
      ∀ spelling, IsComponent spelling → Text.SameName spelling root.name →
      ∀ path, (∀ first ∈ (KeyPath.components path).head?, ¬ Text.SameName first root.name) →
        hive.key? (KeyPath.append spelling path) = hive.key? path := by
  refine ⟨?_, ?_⟩
  · intro path path' same
    rw [key?, key?, HiveImage.find?_of_sameNames same]
  · intro key found free spelling component same path other
    obtain ⟨root, root_eq, rfl⟩ := Option.map_eq_some_iff.mp found
    have untaken : ¬ hive.image.RootNameTaken := by
      rintro ⟨root', root_eq', child, listed, named⟩
      cases root_eq.symm.trans root_eq'
      apply free child.name _ named
      change child.name ∈ hive.image.subkeyNames root.node
      rw [HiveImage.subkeyNames_eq]
      exact List.mem_map_of_mem listed
    rw [key?, key?, HiveImage.find?_append_rootName root_eq untaken component same other]

/-- A key of the sample is found under other spellings of its path, with separators too many, and
behind a spelling of the name of the root. -/
theorem key?_of_spelling_sampleTree :
    ∃ hive key, Hive.ofBytes (layOut sampleTree).2.build = .ok hive ∧
      hive.key? "Alpha\\Deep" = some key ∧
      hive.key? "\\aLPHA\\\\deep\\" = some key ∧
      hive.key? "rOOt\\aLPHA\\deep" = some key := by
  obtain ⟨contents, run, laid⟩ := exists_laysOut sampleTree (by decide) size_layOut_sampleTree
  obtain ⟨hive, loaded, -, leads⟩ :=
    run.read_back laid (valid_layOut (by decide)) size_layOut_sampleTree
  rw [allKeys_layOut] at leads
  let root : LocatedKey := sampleTree.allKeys[0]
  let deep : LocatedKey := sampleTree.allKeys[2]
  have rootKey : hive.rootKey? = some root.key := by
    rw [← key?_empty]
    exact leads root (List.getElem_mem _)
  have found : hive.key? "Alpha\\Deep" = some deep.key := leads deep (List.getElem_mem _)
  have alpha : Text.SameName "aLPHA" "Alpha" := Text.sameName_iff.mpr (by decide)
  have deep' : Text.SameName "deep" "Deep" := Text.sameName_iff.mpr (by decide)
  have names : List.Forall₂ Text.SameName ["aLPHA", "deep"] ["Alpha", "Deep"] :=
    .cons alpha (.cons deep' .nil)
  have rootName : root.key.name = "ROOT" := by decide
  have subkeyNames : root.key.subkeyNames = ["Alpha", "Beta"] := by decide
  have free : ∀ name ∈ root.key.subkeyNames, ¬ Text.SameName name root.key.name := by
    simp only [subkeyNames, rootName, Text.sameName_iff]
    decide
  obtain ⟨respelled, behindRoot⟩ := key?_of_spelling hive
  have inFront : hive.key? "aLPHA\\deep" = some deep.key := by
    rw [← found]
    exact respelled "aLPHA\\deep" "Alpha\\Deep" names
  refine ⟨hive, deep.key, loaded, found, ?_, ?_⟩
  · rw [← found]
    exact respelled "\\aLPHA\\\\deep\\" "Alpha\\Deep" names
  · have path : "rOOt\\aLPHA\\deep" = KeyPath.append "rOOt" "aLPHA\\deep" := by decide
    have first : (KeyPath.components "aLPHA\\deep").head? = some "aLPHA" := by decide
    rw [path, ← inFront]
    apply behindRoot root.key rootKey free "rOOt" ⟨by decide, by decide⟩
    · rw [rootName, Text.sameName_iff]
      decide
    · simp only [first, rootName, Text.sameName_iff]
      decide

end Hive

end RegistryHive
