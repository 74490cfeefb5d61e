import RegistryHive.Proofs.Traversal.ListTrees
import RegistryHive.Proofs.Writing.DepthFirst

/-!
# Lists of different shapes

Two trees of lists that name the same keys in the same order cannot be told apart: not by
walking them, not by the names that are collected, and not by a search. Slots of four or
of eight bytes, the hints in them, the number of leaves and the number of index roots above a
leaf make no difference.
-/

namespace RegistryHive

/-- What is read of a tree of lists depends on the sequence of its keys only. Both walks yield
the readable keys of this sequence, and both searches end at its first readable key with the name
that is asked for, ignoring case. -/
theorem HiveImage.list_shape_irrelevant {image : HiveImage} {list list' : UInt32}
    {cells cells' keys : List UInt32}
    (trees : image.ListTrees maxListDepth [list] cells keys) (distinct : cells.Nodup)
    (trees' : image.ListTrees maxListDepth [list'] cells' keys) (distinct' : cells'.Nodup) :
    image.childrenAt list = keys.filterMap (SubkeyWalk.child? image) ∧
      image.childrenAt list' = image.childrenAt list ∧
      image.childNames list' = image.childNames list ∧
      ∀ name, image.findChild? list' name = image.findChild? list name ∧
        image.findChild? list name = keys.find? fun key =>
          (image.keyNode? key).any fun node => Text.lowerCase node.name == Text.lowerCase name := by
  have yields := childrenAt_eq_of_listTrees trees distinct
  have yields' := childrenAt_eq_of_listTrees trees' distinct'
  have same : image.childrenAt list' = image.childrenAt list := yields'.trans yields.symm
  refine ⟨yields, same, ?_, fun name => ⟨?_, findChild?_eq_of_childrenAt_eq yields name⟩⟩
  · rw [childNames, childNames, same]
  · rw [findChild?_eq, findChild?_eq, same]

namespace Written

open HiveWriter

/-- A key. -/
def firstKey : Written := (HiveWriter.start.rootKey "ROOT").writer.key "First"

/-- Another key. -/
def secondKey : Written := firstKey.writer.key "Second"

/-- A leaf that names both keys. -/
def oneLeaf : Written :=
  secondKey.writer.listBy [firstKey.offset, secondKey.offset] (.leaf .fastLeaf)

/-- An index root over two leaves, each of which names one of the keys. -/
def twoLeaves : Written :=
  oneLeaf.writer.listBy [firstKey.offset, secondKey.offset]
    (.index [(.hashLeaf, 1), (.indexLeaf, 1)])

theorem size_firstKey :
    firstKey.writer.bins.size = binHeaderSize + keySpace "ROOT" + keySpace "First" := by
  rw [firstKey, size_key, size_rootKey, size_start]

theorem size_secondKey : secondKey.writer.bins.size =
    binHeaderSize + keySpace "ROOT" + keySpace "First" + keySpace "Second" := by
  rw [secondKey, size_key, size_firstKey]

theorem size_twoLeaves_lt : twoLeaves.writer.bins.size < 2 ^ 31 := by
  have leaf := size_listBy_le secondKey.writer [firstKey.offset, secondKey.offset]
    (.leaf .fastLeaf)
  have leaves := size_listBy_le oneLeaf.writer [firstKey.offset, secondKey.offset]
    (.index [(.hashLeaf, 1), (.indexLeaf, 1)])
  have few : binHeaderSize + keySpace "ROOT" + keySpace "First" + keySpace "Second" +
      ListPlan.space (.leaf .fastLeaf) 2 +
      ListPlan.space (.index [(.hashLeaf, 1), (.indexLeaf, 1)]) 2 < 2 ^ 31 := by decide
  have two : [firstKey.offset, secondKey.offset].length = 2 := rfl
  rw [← oneLeaf, size_secondKey, two] at leaf
  rw [← twoLeaves, two] at leaves
  omega

/-- The two keys are written, and both lists name them. -/
theorem exists_twoLeaves :
    ∃ contents, Run twoLeaves.writer contents ∧
      contents firstKey.offset = some (.key (.new "First")) ∧
      contents secondKey.offset = some (.key (.new "Second")) ∧
      contents.HasList oneLeaf.offset [firstKey.offset, secondKey.offset] ∧
      contents.HasList twoLeaves.offset [firstKey.offset, secondKey.offset] := by
  have small := size_twoLeaves_lt
  have small₃ : oneLeaf.writer.bins.size < 2 ^ 31 :=
    Nat.lt_of_le_of_lt (size_le_listBy oneLeaf.writer _ _) small
  have small₂ : secondKey.writer.bins.size < 2 ^ 31 := by
    rw [size_secondKey]
    decide
  have small₁ : firstKey.writer.bins.size < 2 ^ 31 := by
    rw [size_firstKey]
    decide
  rw [twoLeaves, oneLeaf, secondKey, firstKey] at *
  obtain ⟨contents₁, run₁, -, first⟩ := (Run.start.rootKey "ROOT").exists_key "First" small₁
  obtain ⟨contents₂, run₂, extend₂, second⟩ := run₁.exists_key "Second" small₂
  obtain ⟨contents₃, run₃, extend₃, leaf⟩ := run₂.exists_listBy _ _ (by decide) small₃
  obtain ⟨contents₄, run₄, extend₄, leaves⟩ := run₃.exists_listBy _ _ (by decide) small
  exact ⟨contents₄, run₄, extend₄ (extend₃ (extend₂ first)), extend₄ (extend₃ second),
    leaf.keeps extend₄.keeps, leaves⟩

/-- Both keys are found in one leaf and in two leaves under an index root. -/
theorem children_oneLeaf_twoLeaves :
    twoLeaves.writer.image.childrenAt oneLeaf.offset =
        [⟨"First", firstKey.offset⟩, ⟨"Second", secondKey.offset⟩] ∧
      twoLeaves.writer.image.childrenAt twoLeaves.offset =
        [⟨"First", firstKey.offset⟩, ⟨"Second", secondKey.offset⟩] := by
  obtain ⟨contents, run, first, second, leaf, leaves⟩ := exists_twoLeaves
  have shown := run.shows size_twoLeaves_lt
  obtain ⟨cells, distinct, trees⟩ := shown.exists_listTrees leaf
  obtain ⟨cells', distinct', trees'⟩ := shown.exists_listTrees leaves
  obtain ⟨yields, same, -, -⟩ :=
    HiveImage.list_shape_irrelevant trees distinct trees' distinct'
  have plain : IsKeyName "First" := by decide
  have plain' : IsKeyName "Second" := by decide
  rw [List.filterMap_cons_some (shown.child?_eq first plain.isStoredName),
    List.filterMap_cons_some (shown.child?_eq second plain'.isStoredName),
    List.filterMap_nil] at yields
  exact ⟨yields, same.trans yields⟩

end Written

end RegistryHive
