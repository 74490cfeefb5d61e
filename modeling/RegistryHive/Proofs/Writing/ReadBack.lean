import RegistryHive.Proofs.Writing.DepthFirst

/-!
# Writing a file and reading it back

Whatever the order in which a tree was written, and whatever lists name its
subkeys, the finished file is loaded and gives the tree back (`Run.read_back`).
Such a run exists for every valid tree (`read_back_layOut`).
-/

namespace RegistryHive

namespace HiveWriter

/-- A tree with an index root over two shapes of leaves, a payload in a value node and one in a
cell of its own. -/
def sampleTree : KeyTree ListPlan :=
  .node (.index [(.hashLeaf, 1), (.fastLeaf, 1)]) "ROOT" []
    [.node (.leaf .indexLeaf) "Alpha"
      [{ name := "Count", code := 4, payload := [7, 0, 0, 0].toByteArray },
        { name := "", code := 3, payload := [1, 2, 3, 4, 5].toByteArray }]
      [.node (.leaf .hashLeaf) "Deep" [] []],
    .node (.leaf .fastLeaf) "Beta" [] []]

/-- The bin stays small when the sample is laid out. -/
theorem size_layOut_sampleTree : (layOut sampleTree).2.bins.size < 2 ^ 31 :=
  Nat.lt_of_le_of_lt (size_layOut_le sampleTree) (by decide)

/-- A tree that a run of a writer has laid out is read back from the finished file: the file is
loaded, the traversal hands out the keys of the tree in pre-order, each once, and every key is
found under its path relative to the root. -/
theorem Run.read_back {writer : HiveWriter} {contents : Contents} {tree : KeyTree UInt32}
    (run : Run writer contents) (laid : contents.LaysOut writer.root tree) (valid : tree.Valid)
    (small : writer.bins.size < 2 ^ 31) :
    ∃ hive, Hive.ofBytes writer.build = .ok hive ∧
      hive.keys = tree.allKeys.map (·.key) ∧
      ∀ entry ∈ tree.allKeys, hive.key? entry.relative = some entry.key := by
  have reads := run.readsTree laid valid small
  exact reads.exists_hive

theorem Run.read_back_sampleTree :
    ∃ hive, Hive.ofBytes (layOut sampleTree).2.build = .ok hive ∧
      hive.keys.map (·.path) = ["ROOT", "ROOT\\Alpha", "ROOT\\Alpha\\Deep", "ROOT\\Beta"] ∧
      (hive.key? "Alpha\\Deep").map (·.name) = some "Deep" := by
  obtain ⟨contents, run, laid⟩ :=
    exists_laysOut sampleTree (by decide) size_layOut_sampleTree
  obtain ⟨hive, loaded, keys, found⟩ :=
    run.read_back laid (valid_layOut (by decide)) size_layOut_sampleTree
  rw [allKeys_layOut] at keys found
  refine ⟨hive, loaded, ?_, ?_⟩
  · rw [keys]
    decide
  · have deep := found sampleTree.allKeys[2] (List.getElem_mem _)
    have relative : sampleTree.allKeys[2].relative = "Alpha\\Deep" := by decide
    rw [relative] at deep
    rw [deep]
    decide

/-- Every valid tree that takes less than two gigabytes is read back as it was laid out. -/
theorem read_back_layOut (tree : KeyTree ListPlan) (fits : tree.Fits) (valid : tree.Valid)
    (small : binHeaderSize + tree.space < 2 ^ 31) :
    ∃ hive, Hive.ofBytes (layOut tree).2.build = .ok hive ∧
      hive.keys = tree.allKeys.map (·.key) ∧
      ∀ entry ∈ tree.allKeys, hive.key? entry.relative = some entry.key := by
  have small' : (layOut tree).2.bins.size < 2 ^ 31 :=
    Nat.lt_of_le_of_lt (size_layOut_le tree) small
  obtain ⟨contents, run, laid⟩ := exists_laysOut tree fits small'
  rw [← allKeys_layOut]
  have reads := run.readsTree laid (valid_layOut valid) small'
  exact reads.exists_hive

end HiveWriter

end RegistryHive
