import RegistryHive.Proofs.Writing.ReadBack

/-!
# The keys of a hive in the order of plain recursion

The keys that a hive hands out are found by their paths, each anew from the root.
Plain recursion from cell to cell gives the same keys in the same order where names
lead back to the cells they were read from. A written file is an example.
-/

namespace RegistryHive

namespace Hive

open HiveWriter

/-- Where names tell subkeys apart, the keys of a hive are those that plain recursion from the root
cell visits, in its order. -/
theorem keys_eq_preorder (hive : Hive) (wellNamed : hive.image.WellNamed) :
    hive.keys = hive.image.preorder.map hive.image.keyOf := by
  rw [keys, visitedKeys_eq_preorder wellNamed]

theorem keys_eq_preorder_sampleTree :
    (layOut sampleTree).2.hive.image.WellNamed ∧
      (layOut sampleTree).2.hive.keys =
        (layOut sampleTree).2.hive.image.preorder.map (layOut sampleTree).2.hive.image.keyOf ∧
      (layOut sampleTree).2.hive.keys.map (·.name) = ["ROOT", "Alpha", "Deep", "Beta"] := by
  obtain ⟨contents, run, laid⟩ :=
    exists_laysOut sampleTree (by decide) size_layOut_sampleTree
  have reads := run.readsTree laid (valid_layOut (by decide)) size_layOut_sampleTree
  have written : (layOut sampleTree).2.hive.keys = _ := reads.visitedKeys_eq
  refine ⟨reads.wellNamed, keys_eq_preorder _ reads.wellNamed, ?_⟩
  rw [written, allKeys_layOut]
  decide

end Hive

end RegistryHive
