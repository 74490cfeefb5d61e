import RegistryHive.Proofs.Traversal.Preorder

/-!
# Cells that are found by name

A traversal knows a key by the names that lead to it. Which cell names lead to
depends on the cell they start from and on nothing else: not on the path under
which that cell was found, nor on the names of the keys above it. So following
names is a function of cells, `childNamed?` for one name and its iteration for
several (`descend_offset`), and the cells that names lead to from the root form
the set `FoundByName`.
-/

namespace RegistryHive

namespace HiveImage

variable (image : HiveImage)

/-- The cell of the first subkey with this name. A key that declares no subkeys has none. -/
def childNamed? (offset : UInt32) (name : String) : Option UInt32 :=
  (image.keyNode? offset).bind fun node =>
    if node.hasSubkeys then image.findChild? node.subkeyList name else none

/-- The cell of the first key with this name in the list of a key, whatever number of subkeys the
key declares. -/
def listedNamed? (offset : UInt32) (name : String) : Option UInt32 :=
  (image.keyNode? offset).bind fun node => image.findChild? node.subkeyList name

/-- The cells that are found by name, when `lookup` takes one name from a cell to the next: the
root cell, and the cells that the names of the subkeys of such a cell lead to. A name is taken as
a path, whose components are looked up one below the other. -/
inductive FoundByName (lookup : UInt32 → String → Option UInt32) : UInt32 → Prop
  | root {node : KeyNode} (readable : image.keyNode? image.baseBlock.rootOffset = some node) :
      FoundByName lookup image.baseBlock.rootOffset
  | named {offset target : UInt32} {node : KeyNode} {name : String}
      (above : FoundByName lookup offset) (readable : image.keyNode? offset = some node)
      (listed : name ∈ image.subkeyNames node)
      (leads : (KeyPath.components name).foldlM lookup offset = some target) :
      FoundByName lookup target

variable {image}

section Lookup

variable {parent next : FoundKey}

/-- A name leads to a subkey, whose node is read at its cell. -/
theorem readable_of_subkey? {name : String} (found : image.subkey? parent name = some next) :
    image.keyNode? next.offset = some next.node := by
  unfold subkey? at found
  split at found
  · obtain ⟨offset, -, under⟩ := Option.bind_eq_some_iff.mp found
    obtain ⟨node, readable, rfl⟩ := Option.map_eq_some_iff.mp under
    exact readable
  · cases found

/-- A name leads to a key in the list, in some spelling. -/
theorem exists_child_of_findChild? {list offset : UInt32} {name : String}
    (found : image.findChild? list name = some offset) :
    ∃ child ∈ image.childrenAt list, child.offset = offset ∧ Text.SameName child.name name ∧
      ∃ node, image.keyNode? offset = some node ∧ node.name = child.name := by
  rw [findChild?_eq] at found
  obtain ⟨child, first, rfl⟩ := Option.map_eq_some_iff.mp found
  have listed := List.mem_of_find?_eq_some first
  have same : Text.SameName child.name name := by
    have passes := List.find?_some first
    exact beq_iff_eq.mp passes
  exact ⟨child, listed, rfl, same, keyNode?_of_mem_childrenAt listed⟩

/-- The cell that a name leads to depends on the cell above only. -/
theorem subkey?_offset (readable : image.keyNode? parent.offset = some parent.node)
    (name : String) :
    (image.subkey? parent name).map (·.offset) = image.childNamed? parent.offset name := by
  rw [subkey?, childNamed?, readable, Option.bind_some]
  split
  · cases found : image.findChild? parent.node.subkeyList name with
    | none => rfl
    | some offset =>
        obtain ⟨-, -, -, -, node, readable', -⟩ := exists_child_of_findChild? found
        change (image.subkeyAt? parent offset).map (·.offset) = some offset
        rw [subkeyAt?, readable']
        rfl
  · rfl

/-- The cell that names lead to depends on the cell that they start from only. -/
theorem descend_offset (readable : image.keyNode? parent.offset = some parent.node)
    (names : List String) :
    (image.descend parent names).map (·.offset) =
      names.foldlM image.childNamed? parent.offset := by
  induction names generalizing parent with
  | nil => rfl
  | cons name rest ih =>
      have first := subkey?_offset readable name
      rw [List.foldlM_cons, ← first, descend]
      cases found : image.subkey? parent name with
      | none => rfl
      | some next => exact ih (readable_of_subkey? found)

theorem readable_of_descend (readable : image.keyNode? parent.offset = some parent.node)
    {names : List String} (found : image.descend parent names = some next) :
    image.keyNode? next.offset = some next.node := by
  induction names generalizing parent with
  | nil =>
      obtain rfl := Option.some.inj found
      exact readable
  | cons name rest ih =>
      rw [descend] at found
      split at found
      · cases found
      · rename_i middle first
        exact ih (readable_of_subkey? first) found

theorem resolve_nil (image : HiveImage) : image.resolve [] = image.root? := by
  rw [resolve]
  cases image.root? <;> rfl

/-- The node of a key that was found is the one at its cell. -/
theorem readable_of_resolve {names : List String} (found : image.resolve names = some next) :
    image.keyNode? next.offset = some next.node := by
  unfold resolve at found
  split at found
  · cases found
  · rename_i root root_eq
    obtain ⟨node, readable, rfl⟩ := Option.map_eq_some_iff.mp root_eq
    exact readable_of_descend readable found

end Lookup

end HiveImage

namespace PendingKey

variable {image : HiveImage}

/-- The cell that a path leads to. -/
def cell? (pending : PendingKey image) : Option UInt32 := pending.found.map (·.offset)

theorem cell?_root : (PendingKey.root image).cell? = image.root?.map (·.offset) := by
  change (image.resolve (KeyPath.components "")).map (·.offset) = _
  rw [KeyPath.components_empty, HiveImage.resolve_nil]

/-- The paths below a key lead to the cells that the names of its subkeys lead to from it. -/
theorem map_cell?_subkeys {relative : String} {parent : FoundKey}
    (leads : image.resolve (KeyPath.components relative) = some parent) :
    (PendingKey.subkeys leads).map cell? =
      (image.subkeyNames parent.node).map fun name =>
        (KeyPath.components name).foldlM image.childNamed? parent.offset := by
  unfold subkeys HiveImage.subkeyNames
  split
  · rename_i hasSubkeys
    simp only [HiveImage.childNames, List.map_map]
    apply List.map_congr_left
    intro child _
    change (image.descendIn _ parent (KeyPath.components child.name)).map (·.offset) = _
    rw [image.descendIn_eq hasSubkeys]
    exact HiveImage.descend_offset (HiveImage.readable_of_resolve leads) _
  · rfl

variable {relative : String} {parent : FoundKey}
  {leads : image.resolve (KeyPath.components relative) = some parent}

theorem exists_name_of_mem_subkeys {pending : PendingKey image}
    (member : pending ∈ PendingKey.subkeys leads) :
    ∃ name ∈ image.subkeyNames parent.node,
      pending.cell? = (KeyPath.components name).foldlM image.childNamed? parent.offset := by
  have cell := List.mem_map_of_mem (f := cell?) member
  rw [map_cell?_subkeys leads] at cell
  obtain ⟨name, listed, same⟩ := List.mem_map.mp cell
  exact ⟨name, listed, same.symm⟩

theorem exists_mem_subkeys (leads : image.resolve (KeyPath.components relative) = some parent)
    {name : String} (listed : name ∈ image.subkeyNames parent.node) :
    ∃ pending ∈ PendingKey.subkeys leads,
      pending.cell? = (KeyPath.components name).foldlM image.childNamed? parent.offset := by
  have cell := List.mem_map_of_mem
    (f := fun name => (KeyPath.components name).foldlM image.childNamed? parent.offset) listed
  rw [← map_cell?_subkeys leads] at cell
  obtain ⟨pending, member, same⟩ := List.mem_map.mp cell
  exact ⟨pending, member, same⟩

end PendingKey

namespace Traversal

variable {image : HiveImage} {traversal next : Traversal image}

/-- What a step does: it takes the next path, and passes it over when it leads nowhere or to a cell
that was visited before; otherwise it hands out the key there, visits its cell and puts the paths
below it in front. -/
theorem step_cases {handed : Option FoundKey} (step : traversal.step = some (handed, next)) :
    ∃ first rest, traversal.pending = first :: rest ∧
      ((handed = none ∧ next = { traversal with pending := rest } ∧
          ∀ offset, first.cell? = some offset → offset ∈ traversal.visited) ∨
        ∃ found, ∃ leads : image.resolve (KeyPath.components first.relative) = some found,
          handed = some found ∧ first.cell? = some found.offset ∧
            found.offset ∉ traversal.visited ∧
            next = { pending := PendingKey.subkeys leads ++ rest
                     visited := traversal.visited.insert found.offset }) := by
  obtain ⟨pending, visited⟩ := traversal
  unfold Traversal.step at step
  split at step
  · cases step
  · rename_i relative found_eq rest pending_eq
    cases step
    refine ⟨_, rest, pending_eq, .inl ⟨rfl, rfl, ?_⟩⟩
    intro offset leads
    cases leads
  · rename_i relative found leads rest pending_eq
    split at step
    · rename_i before
      cases step
      refine ⟨_, rest, pending_eq, .inl ⟨rfl, rfl, ?_⟩⟩
      intro offset same
      cases same
      exact before
    · rename_i fresh
      cases step
      exact ⟨_, rest, pending_eq, .inr ⟨found, leads.symm, rfl, rfl, fresh, rfl⟩⟩

/-- A step that hands out nothing passes a path over. -/
theorem exists_of_passed (step : traversal.step = some (none, next)) :
    ∃ first rest, traversal.pending = first :: rest ∧ next = { traversal with pending := rest } ∧
      ∀ offset, first.cell? = some offset → offset ∈ traversal.visited := by
  obtain ⟨first, rest, pending, ⟨-, same, before⟩ | ⟨_, _, handed, -⟩⟩ := step_cases step
  · exact ⟨first, rest, pending, same, before⟩
  · cases handed

/-- A step that hands out a key visits its cell and goes on below it. -/
theorem exists_of_handed {found : FoundKey} (step : traversal.step = some (some found, next)) :
    ∃ first rest, ∃ leads : image.resolve (KeyPath.components first.relative) = some found,
      traversal.pending = first :: rest ∧ first.cell? = some found.offset ∧
        found.offset ∉ traversal.visited ∧
        next = { pending := PendingKey.subkeys leads ++ rest
                 visited := traversal.visited.insert found.offset } := by
  obtain ⟨first, rest, pending, ⟨none, -⟩ | ⟨_, leads, handed, cell, fresh, same⟩⟩ :=
    step_cases step
  · cases none
  · cases handed
    exact ⟨first, rest, leads, pending, cell, fresh, same⟩

/-- A traversal ends when no path is left. -/
theorem pending_of_ended (last : traversal.step = none) : traversal.pending = [] := by
  obtain ⟨pending, visited⟩ := traversal
  unfold Traversal.step at last
  split at last
  · assumption
  · cases last
  · split at last <;> cases last

/-- A traversal hands out these keys one after the other and ends. -/
inductive Run : Traversal image → List FoundKey → Prop
  | ended {traversal : Traversal image} (last : traversal.step = none) : Run traversal []
  | passed {traversal next : Traversal image} {keys : List FoundKey}
      (step : traversal.step = some (none, next)) (rest : Run next keys) : Run traversal keys
  | handed {traversal next : Traversal image} {found : FoundKey} {keys : List FoundKey}
      (step : traversal.step = some (some found, next)) (rest : Run next keys) :
      Run traversal (found :: keys)

/-- Collecting the keys of a traversal is a run of it. -/
theorem exists_run (traversal : Traversal image) (done : Array FoundKey) :
    ∃ keys, traversal.Run keys ∧ (traversal.collect done).toList = done.toList ++ keys := by
  fun_induction Traversal.collect traversal done with
  | case1 traversal done last => exact ⟨[], .ended last, (List.append_nil _).symm⟩
  | case2 traversal done next step ih =>
      obtain ⟨keys, run, collected⟩ := ih
      exact ⟨keys, .passed step run, collected⟩
  | case3 traversal done found next step ih =>
      obtain ⟨keys, run, collected⟩ := ih
      refine ⟨found :: keys, .handed step run, ?_⟩
      rw [collected, Array.toList_push, List.append_assoc, List.singleton_append]

/-- A traversal of all keys is finite: it ends after it has handed out the keys of the image. -/
theorem run_start (image : HiveImage) : (Traversal.start image).Run image.visitedKeys := by
  obtain ⟨keys, run, collected⟩ := exists_run (Traversal.start image) #[]
  have same : image.visitedKeys = keys := collected
  rwa [same]

namespace Run

variable {keys : List FoundKey}

/-- Names lead to every key that a traversal hands out. -/
theorem exists_resolve (run : traversal.Run keys) :
    ∀ key ∈ keys, ∃ names, image.resolve names = some key := by
  induction run with
  | ended last => exact fun key member => absurd member List.not_mem_nil
  | passed step rest ih => exact ih
  | handed step rest ih =>
      intro key member
      obtain rfl | later := List.mem_cons.mp member
      · obtain ⟨_, _, leads, -⟩ := exists_of_handed step
        exact ⟨_, leads⟩
      · exact ih key later

/-- A traversal hands out the nodes at the cells that it visits. -/
theorem readable (run : traversal.Run keys) :
    ∀ key ∈ keys, image.keyNode? key.offset = some key.node := by
  intro key member
  obtain ⟨names, leads⟩ := run.exists_resolve key member
  exact HiveImage.readable_of_resolve leads

/-- No cell is visited twice, and none that was visited before. -/
theorem distinct (run : traversal.Run keys) :
    (∀ key ∈ keys, key.offset ∉ traversal.visited) ∧ (keys.map (·.offset)).Nodup := by
  induction run with
  | ended last => exact ⟨fun key member => absurd member List.not_mem_nil, List.nodup_nil⟩
  | passed step rest ih =>
      obtain ⟨_, _, -, rfl, -⟩ := exists_of_passed step
      exact ih
  | handed step rest ih =>
      obtain ⟨_, _, _, -, -, fresh, rfl⟩ := exists_of_handed step
      obtain ⟨outside, distinct⟩ := ih
      constructor
      · intro key member
        rcases List.mem_cons.mp member with rfl | later
        · exact fresh
        · intro before
          exact outside key later (Std.HashSet.mem_insert.mpr (.inr before))
      · refine List.nodup_cons.mpr ⟨?_, distinct⟩
        intro again
        obtain ⟨key, later, same⟩ := List.mem_map.mp again
        exact outside key later (Std.HashSet.mem_insert.mpr (.inl (beq_iff_eq.mpr same.symm)))

/-- Every cell that a run visits is one of a set of cells, if the paths to come lead into the set
and names lead from its cells to its cells. -/
theorem sound {cells : UInt32 → Prop} (run : traversal.Run keys)
    (closed : ∀ {offset target node name}, cells offset → image.keyNode? offset = some node →
      name ∈ image.subkeyNames node →
      (KeyPath.components name).foldlM image.childNamed? offset = some target → cells target)
    (pending : ∀ first ∈ traversal.pending, ∀ offset, first.cell? = some offset → cells offset) :
    ∀ key ∈ keys, cells key.offset := by
  induction run with
  | ended last => exact fun key member => absurd member List.not_mem_nil
  | passed step rest ih =>
      obtain ⟨first, later, pending_eq, rfl, -⟩ := exists_of_passed step
      apply ih
      intro other member
      exact pending other (pending_eq ▸ List.mem_cons_of_mem first member)
  | @handed _ _ found keys step rest ih =>
      obtain ⟨first, later, leads, pending_eq, cell, -, rfl⟩ := exists_of_handed step
      have here : cells found.offset :=
        pending first (pending_eq ▸ List.mem_cons_self) found.offset cell
      have below : ∀ key ∈ keys, cells key.offset := by
        apply ih
        intro other member offset target
        rcases List.mem_append.mp member with under | after
        · obtain ⟨name, listed, named⟩ := PendingKey.exists_name_of_mem_subkeys under
          exact closed here (HiveImage.readable_of_resolve leads) listed (named.symm.trans target)
        · exact pending other (pending_eq ▸ List.mem_cons_of_mem first after) offset target
      intro key member
      rcases List.mem_cons.mp member with rfl | later
      · exact here
      · exact below key later

/-- A run visits every cell that a path to come leads to, unless it was visited before, and so it
does with the cells that names lead to from the keys that it hands out. -/
theorem complete (run : traversal.Run keys) :
    (∀ first ∈ traversal.pending, ∀ offset, first.cell? = some offset →
      offset ∈ traversal.visited ∨ offset ∈ keys.map (·.offset)) ∧
    ∀ key ∈ keys, ∀ name ∈ image.subkeyNames key.node, ∀ offset,
      (KeyPath.components name).foldlM image.childNamed? key.offset = some offset →
      offset ∈ traversal.visited ∨ offset ∈ keys.map (·.offset) := by
  induction run with
  | ended last =>
      rw [pending_of_ended last]
      exact ⟨fun first member => absurd member List.not_mem_nil,
        fun key member => absurd member List.not_mem_nil⟩
  | passed step rest ih =>
      obtain ⟨first, later, pending_eq, rfl, before⟩ := exists_of_passed step
      obtain ⟨pending, names⟩ := ih
      refine ⟨?_, names⟩
      rw [pending_eq]
      intro other member offset target
      rcases List.mem_cons.mp member with rfl | after
      · exact .inl (before offset target)
      · exact pending other after offset target
  | @handed traversal _ found keys step rest ih =>
      obtain ⟨first, later, leads, pending_eq, cell, -, rfl⟩ := exists_of_handed step
      obtain ⟨pending, names⟩ := ih
      -- For the rest of the run the cell of the key that is handed out counts as visited.
      have covered {offset : UInt32}
          (h : offset ∈ traversal.visited.insert found.offset ∨ offset ∈ keys.map (·.offset)) :
          offset ∈ traversal.visited ∨ offset ∈ (found :: keys).map (·.offset) := by
        rcases h with inserted | after
        · rcases Std.HashSet.mem_insert.mp inserted with same | before
          · exact .inr (List.mem_cons.mpr (.inl (eq_of_beq same).symm))
          · exact .inl before
        · exact .inr (List.mem_cons_of_mem found.offset after)
      constructor
      · rw [pending_eq]
        intro other member offset target
        rcases List.mem_cons.mp member with rfl | after
        · cases cell.symm.trans target
          exact .inr List.mem_cons_self
        · exact covered (pending other (List.mem_append_right _ after) offset target)
      · intro key member name listed offset target
        rcases List.mem_cons.mp member with rfl | after
        · obtain ⟨under, inSubkeys, named⟩ := PendingKey.exists_mem_subkeys leads listed
          exact covered (pending under (List.mem_append_left _ inSubkeys) offset
            (named.trans target))
        · exact covered (names key after name listed offset target)

end Run

end Traversal

namespace HiveImage

variable {image : HiveImage}

/-- The cells that a traversal visits are those that are found by name. -/
theorem mem_visitedKeys_iff (offset : UInt32) :
    offset ∈ image.visitedKeys.map (·.offset) ↔ image.FoundByName image.childNamed? offset := by
  have run := Traversal.run_start image
  obtain ⟨root, names⟩ := run.complete
  constructor
  · intro visited
    obtain ⟨key, member, rfl⟩ := List.mem_map.mp visited
    apply run.sound ?_ ?_ key member
    · intro offset target node name above readable listed leads
      exact .named above readable listed leads
    · intro first only offset leads
      obtain rfl := List.mem_singleton.mp only
      rw [PendingKey.cell?_root, Option.map_eq_some_iff] at leads
      obtain ⟨found, isRoot, rfl⟩ := leads
      obtain ⟨node, readable, rfl⟩ := Option.map_eq_some_iff.mp isRoot
      exact .root readable
  · intro found
    have visited {offset : UInt32} (h : offset ∈ (∅ : OffsetSet) ∨
        offset ∈ image.visitedKeys.map (·.offset)) : offset ∈ image.visitedKeys.map (·.offset) :=
      h.resolve_left Std.HashSet.not_mem_empty
    induction found with
    | root readable =>
        apply visited
        apply root (.root image) List.mem_cons_self
        rw [PendingKey.cell?_root, root?, readable]
        rfl
    | named above readable listed leads ih =>
        obtain ⟨key, member, rfl⟩ := List.mem_map.mp ih
        cases (run.readable key member).symm.trans readable
        exact visited (names key member _ listed _ leads)

end HiveImage

end RegistryHive
