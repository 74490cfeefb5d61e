import Mathlib.Data.List.Forall2
import RegistryHive.Hive.Traversal
import RegistryHive.Proofs.Traversal.Walk

/-!
# Traversal as plain recursion

A traversal of a hive keeps paths and finds the key at each path anew from the
root. Plain recursion goes from cell to cell instead: `visit` passes over a cell
that was visited before, and otherwise hands out its key and visits the subkeys
one after the other, with the visited cells handed on from each to the next.

The two agree where names lead back to the cells they were read from, which is
what `WellNamed` asks of every reachable key. `Stands` relates a path of the
traversal to the cell and the full path that recursion works with;
`stands_subkeys` says that a step of the traversal keeps the relation, and
`toList_collect_eq` carries it through a whole traversal.
-/

namespace RegistryHive

namespace HiveImage

/-- The subkeys of a key, in order. A key that declares none has none. -/
def subkeysOf (image : HiveImage) (node : KeyNode) : List ChildKey :=
  if node.hasSubkeys then image.childrenAt node.subkeyList else []

theorem mem_subkeysOf_iff {image : HiveImage} {node : KeyNode} {child : ChildKey} :
    child ∈ image.subkeysOf node ↔
      node.hasSubkeys = true ∧ child ∈ image.childrenAt node.subkeyList := by
  unfold subkeysOf
  split <;> simp [*]

/-- A subkey can be read, and it bears the name under which it is listed. -/
theorem keyNode?_of_mem_subkeysOf {image : HiveImage} {node : KeyNode} {child : ChildKey}
    (listed : child ∈ image.subkeysOf node) :
    ∃ below, image.keyNode? child.offset = some below ∧ below.name = child.name :=
  keyNode?_of_mem_childrenAt (mem_subkeysOf_iff.mp listed).2

theorem subkeyNames_eq (image : HiveImage) (node : KeyNode) :
    image.subkeyNames node = (image.subkeysOf node).map (·.name) := by
  unfold subkeyNames subkeysOf
  split <;> rfl

/-- The key cells that can be reached from the root. -/
inductive Reachable (image : HiveImage) : UInt32 → Prop
  | root {node : KeyNode} (readable : image.keyNode? image.baseBlock.rootOffset = some node) :
      Reachable image image.baseBlock.rootOffset
  | subkey {offset : UInt32} {node : KeyNode} {child : ChildKey} (above : Reachable image offset)
      (readable : image.keyNode? offset = some node) (listed : child ∈ image.subkeysOf node) :
      Reachable image child.offset

/-- The names below every reachable key can be used in paths and tell its subkeys apart: they are
not empty, they hold no separator, and two of them that agree in lower case belong to one cell. -/
def WellNamed (image : HiveImage) : Prop :=
  ∀ offset node, image.Reachable offset → image.keyNode? offset = some node →
    ∀ child ∈ image.subkeysOf node,
      child.name ≠ "" ∧ KeyPath.separator ∉ child.name.toList ∧
        ∀ other ∈ image.subkeysOf node, Text.SameName other.name child.name →
          other.offset = child.offset

/-- What a visit hands out, and the cells that have been visited after it, of which there are at
least as many as before. -/
structure Visit (visited : OffsetSet) where
  keys : List FoundKey
  after : OffsetSet
  missing_le : OffsetSet.missing after ≤ OffsetSet.missing visited

/-- Nothing is visited. -/
def Visit.nothing (visited : OffsetSet) : Visit visited :=
  { keys := [], after := visited, missing_le := Nat.le_refl _ }

mutual

/-- Visits the key at an offset, which is found under a path, and everything below it. -/
def visit (image : HiveImage) (visited : OffsetSet) (offset : UInt32) (path : String) :
    Visit visited :=
  if fresh : offset ∈ visited then .nothing visited
  else
    match image.keyNode? offset with
    | none => .nothing visited
    | some node =>
      let below := visitAll image (visited.insert offset)
        ((image.subkeysOf node).map fun child =>
          (child.offset, KeyPath.append path child.name))
      { keys := { offset := offset, node := node, path := path } :: below.keys
        after := below.after
        missing_le :=
          Nat.le_trans below.missing_le (Nat.le_of_lt (OffsetSet.missing_insert_lt fresh)) }
termination_by (OffsetSet.missing visited, 0)
decreasing_by exact .left _ _ (OffsetSet.missing_insert_lt fresh)

/-- Visits keys one after the other, each given by its offset and its path. -/
def visitAll (image : HiveImage) (visited : OffsetSet) :
    List (UInt32 × String) → Visit visited
  | [] => .nothing visited
  | (offset, path) :: rest =>
    let first := visit image visited offset path
    have grown := first.missing_le
    let others := visitAll image first.after rest
    { keys := first.keys ++ others.keys
      after := others.after
      missing_le := Nat.le_trans others.missing_le grown }
termination_by keys => (OffsetSet.missing visited, keys.length + 1)
decreasing_by
  · exact .right _ (Nat.succ_pos _)
  · rcases Nat.lt_or_eq_of_le grown with less | same
    · exact .left _ _ less
    · rw [same]
      exact .right _ (Nat.lt_succ_self _)

end

/-- All keys of an image, in the pre-order of plain recursion from the root cell. -/
def preorder (image : HiveImage) : List FoundKey :=
  match image.root? with
  | none => []
  | some root => (visit image ∅ root.offset root.path).keys

section Visit

variable {image : HiveImage} {visited : OffsetSet} {offset : UInt32} {node : KeyNode}

/-- A cell that was visited before is passed over. -/
theorem visit_of_mem (member : offset ∈ visited) (path : String) :
    visit image visited offset path = .nothing visited := by
  rw [visit, dif_pos member]

theorem keys_visit_of_not_mem (fresh : offset ∉ visited)
    (readable : image.keyNode? offset = some node) (path : String) :
    (visit image visited offset path).keys =
      { offset := offset, node := node, path := path } ::
        (visitAll image (visited.insert offset) ((image.subkeysOf node).map fun child =>
          (child.offset, KeyPath.append path child.name))).keys := by
  rw [visit, dif_neg fresh]
  split <;> simp_all

theorem after_visit_of_not_mem (fresh : offset ∉ visited)
    (readable : image.keyNode? offset = some node) (path : String) :
    (visit image visited offset path).after =
      (visitAll image (visited.insert offset) ((image.subkeysOf node).map fun child =>
        (child.offset, KeyPath.append path child.name))).after := by
  rw [visit, dif_neg fresh]
  split <;> simp_all

@[simp] theorem keys_visitAll_nil : (visitAll image visited []).keys = [] := by
  rw [visitAll]
  rfl

@[simp] theorem after_visitAll_nil : (visitAll image visited []).after = visited := by
  rw [visitAll]
  rfl

theorem keys_visitAll_cons (path : String) (rest : List (UInt32 × String)) :
    (visitAll image visited ((offset, path) :: rest)).keys =
      (visit image visited offset path).keys ++
        (visitAll image (visit image visited offset path).after rest).keys := by
  rw [visitAll]

theorem after_visitAll_cons (path : String) (rest : List (UInt32 × String)) :
    (visitAll image visited ((offset, path) :: rest)).after =
      (visitAll image (visit image visited offset path).after rest).after := by
  rw [visitAll]

/-- Keys that are visited after others find the cells of these visited. -/
theorem keys_visitAll_append (targets later : List (UInt32 × String)) :
    (visitAll image visited (targets ++ later)).keys =
      (visitAll image visited targets).keys ++
        (visitAll image (visitAll image visited targets).after later).keys := by
  induction targets generalizing visited with
  | nil => rw [List.nil_append, keys_visitAll_nil, after_visitAll_nil, List.nil_append]
  | cons target rest ih =>
      obtain ⟨offset, path⟩ := target
      rw [List.cons_append, keys_visitAll_cons, keys_visitAll_cons, after_visitAll_cons, ih,
        List.append_assoc]

end Visit

end HiveImage

namespace Traversal

variable {image : HiveImage} {traversal next : Traversal image}

theorem collect_of_ended (h : traversal.step = none) (keys : Array FoundKey) :
    traversal.collect keys = keys := by
  rw [collect]
  split <;> simp_all

theorem collect_of_step {found : Option FoundKey} (h : traversal.step = some (found, next))
    (keys : Array FoundKey) :
    traversal.collect keys = next.collect (keys ++ found.toArray) := by
  rw [collect]
  split
  · simp_all
  · rename_i taken
    cases h.symm.trans taken
    simp
  · rename_i taken
    cases h.symm.trans taken
    simp

/-- A path that leads nowhere is passed over. -/
theorem step_of_found_eq_none {first : PendingKey image} (nowhere : first.found = none)
    (rest : List (PendingKey image)) (visited : OffsetSet) :
    step { pending := first :: rest, visited := visited } =
      some (none, { pending := rest, visited := visited }) := by
  obtain ⟨relative, found, found_eq⟩ := first
  obtain rfl : found = none := nowhere
  rfl

end Traversal

section Refinement

variable {image : HiveImage}

/-- A path of a traversal leads to a key cell that can be reached, and the key there has the
offset and the path that recursion gives it. -/
def Stands (pending : PendingKey image) (target : UInt32 × String) : Prop :=
  ∃ found, pending.found = some found ∧ image.Reachable found.offset ∧
    image.keyNode? found.offset = some found.node ∧ target = (found.offset, found.path)

theorem stands_root {root : FoundKey} (h : image.root? = some root) :
    Stands (.root image) (root.offset, root.path) := by
  have leads : (PendingKey.root image).found = some root := by
    change image.resolve (KeyPath.components "") = some root
    rw [KeyPath.components_empty, HiveImage.resolve, h]
    rfl
  obtain ⟨node, readable, rfl⟩ := Option.map_eq_some_iff.mp h
  exact ⟨_, leads, .root readable, readable, rfl⟩

/-- A name that belongs to one cell of a list leads to this cell. -/
theorem HiveImage.findChild?_of_unique {list : UInt32} {child : ChildKey}
    (listed : child ∈ image.childrenAt list)
    (unique : ∀ other ∈ image.childrenAt list, Text.SameName other.name child.name →
      other.offset = child.offset) :
    image.findChild? list child.name = some child.offset := by
  rw [HiveImage.findChild?_eq]
  cases first : (image.childrenAt list).find? fun other =>
      Text.lowerCase other.name == Text.lowerCase child.name with
  | none =>
      have differs := List.find?_eq_none.mp first child listed
      exact absurd (beq_self_eq_true _) differs
  | some other =>
      have same : Text.SameName other.name child.name := by
        have found := List.find?_some first
        exact beq_iff_eq.mp found
      rw [Option.map_some, unique other (List.mem_of_find?_eq_some first) same]

/-- Where names tell the subkeys of a key apart, the name of a subkey leads to its own cell. -/
theorem findChild?_of_wellNamed (wellNamed : image.WellNamed) {offset : UInt32} {node : KeyNode}
    (reachable : image.Reachable offset) (readable : image.keyNode? offset = some node)
    (hasSubkeys : node.hasSubkeys = true) {child : ChildKey}
    (listed : child ∈ image.childrenAt node.subkeyList) :
    image.findChild? node.subkeyList child.name = some child.offset := by
  obtain ⟨-, -, unique⟩ := wellNamed offset node reachable readable child
    (HiveImage.mem_subkeysOf_iff.mpr ⟨hasSubkeys, listed⟩)
  apply HiveImage.findChild?_of_unique listed
  intro other listed'
  exact unique other (HiveImage.mem_subkeysOf_iff.mpr ⟨hasSubkeys, listed'⟩)

/-- Where names tell the subkeys of a key apart, the name of a subkey leads to it as a path. -/
theorem descend_of_wellNamed (wellNamed : image.WellNamed) {parent : FoundKey}
    (reachable : image.Reachable parent.offset)
    (readable : image.keyNode? parent.offset = some parent.node) {child : ChildKey}
    (subkey : child ∈ image.subkeysOf parent.node) :
    ∃ node, image.keyNode? child.offset = some node ∧
      image.descend parent (KeyPath.components child.name) =
        some { offset := child.offset, node := node
               path := KeyPath.append parent.path child.name } := by
  obtain ⟨nonempty, simple, -⟩ :=
    wellNamed parent.offset parent.node reachable readable child subkey
  obtain ⟨hasSubkeys, subkey⟩ := HiveImage.mem_subkeysOf_iff.mp subkey
  obtain ⟨node, child_readable, name⟩ := HiveImage.keyNode?_of_mem_childrenAt subkey
  refine ⟨node, child_readable, ?_⟩
  have found : image.subkey? parent child.name =
      some { offset := child.offset, node := node
             path := KeyPath.append parent.path child.name } := by
    rw [HiveImage.subkey?, if_pos hasSubkeys,
      findChild?_of_wellNamed wellNamed reachable readable hasSubkeys subkey, Option.bind_some,
      HiveImage.subkeyAt?, child_readable, Option.map_some, name]
  -- The name is a path of one component, so it is looked up once, below the parent.
  rw [KeyPath.components_of_name nonempty simple, HiveImage.descend, found]
  rfl

/-- The paths below a key lead to its subkeys, under the paths that recursion gives them. -/
theorem stands_below (wellNamed : image.WellNamed) {relative : String} {parent : FoundKey}
    (leads : image.resolve (KeyPath.components relative) = some parent)
    (reachable : image.Reachable parent.offset)
    (readable : image.keyNode? parent.offset = some parent.node)
    (hasSubkeys : parent.node.hasSubkeys = true) {child : ChildKey}
    (listed : child ∈ image.childrenAt parent.node.subkeyList) :
    Stands (.below leads hasSubkeys _ rfl child.name)
      (child.offset, KeyPath.append parent.path child.name) := by
  have subkey : child ∈ image.subkeysOf parent.node := by
    rw [HiveImage.subkeysOf, if_pos hasSubkeys]
    exact listed
  obtain ⟨node, child_readable, found⟩ :=
    descend_of_wellNamed wellNamed reachable readable subkey
  refine ⟨{ offset := child.offset, node := node, path := KeyPath.append parent.path child.name },
    ?_, .subkey reachable readable subkey, child_readable, rfl⟩
  change image.descendIn _ parent (KeyPath.components child.name) = _
  rw [image.descendIn_eq hasSubkeys, found]

/-- The paths that a step of a traversal adds lead to the subkeys that recursion visits. -/
theorem stands_subkeys (wellNamed : image.WellNamed) {relative : String} {parent : FoundKey}
    (leads : image.resolve (KeyPath.components relative) = some parent)
    (reachable : image.Reachable parent.offset)
    (readable : image.keyNode? parent.offset = some parent.node) :
    List.Forall₂ Stands (PendingKey.subkeys leads)
      ((image.subkeysOf parent.node).map fun child =>
        (child.offset, KeyPath.append parent.path child.name)) := by
  unfold PendingKey.subkeys HiveImage.subkeysOf
  split
  · rename_i hasSubkeys
    rw [List.forall₂_map_left_iff, List.forall₂_map_right_iff, List.forall₂_same]
    intro child listed
    exact stands_below wellNamed leads reachable readable hasSubkeys listed
  · exact .nil

/-- A step of a traversal whose next path leads to a cell: it is passed over when the cell was
visited before, and otherwise its key is handed out and the paths of its subkeys come next. -/
theorem step_of_stands {first : PendingKey image} {rest : List (PendingKey image)}
    {visited : OffsetSet} {offset : UInt32} {path : String} (stands : Stands first (offset, path)) :
    (offset ∈ visited ∧
      Traversal.step { pending := first :: rest, visited := visited } =
        some (none, { pending := rest, visited := visited })) ∨
    (offset ∉ visited ∧ image.Reachable offset ∧ ∃ node,
      image.keyNode? offset = some node ∧
      ∃ leads : image.resolve (KeyPath.components first.relative) =
          some { offset := offset, node := node, path := path },
        Traversal.step { pending := first :: rest, visited := visited } =
          some (some { offset := offset, node := node, path := path },
            { pending := PendingKey.subkeys leads ++ rest
              visited := visited.insert offset })) := by
  obtain ⟨relative, led, found_eq⟩ := first
  obtain ⟨found, rfl, reachable, readable, same⟩ := stands
  obtain ⟨rfl, rfl⟩ := Prod.ext_iff.mp same
  by_cases member : found.offset ∈ visited
  · exact .inl ⟨member, by simp only [Traversal.step]; rw [if_pos member]⟩
  · refine .inr ⟨member, reachable, found.node, readable, found_eq.symm, ?_⟩
    simp only [Traversal.step]
    rw [if_neg member]

/-- A traversal whose paths lead to some cells hands out what recursion hands out when it visits
these cells one after the other. -/
theorem toList_collect_eq (wellNamed : image.WellNamed) (traversal : Traversal image)
    (keys : Array FoundKey) {targets : List (UInt32 × String)}
    (stands : List.Forall₂ Stands traversal.pending targets) :
    (traversal.collect keys).toList =
      keys.toList ++ (HiveImage.visitAll image traversal.visited targets).keys := by
  fun_induction Traversal.collect traversal keys generalizing targets with
  | case1 traversal keys ended =>
      obtain ⟨pending, visited⟩ := traversal
      cases stands with
      | nil => simp
      | cons first rest =>
          rcases step_of_stands first with ⟨-, step⟩ | ⟨-, -, _, -, _, step⟩
          · exact absurd (ended.symm.trans step) (by simp)
          · exact absurd (ended.symm.trans step) (by simp)
  | case2 traversal keys next taken ih =>
      obtain ⟨pending, visited⟩ := traversal
      cases stands with
      | nil => simp [Traversal.step] at taken
      | @cons _ target _ _ first rest =>
          obtain ⟨offset, path⟩ := target
          rcases step_of_stands first with ⟨member, step⟩ | ⟨-, -, _, -, _, step⟩
          · obtain ⟨-, rfl⟩ := Prod.ext_iff.mp (Option.some.inj (taken.symm.trans step))
            rw [HiveImage.keys_visitAll_cons, HiveImage.visit_of_mem member]
            exact ih rest
          · exact absurd (taken.symm.trans step) (by simp)
  | case3 traversal keys found next taken ih =>
      obtain ⟨pending, visited⟩ := traversal
      cases stands with
      | nil => simp [Traversal.step] at taken
      | @cons _ target _ _ first rest =>
          obtain ⟨offset, path⟩ := target
          obtain ⟨-, step⟩ | ⟨fresh, reachable, node, readable, leads, step⟩ :=
            step_of_stands first
          · exact absurd (taken.symm.trans step) (by simp)
          · obtain ⟨found_eq, rfl⟩ := Prod.ext_iff.mp (Option.some.inj (taken.symm.trans step))
            obtain rfl := Option.some.inj found_eq
            have below := stands_subkeys wellNamed leads reachable readable
            rw [ih (List.rel_append below rest), HiveImage.keys_visitAll_cons,
              HiveImage.keys_visit_of_not_mem fresh readable,
              HiveImage.after_visit_of_not_mem fresh readable, HiveImage.keys_visitAll_append]
            simp

/-- Without a root key a traversal hands out nothing. -/
theorem visitedKeys_of_root?_eq_none (h : image.root? = none) : image.visitedKeys = [] := by
  have nowhere : (PendingKey.root image).found = none := by
    change image.resolve (KeyPath.components "") = none
    rw [HiveImage.resolve, h]
  have passed : (Traversal.start image).step = some (none, { pending := [], visited := ∅ }) :=
    Traversal.step_of_found_eq_none nowhere [] ∅
  have ended : ({ pending := [], visited := ∅ } : Traversal image).step = none := rfl
  rw [HiveImage.visitedKeys, Traversal.collect_of_step passed, Traversal.collect_of_ended ended]
  rfl

/-- Where names tell subkeys apart, a traversal hands out the keys of plain recursion. -/
theorem visitedKeys_eq_preorder (wellNamed : image.WellNamed) :
    image.visitedKeys = image.preorder := by
  cases root_eq : image.root? with
  | none => rw [visitedKeys_of_root?_eq_none root_eq, HiveImage.preorder, root_eq]
  | some root =>
      have collected := toList_collect_eq wellNamed (Traversal.start image) #[]
        (.cons (stands_root root_eq) .nil)
      rw [HiveImage.visitedKeys, collected, HiveImage.preorder, root_eq,
        HiveImage.keys_visitAll_cons, HiveImage.keys_visitAll_nil]
      simp [Traversal.start]

end Refinement

end RegistryHive
