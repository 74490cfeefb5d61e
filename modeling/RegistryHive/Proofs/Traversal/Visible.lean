import RegistryHive.Proofs.Traversal.ByName
import RegistryHive.Proofs.Traversal.Components

/-!
# Keys that a traversal can see

A traversal comes to a subkey through its name, and the name is taken as a path.
It leads to the subkey when it is one component and no subkey before it has the
same name. A name that is empty or holds a separator leads elsewhere or nowhere,
and no other name leads to its cell either, since a component is found only as a
component. So what a traversal sees are the cells that are `Visible`: those that
can be reached through names of one component.
-/

namespace RegistryHive

namespace HiveImage

/-- Names tell the subkeys of every reachable key apart: two of them that agree in lower case
belong to one cell. -/
def NamesDistinct (image : HiveImage) : Prop :=
  ∀ offset node, image.Reachable offset → image.keyNode? offset = some node →
    ∀ child ∈ image.subkeysOf node, ∀ other ∈ image.subkeysOf node,
      Text.SameName other.name child.name → other.offset = child.offset

/-- The key cells that can be reached from the root through names of one component. -/
inductive Visible (image : HiveImage) : UInt32 → Prop
  | root {node : KeyNode} (readable : image.keyNode? image.baseBlock.rootOffset = some node) :
      Visible image image.baseBlock.rootOffset
  | subkey {offset : UInt32} {node : KeyNode} {child : ChildKey} (above : Visible image offset)
      (readable : image.keyNode? offset = some node) (listed : child ∈ image.subkeysOf node)
      (component : IsComponent child.name) : Visible image child.offset

variable {image : HiveImage}

theorem WellNamed.namesDistinct (wellNamed : image.WellNamed) : image.NamesDistinct := by
  intro offset node reachable readable child listed
  exact (wellNamed offset node reachable readable child listed).2.2

/-- A name leads to one of the subkeys of a key, in some spelling. -/
theorem exists_child_of_childNamed? {offset target : UInt32} {name : String}
    (found : image.childNamed? offset name = some target) :
    ∃ node, image.keyNode? offset = some node ∧
      ∃ child ∈ image.subkeysOf node, child.offset = target ∧
        Text.SameName child.name name := by
  obtain ⟨node, readable, under⟩ := Option.bind_eq_some_iff.mp found
  split at under
  · rename_i hasSubkeys
    obtain ⟨child, listed, same, spelling, -⟩ := exists_child_of_findChild? under
    exact ⟨node, readable, child, mem_subkeysOf_iff.mpr ⟨hasSubkeys, listed⟩, same, spelling⟩
  · cases under

/-- Where a name belongs to one cell of the list of a key, it leads there from the key. -/
theorem listedNamed?_eq {offset : UInt32} {node : KeyNode}
    (readable : image.keyNode? offset = some node) {child : ChildKey}
    (listed : child ∈ image.childrenAt node.subkeyList)
    (unique : ∀ other ∈ image.childrenAt node.subkeyList,
      Text.SameName other.name child.name → other.offset = child.offset) :
    image.listedNamed? offset child.name = some child.offset := by
  rw [listedNamed?, readable, Option.bind_some]
  exact findChild?_of_unique listed unique

/-- Where names tell the subkeys of a key apart, the name of a subkey leads to it, whether or not
the declared number of subkeys is asked for. -/
theorem childNamed?_eq {offset : UInt32} {node : KeyNode}
    (readable : image.keyNode? offset = some node) {child : ChildKey}
    (listed : child ∈ image.subkeysOf node)
    (unique : ∀ other ∈ image.subkeysOf node, Text.SameName other.name child.name →
      other.offset = child.offset) :
    image.childNamed? offset child.name = some child.offset ∧
      image.listedNamed? offset child.name = some child.offset := by
  obtain ⟨hasSubkeys, inList⟩ := mem_subkeysOf_iff.mp listed
  have named : image.listedNamed? offset child.name = some child.offset := by
    apply listedNamed?_eq readable inList
    intro other inList'
    exact unique other (mem_subkeysOf_iff.mpr ⟨hasSubkeys, inList'⟩)
  refine ⟨?_, named⟩
  rw [listedNamed?, readable, Option.bind_some] at named
  rwa [childNamed?, readable, Option.bind_some, if_pos hasSubkeys]

namespace Visible

variable {offset target : UInt32}

theorem reachable (visible : image.Visible offset) : image.Reachable offset := by
  induction visible with
  | root readable => exact .root readable
  | subkey above readable listed component ih => exact .subkey ih readable listed

/-- A cell below the root is seen under a name of one component only. -/
theorem isComponent (visible : image.Visible offset) (below : offset ≠ image.baseBlock.rootOffset)
    {node : KeyNode} (readable : image.keyNode? offset = some node) : IsComponent node.name := by
  cases visible with
  | root readable' => exact absurd rfl below
  | @subkey _ parent child above parentReadable listed component =>
      obtain ⟨node', readable', name⟩ := keyNode?_of_mem_subkeysOf listed
      cases readable'.symm.trans readable
      rwa [name]

/-- Components lead from visible cells to visible cells. -/
theorem follow {names : List String} (components : ∀ name ∈ names, IsComponent name)
    (visible : image.Visible offset) (leads : names.foldlM image.childNamed? offset = some target) :
    image.Visible target := by
  induction names generalizing offset with
  | nil =>
      obtain rfl := Option.some.inj leads
      exact visible
  | cons name rest ih =>
      obtain ⟨next, found, later⟩ := Option.bind_eq_some_iff.mp leads
      obtain ⟨node, readable, child, listed, rfl, same⟩ := exists_child_of_childNamed? found
      have component := (components name List.mem_cons_self).of_sameName same.symm
      exact ih (fun other member => components other (List.mem_cons_of_mem name member))
        (.subkey visible readable listed component) later

end Visible

/-- Every cell that is found by name is visible. -/
theorem FoundByName.visible {offset : UInt32}
    (found : image.FoundByName image.childNamed? offset) : image.Visible offset := by
  induction found with
  | root readable => exact .root readable
  | named above readable listed leads ih =>
      exact ih.follow (fun name member => .of_mem_components member) leads

/-- Where names tell subkeys apart, every visible cell is found by name. -/
theorem Visible.foundByName (distinct : image.NamesDistinct) {offset : UInt32}
    (visible : image.Visible offset) : image.FoundByName image.childNamed? offset := by
  induction visible with
  | root readable => exact .root readable
  | @subkey offset node child above readable listed component ih =>
      have named : child.name ∈ image.subkeyNames node := by
        rw [subkeyNames_eq]
        exact List.mem_map_of_mem listed
      obtain ⟨found, -⟩ := childNamed?_eq readable listed
        (distinct offset node above.reachable readable child listed)
      apply FoundByName.named ih readable named
      rw [component.components_eq, List.foldlM_cons, found]
      rfl

/-- Nothing is hidden where all names are components. -/
theorem visible_iff_reachable
    (components : ∀ offset node, image.Reachable offset → image.keyNode? offset = some node →
      ∀ child ∈ image.subkeysOf node, IsComponent child.name) (offset : UInt32) :
    image.Visible offset ↔ image.Reachable offset := by
  constructor
  · exact Visible.reachable
  · intro reachable
    induction reachable with
    | root readable => exact .root readable
    | @subkey offset node child above readable listed ih =>
        exact .subkey ih readable listed (components offset node above readable child listed)

end HiveImage

end RegistryHive
