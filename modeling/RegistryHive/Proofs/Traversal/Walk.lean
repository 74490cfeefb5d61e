import RegistryHive.SubkeyWalk

/-!
# What a walk yields

A walk through a list of subkeys yields key nodes that can be read. A leaf yields
the readable ones among its slots (`toList_leaf`), and an index root hands its
slots on to the lists that they name (`toList_indexRoot`).
-/

namespace RegistryHive

namespace SubkeyWalk

variable {image : HiveImage}

theorem child?_eq_some_iff {offset : UInt32} {child : ChildKey} :
    child? image offset = some child ↔
      child.offset = offset ∧
        ∃ node, image.keyNode? offset = some node ∧ node.name = child.name := by
  obtain ⟨name, at'⟩ := child
  rw [child?, Option.map_eq_some_iff]
  constructor
  · rintro ⟨node, readable, same⟩
    cases same
    exact ⟨rfl, node, readable, rfl⟩
  · rintro ⟨rfl, node, readable, rfl⟩
    exact ⟨node, readable, rfl⟩

/-- A step yields a key node that can be read at its offset. -/
theorem child?_of_step {walk next : SubkeyWalk} {child : ChildKey}
    (taken : walk.step image = some (some child, next)) :
    child? image child.offset = some child := by
  unfold step at taken
  split at taken
  · simp at taken
  · split at taken
    · simp only at taken
      split at taken
      · simp at taken
      · obtain ⟨yielded, -⟩ := Prod.ext_iff.mp (Option.some.inj taken)
        obtain ⟨same, -⟩ := child?_eq_some_iff.mp yielded
        rwa [same]
    · simp at taken

/-- Everything that a walk yields is a key node that can be read at its offset. -/
theorem child?_of_mem_toList {walk : SubkeyWalk} {child : ChildKey}
    (member : child ∈ walk.toList image) : child? image child.offset = some child := by
  -- The induction follows the steps of the walk.
  induction walk using find?.induct image (fun _ => false) with
  | case1 walk ended => simp [toList_of_ended ended] at member
  | case2 walk next taken ih =>
      rw [toList_of_step taken] at member
      exact ih (by simpa using member)
  | case3 walk other next taken passes => exact absurd passes (by simp)
  | case4 walk other next taken _ ih =>
      rw [toList_of_step taken] at member
      rcases List.mem_append.mp member with yielded | later
      · rw [show child = other by simpa using yielded]
        exact child?_of_step taken
      · exact ih later

/-- A list with no slots left is left without yielding anything. -/
theorem toList_leave {list : OpenList} (pending : list.pending = []) (outer : List OpenList)
    (visited : OffsetSet) :
    toList image { lists := list :: outer, visited := visited } =
      toList image { lists := outer, visited := visited } := by
  have passed : ¬ list.next < list.table.count := by
    intro within
    rw [OpenList.pending_of_lt within] at pending
    cases pending
  have leave : step image { lists := list :: outer, visited := visited } =
      some (none, { lists := outer, visited := visited }) := by
    simp only [step]
    rw [if_neg passed]
  rw [toList_of_step leave]
  rfl

/-- A leaf yields its readable slots, and then the walk goes on outside of it. -/
theorem toList_leaf (list : OpenList) (leaf : list.table.isIndexRoot = false)
    (outer : List OpenList) (visited : OffsetSet) :
    toList image { lists := list :: outer, visited := visited } =
      list.pending.filterMap (child? image) ++
        toList image { lists := outer, visited := visited } := by
  -- The induction is on the slots that the walk has not come to.
  generalize left : list.table.count - list.next = slots
  induction slots generalizing list with
  | zero =>
      have pending : list.pending = [] := OpenList.pending_of_le (by omega)
      rw [toList_leave pending, pending]
      rfl
  | succ slots ih =>
      have within : list.next < list.table.count := by omega
      have slot : step image { lists := list :: outer, visited := visited } =
          some (child? image (list.table.offsetAt list.next),
            { lists := list.advance :: outer, visited := visited }) := by
        simp only [step]
        rw [if_pos within, leaf]
        rfl
      have rest := ih list.advance leaf (by
        change list.table.count - (list.next + 1) = slots
        omega)
      rw [OpenList.pending_of_lt within, toList_of_step slot, rest, List.filterMap_cons]
      cases child? image (list.table.offsetAt list.next) <;> rfl

/-- An index root hands its next slot on to the list that the slot names. -/
theorem toList_indexRoot {list : OpenList} (index : list.table.isIndexRoot = true)
    {offset : UInt32} {rest : List UInt32} (pending : list.pending = offset :: rest)
    (outer : List OpenList) (visited : OffsetSet) :
    toList image { lists := list :: outer, visited := visited } =
        toList image (enter image { lists := list.advance :: outer, visited := visited } offset) ∧
      list.advance.pending = rest := by
  have within : list.next < list.table.count := by
    apply Nat.lt_of_not_le
    intro passed
    rw [OpenList.pending_of_le passed] at pending
    cases pending
  rw [OpenList.pending_of_lt within] at pending
  obtain ⟨rfl, same⟩ := List.cons.inj pending
  refine ⟨?_, same⟩
  have handed : step image { lists := list :: outer, visited := visited } =
      some (none,
        enter image { lists := list.advance :: outer, visited := visited }
          (list.table.offsetAt list.next)) := by
    simp only [step]
    rw [if_pos within, index]
    rfl
  rw [toList_of_step handed]
  rfl

end SubkeyWalk

namespace HiveImage

/-- A key that a walk yields can be read, and it bears the name that the walk yields. -/
theorem keyNode?_of_mem_childrenAt {image : HiveImage} {list : UInt32} {child : ChildKey}
    (listed : child ∈ image.childrenAt list) :
    ∃ node, image.keyNode? child.offset = some node ∧ node.name = child.name :=
  (SubkeyWalk.child?_eq_some_iff.mp (SubkeyWalk.child?_of_mem_toList listed)).2

end HiveImage

end RegistryHive
