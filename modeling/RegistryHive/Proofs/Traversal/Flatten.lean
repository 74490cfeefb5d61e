import RegistryHive.Proofs.Traversal.Walk

/-!
# A walk as plain recursion

A walk keeps the lists that it is inside of, each with the slot that it comes to
next. Plain recursion has no such state: `flatten` goes through the slots of a list
from the first to the last and calls itself for the lists that an index root names.
It counts the lists around it, and hands the visited cells on from each list to the
next. The two yield the same (`SubkeyWalk.toList_enter`): the number of open lists of
a walk is the depth of the recursion, because an exhausted list is left before the
list around it goes on.

Beside what it yields, the recursion keeps the cells that it comes to as lists.
`flatten_induct` is the induction over its calls, and `Accounts` says that no cell
occurs twice among these cells and that they account for everything that is yielded.
`walk_eq_flatten` puts the two together for the walk through one list.
-/

namespace RegistryHive

/-- A cell that is taken as a list, and the number of lists around it. -/
structure ListVisit where
  offset : UInt32
  depth : Nat

/-- What recursion yields, the cells that it takes as lists, and all cells that have been visited
after it. -/
structure Flattened where
  keys : List ChildKey
  visits : List ListVisit
  after : OffsetSet

namespace Flattened

/-- Nothing is yielded and no cell is visited. -/
def nothing (visited : OffsetSet) : Flattened := { keys := [], visits := [], after := visited }

/-- What comes of one list and then of others. -/
def append (first others : Flattened) : Flattened where
  keys := first.keys ++ others.keys
  visits := first.visits ++ others.visits
  after := others.after

/-- What comes of the slots of a list counts for a visit of this list. -/
def within (slots : Flattened) (visit : ListVisit) : Flattened :=
  { slots with visits := visit :: slots.visits }

end Flattened

namespace HiveImage

mutual

/-- What the list at an offset yields inside of so many lists. It yields nothing when it is null,
too deep or visited before. A cell that is no list yields nothing, but counts as visited. -/
def flatten (image : HiveImage) (offset : UInt32) (depth : Nat) (visited : OffsetSet) : Flattened :=
  if _refused : offset = nullOffset ∨ maxListDepth ≤ depth ∨ offset ∈ visited then
    .nothing visited
  else
    let marked := visited.insert offset
    let slots : Flattened :=
      match image.subkeyList? offset with
      | none => .nothing marked
      | some list =>
          if list.isIndexRoot then flattenAll image list.offsets (depth + 1) marked
          else { Flattened.nothing marked with
                  keys := list.offsets.filterMap (SubkeyWalk.child? image) }
    slots.within { offset := offset, depth := depth }
termination_by (maxListDepth - depth, 0)
decreasing_by
  have shallow : depth < maxListDepth := Nat.lt_of_not_le fun deep => _refused (.inr (.inl deep))
  exact .left _ _ (Nat.sub_succ_lt_self _ _ shallow)

/-- What lists yield one after the other, inside of so many lists. -/
def flattenAll (image : HiveImage) (offsets : List UInt32) (depth : Nat) (visited : OffsetSet) :
    Flattened :=
  match offsets with
  | [] => .nothing visited
  | offset :: rest =>
      let first := flatten image offset depth visited
      first.append (flattenAll image rest depth first.after)
termination_by (maxListDepth - depth, offsets.length + 1)
decreasing_by
  · exact .right _ (Nat.succ_pos _)
  · exact .right _ (Nat.lt_succ_self _)

end

/-- The lists that the list at an offset names: the slots of an index root. -/
def memberLists (image : HiveImage) (offset : UInt32) : List UInt32 :=
  match image.subkeyList? offset with
  | none => []
  | some list => if list.isIndexRoot then list.offsets else []

/-- The keys that the list at an offset names: the readable slots of a leaf. -/
def leafKeys (image : HiveImage) (offset : UInt32) : List ChildKey :=
  match image.subkeyList? offset with
  | none => []
  | some list =>
      if list.isIndexRoot then [] else list.offsets.filterMap (SubkeyWalk.child? image)

section Lists

variable {image : HiveImage} {offset : UInt32} {table : SlotTable}

theorem lists_of_slotTable?_eq_none (unreadable : image.slotTable? offset = none) :
    image.memberLists offset = [] ∧ image.leafKeys offset = [] := by
  simp [memberLists, leafKeys, subkeyList?_eq, unreadable]

theorem lists_of_leaf (readable : image.slotTable? offset = some table)
    (leaf : table.isIndexRoot = false) :
    image.memberLists offset = [] ∧
      image.leafKeys offset =
        (OpenList.ofTable table).pending.filterMap (SubkeyWalk.child? image) := by
  have isLeaf : (SubkeyList.ofTable table).isIndexRoot = false := leaf
  simp [memberLists, leafKeys, subkeyList?_eq, readable, isLeaf, OpenList.pending_ofTable]

theorem lists_of_indexRoot (readable : image.slotTable? offset = some table)
    (index : table.isIndexRoot = true) :
    image.memberLists offset = (OpenList.ofTable table).pending ∧ image.leafKeys offset = [] := by
  have isIndex : (SubkeyList.ofTable table).isIndexRoot = true := index
  simp [memberLists, leafKeys, subkeyList?_eq, readable, isIndex, OpenList.pending_ofTable]

end Lists

section Flatten

variable {image : HiveImage} {offset : UInt32} {depth : Nat} {visited : OffsetSet}

theorem flatten_of_refused
    (refused : offset = nullOffset ∨ maxListDepth ≤ depth ∨ offset ∈ visited) :
    flatten image offset depth visited = .nothing visited := by
  rw [flatten, dif_pos refused]

@[simp] theorem flattenAll_nil : flattenAll image [] depth visited = .nothing visited := by
  rw [flattenAll]

theorem flattenAll_cons (rest : List UInt32) :
    flattenAll image (offset :: rest) depth visited =
      (flatten image offset depth visited).append
        (flattenAll image rest depth (flatten image offset depth visited).after) := by
  rw [flattenAll]

/-- A list that is not refused yields its readable keys if it is a leaf, and what the lists that it
names yield if it is an index root. -/
theorem flatten_of_not_refused
    (accepted : ¬ (offset = nullOffset ∨ maxListDepth ≤ depth ∨ offset ∈ visited)) :
    flatten image offset depth visited =
      let members := flattenAll image (image.memberLists offset) (depth + 1) (visited.insert offset)
      { members with keys := image.leafKeys offset ++ members.keys }.within
        { offset := offset, depth := depth } := by
  rw [flatten, dif_neg accepted, memberLists, leafKeys]
  cases image.subkeyList? offset with
  | none => simp [Flattened.nothing]
  | some list => cases index : list.isIndexRoot <;> simp [Flattened.nothing, index]

/-- Induction over the calls of the recursion. What holds of every list, by itself and followed by
others, holds of all lists. -/
theorem flatten_induct (holds : List UInt32 → Nat → OffsetSet → Flattened → Prop)
    (none : ∀ depth visited, holds [] depth visited (.nothing visited))
    (refused : ∀ {offset depth visited},
      offset = nullOffset ∨ maxListDepth ≤ depth ∨ offset ∈ visited →
        holds [offset] depth visited (.nothing visited))
    (entered : ∀ {offset depth visited} {members : Flattened}, offset ≠ nullOffset →
      depth < maxListDepth → offset ∉ visited →
        holds (image.memberLists offset) (depth + 1) (visited.insert offset) members →
        holds [offset] depth visited
          ({ members with keys := image.leafKeys offset ++ members.keys }.within
            { offset := offset, depth := depth }))
    (append : ∀ {offset rest depth visited} {first others : Flattened},
      holds [offset] depth visited first → holds rest depth first.after others →
        holds (offset :: rest) depth visited (first.append others))
    (offsets : List UInt32) (depth : Nat) (visited : OffsetSet) :
    holds offsets depth visited (flattenAll image offsets depth visited) := by
  have one (offset : UInt32) (visited : OffsetSet) :
      holds [offset] depth visited (flatten image offset depth visited) := by
    by_cases passed : offset = nullOffset ∨ maxListDepth ≤ depth ∨ offset ∈ visited
    · rw [flatten_of_refused passed]
      exact refused passed
    · have shallow : depth < maxListDepth :=
        Nat.lt_of_not_le fun deep => passed (.inr (.inl deep))
      rw [flatten_of_not_refused passed]
      exact entered (fun null => passed (.inl null)) shallow (fun old => passed (.inr (.inr old)))
        (flatten_induct holds none refused entered append _ (depth + 1) _)
  induction offsets generalizing visited with
  | nil =>
      rw [flattenAll_nil]
      exact none depth visited
  | cons offset rest ih =>
      rw [flattenAll_cons]
      exact append (one offset visited) (ih _)
termination_by maxListDepth - depth
decreasing_by exact Nat.sub_succ_lt_self _ _ shallow

theorem flattenAll_singleton :
    flattenAll image [offset] depth visited = flatten image offset depth visited := by
  rw [flattenAll_cons, flattenAll_nil]
  simp [Flattened.append, Flattened.nothing]

end Flatten

end HiveImage

/-- The cells that recursion takes as lists differ from each other and from those visited before.
They are the cells that it adds to these, and what it yields are the keys that they name, one list
after the other. -/
structure Flattened.Accounts (image : HiveImage) (visited : OffsetSet) (flat : Flattened) :
    Prop where
  keys_eq : flat.keys = flat.visits.flatMap fun visit => image.leafKeys visit.offset
  mem_after_iff : ∀ offset,
    offset ∈ flat.after ↔ offset ∈ visited ∨ offset ∈ flat.visits.map (·.offset)
  fresh : ∀ visit ∈ flat.visits, visit.offset ∉ visited
  distinct : (flat.visits.map (·.offset)).Nodup

namespace Flattened.Accounts

variable {image : HiveImage} {visited : OffsetSet}

theorem nothing (image : HiveImage) (visited : OffsetSet) :
    (Flattened.nothing visited).Accounts image visited where
  keys_eq := rfl
  mem_after_iff offset := by simp [Flattened.nothing]
  fresh visit member := absurd member List.not_mem_nil
  distinct := List.nodup_nil

theorem append {first others : Flattened} (h : first.Accounts image visited)
    (h' : others.Accounts image first.after) : (first.append others).Accounts image visited where
  keys_eq := by
    simp only [Flattened.append, List.flatMap_append, ← h.keys_eq, ← h'.keys_eq]
  mem_after_iff offset := by
    simp only [Flattened.append, List.map_append, List.mem_append]
    rw [h'.mem_after_iff, h.mem_after_iff, or_assoc]
  fresh visit member := by
    rcases List.mem_append.mp member with here | later
    · exact h.fresh visit here
    · intro before
      exact h'.fresh visit later ((h.mem_after_iff _).mpr (.inl before))
  distinct := by
    simp only [Flattened.append, List.map_append]
    refine List.nodup_append.mpr ⟨h.distinct, h'.distinct, ?_⟩
    rintro offset here _ later rfl
    obtain ⟨visit, member, rfl⟩ := List.mem_map.mp later
    exact h'.fresh visit member ((h.mem_after_iff _).mpr (.inr here))

theorem entered {members : Flattened} {offset : UInt32} (depth : Nat) (new : offset ∉ visited)
    (h : members.Accounts image (visited.insert offset)) :
    ({ members with keys := image.leafKeys offset ++ members.keys }.within
      { offset := offset, depth := depth }).Accounts image visited where
  keys_eq := by
    simp only [within, List.flatMap_cons, ← h.keys_eq]
  mem_after_iff other := by
    simp only [within, List.map_cons, List.mem_cons]
    rw [h.mem_after_iff, Std.HashSet.mem_insert, beq_iff_eq, eq_comm (a := offset), or_assoc,
      or_left_comm]
  fresh visit member := by
    rcases List.mem_cons.mp member with rfl | later
    · exact new
    · intro before
      exact h.fresh visit later (Std.HashSet.mem_insert.mpr (.inr before))
  distinct := by
    simp only [within, List.map_cons]
    refine List.nodup_cons.mpr ⟨?_, h.distinct⟩
    intro again
    obtain ⟨visit, member, same⟩ := List.mem_map.mp again
    exact h.fresh visit member (Std.HashSet.mem_insert.mpr (.inl (beq_iff_eq.mpr same.symm)))

end Flattened.Accounts

namespace HiveImage

theorem accounts_flattenAll (image : HiveImage) (offsets : List UInt32) (depth : Nat)
    (visited : OffsetSet) : (flattenAll image offsets depth visited).Accounts image visited :=
  flatten_induct (fun _ _ visited flat => flat.Accounts image visited)
    (fun _ visited => .nothing image visited)
    (fun _ => .nothing image _)
    (fun _ _ new members => members.entered _ new)
    (fun first others => first.append others) offsets depth visited

theorem accounts_flatten (image : HiveImage) (offset : UInt32) (depth : Nat)
    (visited : OffsetSet) : (flatten image offset depth visited).Accounts image visited := by
  rw [← flattenAll_singleton]
  exact accounts_flattenAll image [offset] depth visited

end HiveImage

namespace SubkeyWalk

variable {image : HiveImage}

/-- A walk that has been handed no list goes on as before. -/
theorem enter_of_refused {walk : SubkeyWalk} {offset : UInt32}
    (refused : offset = nullOffset ∨ maxListDepth ≤ walk.lists.length ∨ offset ∈ walk.visited) :
    enter image walk offset = walk := by
  rw [enter, if_pos refused]

/-- Before a walk leaves an index root it yields what recursion yields for the slots that are left,
if it does so for a single list. -/
theorem toList_slots {outer : List OpenList}
    (each : ∀ (list : OpenList) (offset : UInt32) (visited : OffsetSet),
      toList image (enter image { lists := list :: outer, visited := visited } offset) =
        (image.flatten offset (outer.length + 1) visited).keys ++
          toList image { lists := list :: outer
                         visited := (image.flatten offset (outer.length + 1) visited).after })
    (list : OpenList) (index : list.table.isIndexRoot = true) (visited : OffsetSet) :
    toList image { lists := list :: outer, visited := visited } =
      (image.flattenAll list.pending (outer.length + 1) visited).keys ++
        toList image { lists := outer
                       visited :=
                        (image.flattenAll list.pending (outer.length + 1) visited).after } := by
  generalize pending : list.pending = offsets
  induction offsets generalizing list visited with
  | nil =>
      rw [HiveImage.flattenAll_nil, toList_leave pending]
      rfl
  | cons offset rest ih =>
      obtain ⟨handed, pending'⟩ := toList_indexRoot index pending outer visited
      rw [handed, each, ih list.advance index _ pending', HiveImage.flattenAll_cons,
        ← List.append_assoc]
      rfl

/-- When a walk is handed a list, it yields what recursion yields inside of the open lists, and then
it goes on with the visited cells that recursion leaves. -/
theorem toList_enter (outer : List OpenList) (visited : OffsetSet) (offset : UInt32) :
    toList image (enter image { lists := outer, visited := visited } offset) =
      (image.flatten offset outer.length visited).keys ++
        toList image { lists := outer
                       visited := (image.flatten offset outer.length visited).after } := by
  by_cases refused : offset = nullOffset ∨ maxListDepth ≤ outer.length ∨ offset ∈ visited
  · rw [enter_of_refused refused, HiveImage.flatten_of_refused refused]
    rfl
  · have shallow : outer.length < maxListDepth :=
      Nat.lt_of_not_le fun deep => refused (.inr (.inl deep))
    rw [enter, if_neg refused, HiveImage.flatten_of_not_refused refused]
    cases readable : image.slotTable? offset with
    | none =>
        obtain ⟨members, keys⟩ := HiveImage.lists_of_slotTable?_eq_none readable
        rw [members, keys, HiveImage.flattenAll_nil]
        rfl
    | some table =>
        cases index : table.isIndexRoot with
        | false =>
            obtain ⟨members, keys⟩ := HiveImage.lists_of_leaf readable index
            rw [members, keys, HiveImage.flattenAll_nil, toList_leaf (.ofTable table) index]
            simp only [Flattened.within, Flattened.nothing, List.append_nil]
        | true =>
            obtain ⟨members, keys⟩ := HiveImage.lists_of_indexRoot readable index
            have each (list : OpenList) (offset : UInt32) (visited : OffsetSet) :=
              toList_enter (list :: outer) visited offset
            rw [members, keys, toList_slots each (.ofTable table) index]
            rfl
termination_by maxListDepth - outer.length

/-- A run of a walk to its end, one step after the other, and what its steps yield. -/
inductive Run (image : HiveImage) : SubkeyWalk → List ChildKey → Prop
  | ended {walk : SubkeyWalk} : walk.step image = none → Run image walk []
  | stepped {walk next : SubkeyWalk} {item : Option ChildKey} {keys : List ChildKey} :
      walk.step image = some (item, next) → Run image next keys →
        Run image walk (item.toList ++ keys)

/-- Every walk comes to its end. -/
theorem run_toList (image : HiveImage) (walk : SubkeyWalk) :
    walk.Run image (walk.toList image) := by
  induction walk using find?.induct image (fun _ => false) with
  | case1 walk last =>
      rw [toList_of_ended last]
      exact .ended last
  | case2 walk next taken ih =>
      rw [toList_of_step taken]
      exact .stepped taken ih
  | case3 walk child next taken passes => exact absurd passes Bool.false_ne_true
  | case4 walk child next taken _ ih =>
      rw [toList_of_step taken]
      exact .stepped taken ih

end SubkeyWalk

namespace HiveImage

/-- The walk from the list at an offset yields what recursion yields for it. -/
theorem childrenAt_eq_keys (image : HiveImage) (list : UInt32) :
    image.childrenAt list = (image.flatten list 0 ∅).keys := by
  have left (visited : OffsetSet) : SubkeyWalk.toList image ⟨[], visited⟩ = [] :=
    SubkeyWalk.toList_of_ended rfl
  have entered : image.childrenAt list = _ := SubkeyWalk.toList_enter [] ∅ list
  rwa [left, List.append_nil] at entered

/-- On every image, the walk from the list at an offset comes to its end, and it yields what plain
recursion yields: the keys of the cells that recursion takes as lists, in this order. No cell is
among them twice, whatever the index roots name. -/
theorem walk_eq_flatten (image : HiveImage) (list : UInt32) :
    (SubkeyWalk.start image list).Run image (image.flatten list 0 ∅).keys ∧
      image.childrenAt list = (image.flatten list 0 ∅).keys ∧
      (image.flatten list 0 ∅).keys =
        (image.flatten list 0 ∅).visits.flatMap (fun visit => image.leafKeys visit.offset) ∧
      ((image.flatten list 0 ∅).visits.map (·.offset)).Nodup := by
  have accounts := image.accounts_flatten list 0 ∅
  have yields := image.childrenAt_eq_keys list
  refine ⟨?_, yields, accounts.keys_eq, accounts.distinct⟩
  rw [← yields]
  exact SubkeyWalk.run_toList image _

end HiveImage

end RegistryHive
