import RegistryHive.Image
import RegistryHive.OffsetSet
import RegistryHive.Text.LowerCase

/-!
# Walking through the subkeys of a key

The subkeys of a key hang off one list cell. An index root names further lists,
so the lists of a large key form a tree. A walk goes through that tree from left
to right and yields every readable key node that a leaf names. It keeps the
lists it is inside of, innermost first, and the set of all lists it has entered.
A list is entered once in a walk and only to a bounded depth, so a walk ends on
every image: `measure_lt_of_step` bounds the steps by the offsets not yet
visited and the work left in the open lists.

`SubkeyWalk.toList` gives what a walk yields, and `SubkeyWalk.find?` the first
item of it that passes a test, without walking on: `find?_eq` says that it is
the first one in the list.
-/

namespace RegistryHive

/-- The greatest number of lists a walk can be inside of. -/
def maxListDepth : Nat := 8

/-- A key that a walk yields. -/
structure ChildKey where
  name : String
  offset : UInt32
  deriving DecidableEq, Repr

/-- A list that a walk is inside of. -/
structure OpenList where
  table : SlotTable
  /-- The index of the slot that the walk comes to next. -/
  next : Nat

namespace OpenList

/-- The list before its first slot. -/
def ofTable (table : SlotTable) : OpenList := { table := table, next := 0 }

/-- The list after its next slot. -/
def advance (list : OpenList) : OpenList := { list with next := list.next + 1 }

/-- The offsets in the slots that the walk has not come to. -/
def pending (list : OpenList) : List UInt32 := (list.table.slots.map (·.offset)).drop list.next

theorem pending_ofTable (table : SlotTable) :
    (ofTable table).pending = (SubkeyList.ofTable table).offsets := rfl

theorem pending_of_le {list : OpenList} (h : list.table.count ≤ list.next) : list.pending = [] := by
  simp [pending, h]

/-- The next slot gives the first offset, and the others come after it. -/
theorem pending_of_lt {list : OpenList} (h : list.next < list.table.count) :
    list.pending = list.table.offsetAt list.next :: list.advance.pending := by
  rw [pending, List.drop_eq_getElem_cons (by simpa using h)]
  simp [SlotTable.slots_eq, SlotTable.slotAt, pending, advance]

end OpenList

/-- The state of a walk. -/
structure SubkeyWalk where
  /-- The lists the walk is inside of, innermost first. -/
  lists : List OpenList
  /-- The lists that have been entered. -/
  visited : OffsetSet

namespace SubkeyWalk

/-- Enters the list at an offset, unless it is null, too deep or visited before. A cell that is no
list counts as visited and is not entered. -/
def enter (image : HiveImage) (walk : SubkeyWalk) (offset : UInt32) : SubkeyWalk :=
  if offset = nullOffset ∨ maxListDepth ≤ walk.lists.length ∨ offset ∈ walk.visited then walk
  else
    match image.slotTable? offset with
    | some table =>
      { lists := .ofTable table :: walk.lists, visited := walk.visited.insert offset }
    | none => { walk with visited := walk.visited.insert offset }

/-- The walk from the list at an offset. -/
def start (image : HiveImage) (offset : UInt32) : SubkeyWalk :=
  enter image { lists := [], visited := ∅ } offset

/-- The key at an offset as a walk yields it. -/
def child? (image : HiveImage) (offset : UInt32) : Option ChildKey :=
  (image.keyNode? offset).map fun node => { name := node.name, offset := offset }

/-- One step of a walk: the item that it yields, if any, and the walk after it. There is no step
when all lists are left. -/
def step (image : HiveImage) (walk : SubkeyWalk) : Option (Option ChildKey × SubkeyWalk) :=
  match walk.lists with
  | [] => none
  | list :: outer =>
    if list.next < list.table.count then
      let offset := list.table.offsetAt list.next
      let here := { walk with lists := list.advance :: outer }
      if list.table.isIndexRoot then some (none, enter image here offset)
      else some (child? image offset, here)
    else some (none, { walk with lists := outer })

/-- The work left in the open lists: one step for each slot and one for leaving each list. -/
def work (walk : SubkeyWalk) : Nat :=
  walk.lists.foldr (fun list rest => list.table.count - list.next + 1 + rest) 0

/-- What bounds the steps of a walk: the offsets not yet visited, then the work left. -/
def measure (walk : SubkeyWalk) : Nat × Nat := (OffsetSet.missing walk.visited, walk.work)

/-- Entering a list does not add work unless it visits a new offset. -/
private theorem measure_enter (image : HiveImage) (walk : SubkeyWalk) (offset : UInt32) :
    OffsetSet.Lower (enter image walk offset).measure walk.measure ∨
      (enter image walk offset).measure = walk.measure := by
  unfold enter
  split
  · exact .inr rfl
  · rename_i closed
    have fresh : offset ∉ walk.visited := fun h => closed (.inr (.inr h))
    have less := OffsetSet.missing_insert_lt fresh
    split <;> exact .inl (.of_missing less)

/-- Every step makes the measure smaller. -/
theorem measure_lt_of_step {image : HiveImage} {walk next : SubkeyWalk} {item : Option ChildKey}
    (h : walk.step image = some (item, next)) : OffsetSet.Lower next.measure walk.measure := by
  unfold step at h
  split at h
  · exact absurd h (by simp)
  · rename_i list outer lists
    split at h
    · rename_i within
      have less : OffsetSet.Lower { walk with lists := list.advance :: outer }.measure
          walk.measure := by
        refine .of_work ?_
        simp only [work, lists, List.foldr_cons, OpenList.advance]
        omega
      split at h
      · obtain ⟨-, rfl⟩ := by simpa using h
        rcases measure_enter image { walk with lists := list.advance :: outer }
          (list.table.offsetAt list.next) with lower | same
        · exact lower.trans less
        · rwa [same]
      · obtain ⟨-, rfl⟩ := by simpa using h
        exact less
    · obtain ⟨-, rfl⟩ := by simpa using h
      refine .of_work ?_
      simp [work, lists]

/-- Appends everything that a walk yields to `found`. -/
def collect (image : HiveImage) (walk : SubkeyWalk) (found : Array ChildKey) : Array ChildKey :=
  match _taken : walk.step image with
  | none => found
  | some (none, next) => collect image next found
  | some (some child, next) => collect image next (found.push child)
termination_by walk.measure
decreasing_by all_goals exact measure_lt_of_step (by assumption)

/-- Everything that a walk yields, in order. -/
def toList (image : HiveImage) (walk : SubkeyWalk) : List ChildKey :=
  (walk.collect image #[]).toList

/-- The first item of a walk that passes a test. -/
def find? (image : HiveImage) (walk : SubkeyWalk) (test : ChildKey → Bool) : Option ChildKey :=
  match _taken : walk.step image with
  | none => none
  | some (none, next) => find? image next test
  | some (some child, next) => if test child then some child else find? image next test
termination_by walk.measure
decreasing_by all_goals exact measure_lt_of_step (by assumption)

private theorem collect_of_ended {image : HiveImage} {walk : SubkeyWalk}
    (h : walk.step image = none) (found : Array ChildKey) : walk.collect image found = found := by
  rw [collect]
  split <;> simp_all

private theorem collect_of_step {image : HiveImage} {walk next : SubkeyWalk}
    {item : Option ChildKey} (h : walk.step image = some (item, next)) (found : Array ChildKey) :
    walk.collect image found = next.collect image (found ++ item.toArray) := by
  rw [collect]
  split
  · simp_all
  · rename_i taken
    cases h.symm.trans taken
    simp
  · rename_i taken
    cases h.symm.trans taken
    simp

private theorem toList_collect (image : HiveImage) (walk : SubkeyWalk) (found : Array ChildKey) :
    (walk.collect image found).toList = found.toList ++ walk.toList image := by
  induction walk using find?.induct image (fun _ => false) generalizing found with
  | case1 walk ended => simp only [toList, collect_of_ended ended, List.append_nil]
  | case2 walk next taken ih =>
    rw [toList, collect_of_step taken, collect_of_step taken, ih, ih (#[] ++ _)]
    simp
  | case3 walk child next taken passes => exact absurd passes (by simp)
  | case4 walk child next taken _ ih =>
    rw [toList, collect_of_step taken, collect_of_step taken, ih, ih (#[] ++ _)]
    simp

/-- A walk that has ended yields nothing. -/
theorem toList_of_ended {image : HiveImage} {walk : SubkeyWalk}
    (h : walk.step image = none) : walk.toList image = [] := by
  simp [toList, collect_of_ended h]

/-- A walk yields the item of its first step, if there is one, and what is left after it. -/
theorem toList_of_step {image : HiveImage} {walk next : SubkeyWalk}
    {item : Option ChildKey} (h : walk.step image = some (item, next)) :
    walk.toList image = item.toList ++ next.toList image := by
  rw [toList, collect_of_step h, toList_collect]
  simp

/-- What is found by walking is what is found in the list of all that a walk yields. -/
theorem find?_eq (image : HiveImage) (walk : SubkeyWalk) (test : ChildKey → Bool) :
    walk.find? image test = (walk.toList image).find? test := by
  fun_induction find? image walk test with
  | case1 walk ended => simp [toList_of_ended ended]
  | case2 walk next taken ih => simp [toList_of_step taken, ih]
  | case3 walk child next taken passes => simp [toList_of_step taken, passes]
  | case4 walk child next taken fails ih => simp [toList_of_step taken, fails, ih]

end SubkeyWalk

namespace HiveImage

/-- The keys that can be reached from the list at an offset, in order. -/
def childrenAt (image : HiveImage) (list : UInt32) : List ChildKey :=
  (SubkeyWalk.start image list).toList image

/-- The names of the keys that can be reached from the list at an offset, in order. -/
def childNames (image : HiveImage) (list : UInt32) : List String :=
  (image.childrenAt list).map (·.name)

/-- The first key with this name, ignoring case, that can be reached from the list at an offset. -/
def findChild? (image : HiveImage) (list : UInt32) (name : String) : Option UInt32 :=
  let wanted := Text.lowerCase name
  ((SubkeyWalk.start image list).find? image fun child => Text.lowerCase child.name == wanted).map
    (·.offset)

/-- The key found by its name is the first of the keys in the list with this name. -/
theorem findChild?_eq (image : HiveImage) (list : UInt32) (name : String) :
    image.findChild? list name =
      ((image.childrenAt list).find? fun child =>
        Text.lowerCase child.name == Text.lowerCase name).map (·.offset) := by
  rw [findChild?, SubkeyWalk.find?_eq]
  rfl

end HiveImage

end RegistryHive
