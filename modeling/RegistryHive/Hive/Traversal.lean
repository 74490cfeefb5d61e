import RegistryHive.Hive.NameIndex

/-!
# Going through all keys

A traversal visits the keys of a hive in pre-order. It keeps the paths of the
keys still to come, relative to the root, each with the key that it leads to. A
key cell is visited once, so a traversal ends on every image:
`measure_lt_of_step` bounds the steps by the offsets not yet visited and the
paths still to come.

Since a subkey is reached by its name, subkeys of one key whose names differ
only in case all lead to the first of them.
-/

namespace RegistryHive

/-- A path of a traversal, and the key that it leads to. -/
structure PendingKey (image : HiveImage) where
  /-- The path from the root, which is empty for the root itself. -/
  relative : String
  /-- The key at the path, if it leads to one. -/
  found : Option FoundKey
  found_eq : found = image.resolve (KeyPath.components relative)

namespace PendingKey

/-- The root key. -/
def root (image : HiveImage) : PendingKey image :=
  { relative := "", found := image.resolve (KeyPath.components ""), found_eq := rfl }

/-- The key below a key under a name that is given. The subkeys are indexed. -/
def below {image : HiveImage} {relative : String} {parent : FoundKey}
    (leads : image.resolve (KeyPath.components relative) = some parent)
    (hasSubkeys : parent.node.hasSubkeys = true) (index : NameIndex)
    (indexed : index = .ofList (image.childrenAt parent.node.subkeyList)) (name : String) :
    PendingKey image where
  relative := KeyPath.child relative name
  found := image.descendIn index parent (KeyPath.components name)
  found_eq := by
    rw [KeyPath.components_child, HiveImage.resolve_append, leads, indexed,
      image.descendIn_eq hasSubkeys]
    rfl

/-- The keys below a key, in order. -/
def subkeys {image : HiveImage} {relative : String} {parent : FoundKey}
    (leads : image.resolve (KeyPath.components relative) = some parent) :
    List (PendingKey image) :=
  if hasSubkeys : parent.node.hasSubkeys = true then
    let children := image.childrenAt parent.node.subkeyList
    let index := NameIndex.ofList children
    children.map fun child => below leads hasSubkeys index rfl child.name
  else []

end PendingKey

/-- The state of a traversal. -/
structure Traversal (image : HiveImage) where
  /-- The keys still to come, next one first. -/
  pending : List (PendingKey image)
  /-- The key cells that have been visited. -/
  visited : OffsetSet

namespace Traversal

variable {image : HiveImage}

/-- The traversal of all keys. -/
def start (image : HiveImage) : Traversal image := { pending := [.root image], visited := ∅ }

/-- One step of a traversal: the key that it visits, if any, and the traversal after it. A path
that leads nowhere, or to a key visited before, is passed over. There is no step when no path is
left. -/
def step (traversal : Traversal image) : Option (Option FoundKey × Traversal image) :=
  match traversal.pending with
  | [] => none
  | { relative := _, found := none, found_eq := _ } :: rest =>
    some (none, { traversal with pending := rest })
  | { relative := _, found := some found, found_eq := leads } :: rest =>
    if found.offset ∈ traversal.visited then some (none, { traversal with pending := rest })
    else
      some (some found,
        { pending := PendingKey.subkeys leads.symm ++ rest
          visited := traversal.visited.insert found.offset })

/-- What bounds the steps of a traversal: the offsets not yet visited, then the paths to come. -/
def measure (traversal : Traversal image) : Nat × Nat :=
  (OffsetSet.missing traversal.visited, traversal.pending.length)

/-- Every step makes the measure smaller. -/
theorem measure_lt_of_step {traversal next : Traversal image} {visited : Option FoundKey}
    (h : traversal.step = some (visited, next)) :
    OffsetSet.Lower next.measure traversal.measure := by
  have shorter {first : PendingKey image} {rest : List (PendingKey image)}
      (pending : traversal.pending = first :: rest) :
      OffsetSet.Lower { traversal with pending := rest }.measure traversal.measure := by
    refine .of_work ?_
    simp [pending]
  unfold step at h
  split at h
  · exact absurd h (by simp)
  · rename_i pending
    obtain ⟨-, rfl⟩ := by simpa using h
    exact shorter pending
  · rename_i pending
    split at h
    · obtain ⟨-, rfl⟩ := by simpa using h
      exact shorter pending
    · rename_i fresh
      obtain ⟨-, rfl⟩ := by simpa using h
      exact .of_missing (OffsetSet.missing_insert_lt fresh)

/-- Appends every key that a traversal visits to `keys`. -/
def collect (traversal : Traversal image) (keys : Array FoundKey) : Array FoundKey :=
  match _taken : traversal.step with
  | none => keys
  | some (none, next) => collect next keys
  | some (some found, next) => collect next (keys.push found)
termination_by traversal.measure
decreasing_by all_goals exact measure_lt_of_step (by assumption)

end Traversal

/-- All keys of an image, in pre-order. -/
def HiveImage.visitedKeys (image : HiveImage) : List FoundKey :=
  ((Traversal.start image).collect #[]).toList

namespace Hive

/-- All keys of a hive, in pre-order. -/
def keys (hive : Hive) : List Key := hive.image.visitedKeys.map hive.image.keyOf

/-- The paths of all keys of a hive, in pre-order. -/
def paths (hive : Hive) : List String := hive.image.visitedKeys.map (·.path)

/-- The number of keys of a hive. -/
def keyCount (hive : Hive) : Nat := hive.image.visitedKeys.length

theorem paths_eq (hive : Hive) : hive.paths = hive.keys.map (·.path) := by
  simp [paths, keys, HiveImage.keyOf]

theorem keyCount_eq (hive : Hive) : hive.keyCount = hive.keys.length := by
  simp [keyCount, keys]

end Hive

end RegistryHive
