import RegistryHive.Key
import RegistryHive.KeyPath
import RegistryHive.Payload
import RegistryHive.Recovery
import RegistryHive.SubkeyWalk

/-!
# Looking up keys

A hive is an image together with the report of its recovery. Keys are found by
following names from the root: `descend` takes one name after the other and
finds the first subkey with this name, ignoring case. The path of a key that was
found is made of the names as they are stored.

Lookup does not fail on damage: a cell that cannot be read is skipped in a list
of keys or values, and a payload that cannot be read counts as empty.
-/

namespace RegistryHive

/-- A loaded hive. -/
structure Hive where
  image : HiveImage
  replay : ReplayStats
  deriving DecidableEq

/-- A key node that was found in a hive, and its path. -/
structure FoundKey where
  offset : UInt32
  node : KeyNode
  path : String
  deriving DecidableEq

namespace HiveImage

/-- The offsets in the value list of a key, as many as declared, if they are there. -/
def valueOffsets (image : HiveImage) (node : KeyNode) : List UInt32 :=
  if node.hasValues && node.valueList != nullOffset then
    match image.cellBody node.valueList with
    | .error _ => []
    | .ok list =>
      (List.range (min node.valueCount.toNat (list.size / 4))).map fun i => list.u32At (4 * i)
  else []

/-- The value of a value node. A payload that cannot be read counts as empty. -/
def valueOf (image : HiveImage) (node : ValueNode) : Value :=
  let payload :=
    match node.payload image with
    | .ok bytes => bytes
    | .error _ => ByteArray.empty
  { name := node.name, type := node.type, data := .decode payload node.type }

/-- The readable values of a key, in order. -/
def valuesOf (image : HiveImage) (node : KeyNode) : List Value :=
  ((image.valueOffsets node).filterMap image.valueNode?).map image.valueOf

/-- The names of the subkeys of a key, in order. -/
def subkeyNames (image : HiveImage) (node : KeyNode) : List String :=
  if node.hasSubkeys then image.childNames node.subkeyList else []

/-- A key as it is handed out. -/
def keyOf (image : HiveImage) (found : FoundKey) : Key where
  name := found.node.name
  path := found.path
  lastModified := found.node.lastWrittenTime
  subkeyNames := image.subkeyNames found.node
  values := image.valuesOf found.node

/-- The root key. -/
def root? (image : HiveImage) : Option FoundKey :=
  (image.keyNode? image.baseBlock.rootOffset).map fun node =>
    { offset := image.baseBlock.rootOffset, node := node, path := node.name }

/-- The key at an offset as a subkey of a key. -/
def subkeyAt? (image : HiveImage) (parent : FoundKey) (offset : UInt32) : Option FoundKey :=
  (image.keyNode? offset).map fun node =>
    { offset := offset, node := node, path := KeyPath.append parent.path node.name }

/-- The first subkey with this name, ignoring case. -/
def subkey? (image : HiveImage) (parent : FoundKey) (name : String) : Option FoundKey :=
  if parent.node.hasSubkeys then
    (image.findChild? parent.node.subkeyList name).bind (image.subkeyAt? parent)
  else none

/-- The key that names lead to from a key. -/
def descend (image : HiveImage) : FoundKey → List String → Option FoundKey
  | found, [] => some found
  | found, name :: rest =>
    match image.subkey? found name with
    | none => none
    | some next => image.descend next rest

/-- The key that names lead to from the root. -/
def resolve (image : HiveImage) (names : List String) : Option FoundKey :=
  match image.root? with
  | none => none
  | some root => image.descend root names

theorem descend_append (image : HiveImage) (found : FoundKey) (names names' : List String) :
    image.descend found (names ++ names') =
      (image.descend found names).bind fun next => image.descend next names' := by
  induction names generalizing found with
  | nil => rfl
  | cons name rest ih =>
    rw [List.cons_append, descend, descend]
    cases image.subkey? found name with
    | none => rfl
    | some next => exact ih next

/-- Longer lists of names lead on from where their beginnings lead to. -/
theorem resolve_append (image : HiveImage) (names names' : List String) :
    image.resolve (names ++ names') =
      (image.resolve names).bind fun found => image.descend found names' := by
  unfold resolve
  cases image.root? with
  | none => rfl
  | some root => exact image.descend_append root names names'

/-- The key that a path leads to from the root. If it leads nowhere, a first name that is the name
of the root itself is passed over. -/
def find? (image : HiveImage) (path : String) : Option FoundKey :=
  match image.resolve (KeyPath.components path) with
  | some found => some found
  | none =>
    match image.root?, KeyPath.components path with
    | some root, first :: rest =>
      if Text.SameName first root.node.name then image.resolve rest else none
    | _, _ => none

end HiveImage

namespace Hive

/-- The hive of a file, without replay. -/
def ofBytes (bytes : ByteArray) : Except HiveError Hive :=
  (HiveImage.ofBytes bytes).map fun image => { image := image, replay := .zero }

/-- The hive of a file after logs have been replayed up to the usual size limit. -/
def ofBytesWithLogs (bytes : ByteArray) (logs : List TransactionLog) : Except HiveError Hive :=
  (HiveImage.ofBytes bytes).map fun image =>
    let (recovered, stats) := image.replay logs defaultSizeLimit
    { image := recovered, replay := stats }

/-- A page of a log was copied into the hive. -/
def logsApplied (hive : Hive) : Bool := hive.replay.applied

/-- The root key. -/
def rootKey? (hive : Hive) : Option Key := hive.image.root?.map hive.image.keyOf

/-- The key at a path. The path is relative to the root; it may also begin with the name of the
root. -/
def key? (hive : Hive) (path : String) : Option Key :=
  (hive.image.find? path).map hive.image.keyOf

end Hive

end RegistryHive
