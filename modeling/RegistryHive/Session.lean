import RegistryHive.Files.Loading
import RegistryHive.Hive.Traversal

/-!
# Sessions

A session loads hives with fixed options. It holds the hive that the last load
gave, or the error that the last load ended with, and never what an earlier load
left. Queries look at the hive and find nothing when there is none.
-/

namespace RegistryHive

/-- The options, and what the last load left. -/
structure Session where
  options : LoadOptions
  /-- The loaded hive. -/
  hive? : Option Hive
  /-- The error of the last load, if it failed. -/
  lastError? : Option HiveError

namespace Session

/-- A session before its first load. -/
def new (options : LoadOptions) : Session :=
  { options := options, hive? := none, lastError? := none }

/-- Loads the hive in the file at a path: whether this succeeded, and the session after it. -/
def tryLoad (session : Session) (tree : FileTree) (path : String) : Bool × Session :=
  match Hive.load tree path session.options with
  | .ok hive => (true, { session with hive? := some hive, lastError? := none })
  | .error error => (false, { session with hive? := none, lastError? := some error })

/-- The session after loading the hive in the file at a path. -/
def load (session : Session) (tree : FileTree) (path : String) : Session :=
  (session.tryLoad tree path).2

/-- The class of the error of the last load. -/
def lastErrorKind? (session : Session) : Option ErrorKind :=
  session.lastError?.map HiveError.kind

/-- A hive is loaded. -/
def isLoaded (session : Session) : Bool := session.hive?.isSome

/-- The root key of the loaded hive. -/
def rootKey? (session : Session) : Option Key := session.hive?.bind Hive.rootKey?

/-- The key at a path of the loaded hive. -/
def key? (session : Session) (path : String) : Option Key :=
  session.hive?.bind fun hive => hive.key? path

/-- All keys of the loaded hive, in pre-order. -/
def keys (session : Session) : List Key :=
  match session.hive? with
  | some hive => hive.keys
  | none => []

/-- The paths of all keys of the loaded hive, in pre-order. -/
def paths (session : Session) : List String :=
  match session.hive? with
  | some hive => hive.paths
  | none => []

/-- A page of a log was copied into the loaded hive. -/
def logsApplied (session : Session) : Bool := session.hive?.any Hive.logsApplied

end Session

end RegistryHive
