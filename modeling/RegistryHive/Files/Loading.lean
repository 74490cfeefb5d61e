import RegistryHive.Files.LogDiscovery
import RegistryHive.Hive.Lookup

/-!
# Loading hives from files

A hive is read from a file and, unless the options say otherwise, recovered from
the logs beside it and from logs that the options name. Only the hive file
itself can make loading fail: a log that is missing, damaged or foreign is left
out.
-/

namespace RegistryHive

/-- How a hive is loaded. -/
structure LoadOptions where
  /-- Logs are found and replayed. -/
  recover : Bool := true
  /-- The greatest size that the image may reach through replay. -/
  sizeLimit : Nat := defaultSizeLimit
  /-- Logs to replay after those that are found. -/
  extraLogs : List String := []
  deriving DecidableEq, Repr

namespace FileTree

/-- The content of the file at a path, for loading. -/
def readFor (tree : FileTree) (path : String) : Except HiveError ByteArray :=
  match tree.read path with
  | .ok bytes => .ok bytes
  | .error failure => .error (.ofReadFailure path failure)

/-- The log in the file at a path. -/
def loadLog (tree : FileTree) (path : String) : Except HiveError TransactionLog :=
  match tree.readFor path with
  | .error error => .error error
  | .ok bytes => (TransactionLog.decode bytes).map fun log => { log with path := some path }

/-- The logs in the files at paths, without those that cannot be loaded. -/
def loadLogs (tree : FileTree) (paths : List String) : List TransactionLog :=
  paths.filterMap fun path => (tree.loadLog path).toOption

/-- Adds a path to paths, unless it is one of them. -/
def addPath (paths : List String) (path : String) : List String :=
  if paths.any fun known => decide (FilePath.SamePath known path) then paths else paths ++ [path]

/-- The logs to replay for a hive: those beside it, then those that the options name and that are
not among the earlier ones. -/
def logPaths (tree : FileTree) (path : String) (options : LoadOptions) : List String :=
  options.extraLogs.foldl addPath (tree.discoverLogs path)

end FileTree

namespace Hive

/-- Loads the hive in the file at a path. -/
def load (tree : FileTree) (path : String) (options : LoadOptions) : Except HiveError Hive :=
  match tree.readFor path with
  | .error error => .error error
  | .ok bytes =>
    (HiveImage.ofBytes bytes).map fun image =>
      if options.recover then
        let logs := tree.loadLogs (tree.logPaths path options)
        let (recovered, stats) := image.replay logs options.sizeLimit
        { image := recovered, replay := stats }
      else { image := image, replay := .zero }

end Hive

end RegistryHive
