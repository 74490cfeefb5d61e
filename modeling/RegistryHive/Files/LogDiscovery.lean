import RegistryHive.Files.FileTree
import RegistryHive.Text.LowerCase

/-!
# Finding the logs of a hive

The logs of a hive lie in its directory. A file is taken for a log of the hive
when its name, in lower case, ends in one of the extensions of logs and the rest
of it is the name of the hive, with or without the extension of the hive. The
logs are listed in the order of their names, whatever the order of the
directory.
-/

namespace RegistryHive

/-- The extensions of log files, in lower case. -/
def logExtensions : List String := ["log", "log1", "log2"]

/-- A file name is that of a log of the hive with the given name. -/
def isLogOf (hiveName candidate : String) : Bool :=
  match FilePath.splitAtLastDot? (Text.lowerCase candidate) with
  | none => false
  | some (base, extension) =>
    logExtensions.contains extension &&
      (base == Text.lowerCase (FilePath.stem hiveName) || base == Text.lowerCase hiveName)

namespace FileTree

/-- The paths of the logs beside a hive, in the order of their names. -/
def discoverLogs (tree : FileTree) (hivePath : String) : List String :=
  match FilePath.fileName? hivePath with
  | none => []
  | some hiveName =>
    let directory := FilePath.directory hivePath
    let names := (tree.namesIn directory).filter fun name =>
      tree.isFile (FilePath.join directory name) && isLogOf hiveName name
    (names.mergeSort fun a b => !decide (b < a)).map (FilePath.join directory)

end FileTree

end RegistryHive
