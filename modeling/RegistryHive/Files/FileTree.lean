import RegistryHive.Files.Path
import RegistryHive.HiveError

/-!
# File trees

A file tree holds files and directories, each under the list of names that leads
to it from the root, and one of the directories is the working directory. The
order of the entries is the order in which a directory lists what is in it. A path
is followed piece by piece, an absolute one from the root and any other one from
the working directory, and every piece needs a directory to be looked up in. The
root has no directory above it, so a step upwards from there leads back to it.
-/

namespace RegistryHive

/-- What a file tree holds under a list of names. -/
inductive FileNode
  | directory
  | file (bytes : ByteArray)
  /-- A file whose bytes cannot be read. -/
  | unreadable (failure : ReadFailure)
  deriving DecidableEq

/-- The files and directories of a file system, and the directory to work in. -/
structure FileTree where
  /-- What stands under a list of names from the root, in listing order. -/
  entries : List (List String × FileNode)
  /-- The names that lead from the root to the working directory. -/
  workingDirectory : List String
  deriving DecidableEq

namespace FileTree

/-- The tree of an empty working directory below the root. -/
def empty : FileTree where
  entries := [(["work"], .directory)]
  workingDirectory := ["work"]

/-- What stands under a list of names. The root has no name. -/
def node? (tree : FileTree) (names : List String) : Option FileNode :=
  if names.isEmpty then some .directory else tree.entries.lookup names

/-- The greatest number of bytes of a name. -/
def maxNameSize : Nat := 255

/-- The number of bytes that the text of a path cannot reach. -/
def pathSizeLimit : Nat := 4096

/-- Follows one piece of a path from a place. A name that is too long cannot be looked up. -/
def follow (tree : FileTree) (names : List String) (piece : String) :
    Except ReadFailure (List String) :=
  match tree.node? names with
  | none => .error .notFound
  | some (.file _) | some (.unreadable _) => .error .notAFile
  | some .directory =>
    if FilePath.isBlank piece then .ok names
    else if piece == ".." then .ok names.dropLast
    else if maxNameSize < piece.utf8ByteSize then .error .unusablePath
    else if (tree.node? (names ++ [piece])).isSome then .ok (names ++ [piece])
    else .error .notFound

/-- The place from which a path is followed. -/
def start (tree : FileTree) (path : String) : List String :=
  if FilePath.isAbsolute path then [] else tree.workingDirectory

/-- The names from the root to the place that a path leads to. -/
def locate (tree : FileTree) (path : String) : Except ReadFailure (List String) :=
  if path.toList.contains '\x00' || pathSizeLimit ≤ path.utf8ByteSize then .error .unusablePath
  else if path == "" then .error .notFound
  else (FilePath.pieces path).foldlM tree.follow (tree.start path)

/-- The content of the file at a path. -/
def read (tree : FileTree) (path : String) : Except ReadFailure ByteArray :=
  match tree.locate path with
  | .error failure => .error failure
  | .ok names =>
    match tree.node? names with
    | some (.file bytes) => .ok bytes
    | some (.unreadable failure) => .error failure
    | _ => .error .notAFile

/-- A file stands at the path, whether it can be read or not. -/
def isFile (tree : FileTree) (path : String) : Bool :=
  match tree.locate path with
  | .ok names =>
    match tree.node? names with
    | some (.file _) | some (.unreadable _) => true
    | _ => false
  | .error _ => false

/-- The names in the directory at a path, in listing order. There are none when the directory
cannot be listed. -/
def namesIn (tree : FileTree) (path : String) : List String :=
  match tree.locate path with
  | .ok names =>
    match tree.node? names with
    | some .directory =>
      tree.entries.filterMap fun entry =>
        if entry.1.dropLast == names then entry.1.getLast? else none
    | _ => []
  | .error _ => []

/-- Sets what stands under a list of names. -/
def set (tree : FileTree) (names : List String) (node : FileNode) : FileTree :=
  if tree.entries.any fun entry => entry.1 == names then
    { tree with
      entries := tree.entries.map fun entry => if entry.1 == names then (names, node) else entry }
  else { tree with entries := tree.entries ++ [(names, node)] }

/-- The list of names that a part leads to from a list of names. -/
def advance (names : List String) : FilePath.Part → List String
  | .root => []
  | .current => names
  | .parent => names.dropLast
  | .named name => names ++ [name]

/-- The names that lead from the root to the end of a path. -/
def target (tree : FileTree) (path : String) : List String :=
  (FilePath.parts path).foldl advance tree.workingDirectory

/-- Adds a directory under a list of names, unless something stands there. -/
def addDirectory (tree : FileTree) (names : List String) : FileTree :=
  if (tree.node? names).isSome then tree else tree.set names .directory

/-- Adds the directories that parts lead through from a list of names, in this order. A directory
that is left again by a step upwards is added too. -/
def addDirectories (tree : FileTree) (names : List String) : List FilePath.Part → FileTree
  | [] => tree
  | part :: rest =>
    (tree.addDirectory (advance names part)).addDirectories (advance names part) rest

/-- Adds the directory at a path, and the directories that the path leads through. -/
def makeDirectory (tree : FileTree) (path : String) : FileTree :=
  tree.addDirectories tree.workingDirectory (FilePath.parts path)

/-- Creates or replaces the file at a path, and adds the directories that the path leads
through. -/
def write (tree : FileTree) (path : String) (bytes : ByteArray) : FileTree :=
  (tree.addDirectories tree.workingDirectory (FilePath.parts path).dropLast).set
    (tree.target path) (.file bytes)

/-- Removes the file at a path. -/
def remove (tree : FileTree) (path : String) : FileTree :=
  { tree with
    entries := tree.entries.filter fun entry =>
      match entry with
      | (names, .file _) | (names, .unreadable _) => names != tree.target path
      | (_, .directory) => true }

end FileTree

end RegistryHive
