/-!
# File paths

A file path is a text of pieces between slashes. What it means is given by its
parts: empty pieces say nothing, and neither does the piece `.` except at the
start of a relative path. `SamePath` compares paths by their parts. The last
part is the file name, and `directory` is the text of everything before it.
-/

namespace RegistryHive.FilePath

/-- A part of a path. -/
inductive Part
  | root
  | current
  | parent
  | named (name : String)
  deriving DecidableEq, Repr

/-- The texts between the slashes of a path. -/
def pieces (path : String) : List String := (path.toList.splitOn '/').map String.ofList

/-- The path begins with a slash. -/
def isAbsolute (path : String) : Bool := path.toList.head? == some '/'

/-- The piece says nothing, except at the start of a path. -/
def isBlank (piece : String) : Bool := piece == "" || piece == "."

/-- The part that a piece stands for, at any place but the start of a path. -/
def part? (piece : String) : Option Part :=
  if isBlank piece then none else if piece == ".." then some .parent else some (.named piece)

/-- The part at the start of a path. -/
def firstPart? (path piece : String) : Option Part :=
  if isAbsolute path then some .root else if piece == "." then some .current else part? piece

/-- The parts of a path, in order. -/
def parts (path : String) : List Part :=
  match pieces path with
  | [] => []
  | first :: rest => (firstPart? path first).toList ++ rest.filterMap part?

/-- Two paths with the same parts are the same path. -/
def SamePath (a b : String) : Prop := parts a = parts b

instance (a b : String) : Decidable (SamePath a b) :=
  inferInstanceAs (Decidable (parts a = parts b))

/-- The name at the end of a path. -/
def fileName? (path : String) : Option String :=
  match (parts path).getLast? with
  | some (.named name) => some name
  | _ => none

/-- The pieces without the blank ones at the end. The first piece is kept. -/
def trimEnd : List String → List String
  | [] => []
  | first :: rest => first :: (rest.reverse.dropWhile isBlank).reverse

/-- The text of a path before its last part; the current directory when there is none. -/
def directory (path : String) : String :=
  match trimEnd (trimEnd (pieces path)).dropLast with
  | [] => "."
  | [""] => "/"
  | kept => "/".intercalate kept

/-- The path of a name in a directory. -/
def join (directory name : String) : String :=
  if directory.toList.getLast? == some '/' then directory ++ name else directory ++ "/" ++ name

/-- The text before the last dot of a name and the text after it. -/
def splitAtLastDot? (name : String) : Option (String × String) :=
  let backwards := name.toList.reverse
  match backwards.dropWhile (· ≠ '.') with
  | [] => none
  | _ :: base =>
    some (String.ofList base.reverse,
      String.ofList (backwards.takeWhile (· ≠ '.')).reverse)

/-- A name without its extension. A dot at the start of a name does not begin an extension. -/
def stem (name : String) : String :=
  match splitAtLastDot? name with
  | some (base, _) => if base == "" then name else base
  | none => name

end RegistryHive.FilePath
