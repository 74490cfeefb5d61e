import RegistryHive.Text.Hexadecimal

/-!
# Why a hive or a part of it cannot be read

`HiveError` names the cause of every failure together with the facts a reader
of the report needs; `HiveError.message` is the only place where a cause is put
into words, and `HiveError.kind` sorts causes into the four classes that a
caller can act on. Offsets are those of the failing structure, relative to the
first bin.
-/

namespace RegistryHive

/-- Why a file could not be read. -/
inductive ReadFailure
  | notFound
  | permissionDenied
  | unexpectedEnd
  | notAFile
  | unusablePath
  deriving DecidableEq, Repr

/-- A read failure in words. -/
def ReadFailure.message : ReadFailure → String
  | .notFound => "no such file"
  | .permissionDenied => "permission denied"
  | .unexpectedEnd => "unexpected end of file"
  | .notAFile => "not a file"
  | .unusablePath => "unusable path"

/-- What is wrong with a structure that carries a foreign tag or impossible fields. -/
inductive Defect
  | notKeyNode (offset : UInt32)
  | notValueNode (offset : UInt32)
  | notBigData (offset : UInt32)
  | nameOverrun (offset : UInt32)
  | other (description : String)
  deriving DecidableEq, Repr

/-- A defect in words. -/
def Defect.message : Defect → String
  | .notKeyNode offset => Hexadecimal.marked offset.toNat ++ " is not an nk cell"
  | .notValueNode offset => Hexadecimal.marked offset.toNat ++ " is not a vk cell"
  | .notBigData offset =>
    "Cell at " ++ Hexadecimal.marked offset.toNat ++ " is not a big data header"
  | .nameOverrun offset =>
    "Key name at " ++ Hexadecimal.marked offset.toNat ++ " overruns the cell in both layouts"
  | .other description => description

/-- The classes of failure that a caller can act on. -/
inductive ErrorKind
  | fileNotFound
  | readFailed
  | invalidSignature
  | corrupt
  deriving DecidableEq, Repr

/-- The causes of failure. -/
inductive HiveError
  /-- No file has this path. -/
  | fileNotFound (path : String)
  /-- The file exists but could not be read. -/
  | readFailed (failure : ReadFailure)
  /-- The file does not begin with the mark of the format. -/
  | invalidSignature (expected found : ByteArray)
  /-- The file is shorter than its fixed first block. -/
  | hiveTooSmall (size minimum : Nat)
  /-- A structure carries a foreign tag or impossible fields. -/
  | malformed (defect : Defect)
  /-- A cell offset leaves an image of the given size. -/
  | invalidOffset (offset : UInt32) (imageSize : Nat)
  /-- The size field of a cell cannot be right. -/
  | invalidCellSize (size : Int) (offset : UInt32)
  /-- A free cell stands where an allocated one is needed. -/
  | unallocatedCell (offset : UInt32)
  /-- The tag of a cell is none of the known ones. -/
  | unknownCellTag (tag : ByteArray) (offset : UInt32)
  /-- A structure needs more bytes than are there. -/
  | truncated (offset : UInt32) (expected actual : Nat)
  /-- The tag is not that of a subkey list. -/
  | notSubkeyList (tag : ByteArray)
  deriving DecidableEq

namespace HiveError

/-- The class of a cause. A read failure because the file is missing counts as a missing file. -/
def kind : HiveError → ErrorKind
  | fileNotFound _ => .fileNotFound
  | readFailed .notFound => .fileNotFound
  | readFailed _ => .readFailed
  | invalidSignature _ _ => .invalidSignature
  | hiveTooSmall _ _ => .invalidSignature
  | _ => .corrupt

/-- A cause in words. -/
def message : HiveError → String
  | fileNotFound path => "Hive file not found: " ++ path
  | readFailed failure => "Read failed: " ++ failure.message
  | invalidSignature expected found =>
    "Invalid signature: expected " ++ Hexadecimal.ofBytes expected ++ ", found " ++
      Hexadecimal.ofBytes found
  | hiveTooSmall size minimum =>
    "File is " ++ toString size ++ " bytes, shorter than the " ++ toString minimum ++
      "-byte base block"
  | malformed defect => "Malformed structure: " ++ defect.message
  | invalidOffset offset imageSize =>
    "Cell offset " ++ Hexadecimal.marked offset.toNat ++ " outside image of " ++
      Hexadecimal.marked imageSize ++ " bytes"
  | invalidCellSize size offset =>
    "Implausible cell size " ++ toString size ++ " at offset " ++
      Hexadecimal.marked offset.toNat
  | unallocatedCell offset =>
    "Cell at offset " ++ Hexadecimal.marked offset.toNat ++ " is not allocated"
  | unknownCellTag tag offset =>
    "Unknown cell type: " ++ Hexadecimal.ofBytes tag ++ " at offset " ++
      Hexadecimal.marked offset.toNat
  | truncated offset expected actual =>
    "Structure at " ++ Hexadecimal.marked offset.toNat ++ " needs " ++ toString expected ++
      " bytes, only " ++ toString actual ++ " available"
  | notSubkeyList tag => "Not a subkey list signature: " ++ Hexadecimal.ofBytes tag

/-- The error of opening a path whose file could not be read. -/
def ofReadFailure (path : String) : ReadFailure → HiveError
  | .notFound => fileNotFound path
  | failure => readFailed failure

/-- Opening reports a missing file in exactly one way. -/
theorem kind_ofReadFailure_eq_fileNotFound_iff (path : String) (failure : ReadFailure) :
    (ofReadFailure path failure).kind = .fileNotFound ↔ failure = .notFound := by
  cases failure <;> simp [ofReadFailure, kind]

end HiveError

end RegistryHive
