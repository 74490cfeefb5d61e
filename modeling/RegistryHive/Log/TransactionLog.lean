import RegistryHive.BaseBlock
import RegistryHive.Log.Entry

/-!
# Transaction logs

A log file begins with a block like the base block of a hive, and log entries
follow it one after the other. Reading stops at the first place where no entry
can be read, so a damaged log gives the entries before the damage; only a
missing or foreign first block is an error.
-/

namespace RegistryHive

/-- The content of a log file. -/
structure TransactionLog where
  /-- The path the log was read from, if it was read from a file. -/
  path : Option String
  /-- The entries in file order. -/
  entries : List LogEntry
  deriving DecidableEq

namespace TransactionLog

/-- The entries from a position on, after those already found, which stand last entry first. -/
def scan (bytes : ByteArray) (position : Nat) (found : List LogEntry) : List LogEntry :=
  match _read : LogEntry.decode? bytes position with
  | none => found.reverse
  | some entry => scan bytes (position + entry.size.toNat) (entry :: found)
termination_by bytes.size - position
decreasing_by
  have bounds := LogEntry.size_bounds_of_decode? (by assumption)
  simp only [LogEntry.headerSize] at bounds
  omega

/-- Reads a log. -/
def decode (bytes : ByteArray) : Except HiveError TransactionLog :=
  (checkSignature bytes).map fun _ => { path := none, entries := scan bytes baseBlockSize [] }

/-- The bytes of a log with the given first block. -/
def encode (block : ByteArray) (entries : List LogEntry) : ByteArray :=
  entries.foldl (fun done entry => done ++ entry.encode) block

end TransactionLog

end RegistryHive
