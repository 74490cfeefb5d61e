import RegistryHive.Image
import RegistryHive.Log.TransactionLog

/-!
# Recovering a hive from its logs

A log entry is newer than a hive when its sequence number is greater than the
smaller sequence number of the hive. Replaying logs goes through the entries of
all logs in order and copies the pages of every newer entry into the image. A
page that would end past the size limit is left out. When a page was copied, the
base block takes the bins size of the newest of these entries and a checksum
that belongs to it, and is read again.

`ReplayState` is what a replay knows after some entries: the image as it is now,
the counts so far, and the newest entry that was applied.
-/

namespace RegistryHive

/-- The greatest size that an image may reach through replay, unless a caller asks for another. -/
def defaultSizeLimit : Nat := 536870912

namespace DirtyPage

/-- The position of the page in the image. -/
def start (page : DirtyPage) : Nat := baseBlockSize + page.offset.toNat

/-- The position after the last byte of the page. -/
def stop (page : DirtyPage) : Nat := page.start + page.bytes.size

end DirtyPage

/-- What a replay reports. -/
structure ReplayStats where
  /-- The logs that were offered. -/
  logsRead : Nat
  /-- The entries of all logs. -/
  entriesSeen : Nat
  /-- The entries that are newer than the hive. -/
  entriesApplied : Nat
  /-- The pages that were copied. -/
  pagesApplied : Nat
  deriving DecidableEq, Repr

namespace ReplayStats

/-- The report of a hive that was loaded without replay. -/
def zero : ReplayStats := ⟨0, 0, 0, 0⟩

/-- A page was copied. -/
def applied (stats : ReplayStats) : Bool := stats.pagesApplied != 0

end ReplayStats

namespace HiveImage

/-- The image with a page copied into it. It grows when the page reaches past its end. -/
def writePage (image : HiveImage) (page : DirtyPage) : HiveImage :=
  { image with bytes := overwrite image.bytes page.start page.bytes }

/-- The bytes with a new bins size in the base block, if one is given. -/
def storeBinsSize (bytes : ByteArray) : Option UInt32 → ByteArray
  | some size => withBinsSize bytes size
  | none => bytes

/-- The image with a new bins size, if one is given, and its base block read again. A base block
that cannot be read leaves the old one in place. -/
def refreshHeader (image : HiveImage) (binsSize : Option UInt32) : HiveImage :=
  let bytes := storeBinsSize image.bytes binsSize
  match BaseBlock.decode bytes with
  | .ok block => { bytes := bytes, baseBlock := block }
  | .error _ => { bytes := bytes, baseBlock := image.baseBlock }

end HiveImage

/-- What a replay knows after some entries. -/
structure ReplayState where
  image : HiveImage
  stats : ReplayStats
  /-- The newest entry that was applied, the last one among equals. -/
  newest : Option LogEntry

namespace ReplayState

/-- Nothing has been replayed yet. -/
def start (image : HiveImage) (logs : Nat) : ReplayState where
  image := image
  stats := { ReplayStats.zero with logsRead := logs }
  newest := none

/-- Copies a page into the image, unless it would end past the size limit. -/
def copyPage (limit : Nat) (state : ReplayState) (page : DirtyPage) : ReplayState :=
  let ⟨image, stats, newest⟩ := state
  if page.stop ≤ limit then
    ⟨image.writePage page, { stats with pagesApplied := stats.pagesApplied + 1 }, newest⟩
  else ⟨image, stats, newest⟩

/-- The newer of an entry seen before and the one that follows it. -/
def newerOf (newest : Option LogEntry) (entry : LogEntry) : LogEntry :=
  match newest with
  | none => entry
  | some best => if best.sequence ≤ entry.sequence then entry else best

/-- Counts an entry and, when it is newer than the hive, copies its pages. -/
def takeEntry (minSequence : UInt32) (limit : Nat) (state : ReplayState) (entry : LogEntry) :
    ReplayState :=
  let ⟨image, stats, newest⟩ := state
  let seen := { stats with entriesSeen := stats.entriesSeen + 1 }
  if minSequence < entry.sequence then
    let counted := { seen with entriesApplied := seen.entriesApplied + 1 }
    let copied := entry.pages.foldl (copyPage limit) ⟨image, counted, newest⟩
    { copied with newest := some (newerOf copied.newest entry) }
  else ⟨image, seen, newest⟩

/-- Brings the base block up to date when a page was copied. An entry without a bins size leaves
the stored one as it is. -/
def finish (state : ReplayState) : HiveImage × ReplayStats :=
  let ⟨image, stats, newest⟩ := state
  if stats.applied then
    (image.refreshHeader ((newest.map (·.binsSize)).filter (0 < ·)), stats)
  else (image, stats)

end ReplayState

namespace HiveImage

/-- Replays logs: the image after it, and the report. -/
def replay (image : HiveImage) (logs : List TransactionLog) (limit : Nat) :
    HiveImage × ReplayStats :=
  let entries := logs.flatMap (·.entries)
  let start := ReplayState.start image logs.length
  (entries.foldl (ReplayState.takeEntry image.baseBlock.minSequence limit) start).finish

end HiveImage

end RegistryHive
