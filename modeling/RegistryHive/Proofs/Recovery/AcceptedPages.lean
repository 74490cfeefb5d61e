import Mathlib.Data.List.Induction
import RegistryHive.Recovery

/-!
# The pages that a replay copies

A replay changes an image entry by entry and page by page. `acceptedPages` names
the pages that it copies, in the order in which it comes to them, and `layPages`
lays pages over a byte string. `Replayed` is the invariant of a replay: after some
entries the image is the old one with their accepted pages laid over it, and the
counts are the lengths of the lists they count. `Replayed.takeEntry` keeps it
through one entry and `replayed_entries` carries it through all of them.

At each position the last page that covers it decides, so the bytes after a
replay can be read off the list of accepted pages.
-/

namespace RegistryHive

namespace DirtyPage

/-- The page holds the byte at this position of the image. -/
def Covers (page : DirtyPage) (position : Nat) : Prop :=
  page.start ≤ position ∧ position < page.stop

instance (page : DirtyPage) (position : Nat) : Decidable (page.Covers position) :=
  inferInstanceAs (Decidable (_ ∧ _))

theorem baseBlockSize_le_start (page : DirtyPage) : baseBlockSize ≤ page.start :=
  Nat.le_add_right _ _

/-- A page that is copied is seen where it covers the image. -/
theorem byteAt_overwrite (bytes : ByteArray) (page : DirtyPage) (position : Nat) :
    byteAt (overwrite bytes page.start page.bytes) position =
      if page.Covers position then byteAt page.bytes (position - page.start)
      else byteAt bytes position :=
  RegistryHive.byteAt_overwrite bytes page.start page.bytes position

end DirtyPage

/-- The last of the pages that covers a position. -/
def lastCovering? (pages : List DirtyPage) (position : Nat) : Option DirtyPage :=
  (pages.filter fun page => page.Covers position).getLast?

theorem lastCovering?_concat (pages : List DirtyPage) (page : DirtyPage) (position : Nat) :
    lastCovering? (pages ++ [page]) position =
      if page.Covers position then some page else lastCovering? pages position := by
  unfold lastCovering?
  split <;> simp [List.filter_append, *]

/-- The last page that covers a position is looked for in the later pages first. -/
theorem lastCovering?_append (pages later : List DirtyPage) (position : Nat) :
    lastCovering? (pages ++ later) position =
      (lastCovering? later position).or (lastCovering? pages position) := by
  simp only [lastCovering?, List.filter_append, List.getLast?_append]

theorem lastCovering?_eq_none_iff {pages : List DirtyPage} {position : Nat} :
    lastCovering? pages position = none ↔ ∀ page ∈ pages, ¬ page.Covers position := by
  simp [lastCovering?]

theorem mem_of_lastCovering?_eq_some {pages : List DirtyPage} {position : Nat} {page : DirtyPage}
    (h : lastCovering? pages position = some page) : page ∈ pages ∧ page.Covers position := by
  simpa using List.mem_of_getLast? h

/-- The entry is the newest one: it has the greatest sequence number, and it is the last one that
has it. -/
def Newest (entries : List LogEntry) (newest : LogEntry) : Prop :=
  ∃ earlier later, entries = earlier ++ newest :: later ∧
    (∀ entry ∈ earlier, entry.sequence ≤ newest.sequence) ∧
    ∀ entry ∈ later, entry.sequence < newest.sequence

theorem Newest.sequence_le {entries : List LogEntry} {newest : LogEntry}
    (h : Newest entries newest) : ∀ entry ∈ entries, entry.sequence ≤ newest.sequence := by
  obtain ⟨earlier, later, rfl, before, after⟩ := h
  intro entry member
  rcases List.mem_append.mp member with inEarlier | inRest
  · exact before entry inEarlier
  · rcases List.mem_cons.mp inRest with rfl | inLater
    · exact UInt32.le_refl _
    · exact UInt32.le_of_lt (after entry inLater)

private theorem eq_of_after {newest other : LogEntry} {between later later' : List LogEntry}
    (split : newest :: later = between ++ other :: later')
    (after : ∀ entry ∈ later, entry.sequence < newest.sequence)
    (le : newest.sequence ≤ other.sequence) : newest = other := by
  cases between with
  | nil => exact (List.cons.inj split).1
  | cons first between =>
      obtain ⟨-, rfl⟩ := List.cons.inj split
      have lt := after other (List.mem_append_right between List.mem_cons_self)
      exact absurd lt (UInt32.not_lt.mpr le)

/-- There is only one newest entry. -/
theorem Newest.unique {entries : List LogEntry} {newest other : LogEntry}
    (h : Newest entries newest) (h' : Newest entries other) : newest = other := by
  have member {entry : LogEntry} (h : Newest entries entry) : entry ∈ entries := by
    obtain ⟨earlier, later, rfl, -⟩ := h
    exact List.mem_append_right earlier List.mem_cons_self
  have le := h'.sequence_le newest (member h)
  have ge := h.sequence_le other (member h')
  obtain ⟨earlier, later, split, -, after⟩ := h
  obtain ⟨earlier', later', split', -, after'⟩ := h'
  -- One of the two stands first, and then the other one is not newer.
  rcases List.append_eq_append_iff.mp (split.symm.trans split') with
    ⟨between, -, rest⟩ | ⟨between, -, rest⟩
  · exact eq_of_after rest after le
  · exact (eq_of_after rest after' ge).symm

/-- An entry that is at least as new as the newest one takes its place. -/
theorem Newest.concat_of_le {entries : List LogEntry} {newest entry : LogEntry}
    (h : Newest entries newest) (le : newest.sequence ≤ entry.sequence) :
    Newest (entries ++ [entry]) entry :=
  ⟨entries, [], rfl, fun other member => UInt32.le_trans (h.sequence_le other member) le,
    by simp⟩

/-- An older entry leaves the newest one in its place. -/
theorem Newest.concat_of_lt {entries : List LogEntry} {newest entry : LogEntry}
    (h : Newest entries newest) (lt : entry.sequence < newest.sequence) :
    Newest (entries ++ [entry]) newest := by
  obtain ⟨earlier, later, rfl, before, after⟩ := h
  refine ⟨earlier, later ++ [entry], by simp, before, ?_⟩
  intro other member
  rcases List.mem_append.mp member with inLater | last
  · exact after other inLater
  · rw [List.mem_singleton.mp last]
    exact lt

/-- The bytes with pages laid over them, one after the other. -/
def layPages (bytes : ByteArray) (pages : List DirtyPage) : ByteArray :=
  pages.foldl (fun bytes page => overwrite bytes page.start page.bytes) bytes

@[simp] theorem layPages_nil (bytes : ByteArray) : layPages bytes [] = bytes := rfl

theorem layPages_append (bytes : ByteArray) (pages later : List DirtyPage) :
    layPages bytes (pages ++ later) = layPages (layPages bytes pages) later :=
  List.foldl_append

/-- Pages make a byte string as long as the one of them that reaches farthest. -/
theorem size_layPages (bytes : ByteArray) (pages : List DirtyPage) :
    (layPages bytes pages).size = (pages.map DirtyPage.stop).foldl max bytes.size := by
  induction pages generalizing bytes with
  | nil => rfl
  | cons page rest ih =>
      change (layPages (overwrite bytes page.start page.bytes) rest).size = _
      rw [ih, size_overwrite]
      rfl

/-- Pages never make a byte string shorter. -/
theorem size_le_size_layPages (bytes : ByteArray) (pages : List DirtyPage) :
    bytes.size ≤ (layPages bytes pages).size := by
  induction pages generalizing bytes with
  | nil => exact Nat.le_refl bytes.size
  | cons page rest ih =>
      have grown := ih (overwrite bytes page.start page.bytes)
      rw [size_overwrite] at grown
      exact Nat.le_trans (Nat.le_max_left _ _) grown

/-- A byte string holds every page that was laid over it. -/
theorem stop_le_size_layPages {pages : List DirtyPage} {page : DirtyPage} (member : page ∈ pages)
    (bytes : ByteArray) : page.stop ≤ (layPages bytes pages).size := by
  obtain ⟨before, after, rfl⟩ := List.append_of_mem member
  rw [layPages_append]
  change page.stop ≤ (layPages (overwrite _ page.start page.bytes) after).size
  refine Nat.le_trans ?_ (size_le_size_layPages _ after)
  rw [size_overwrite]
  exact Nat.le_max_right _ _

/-- Pages that end inside a limit do not make a byte string longer than that. -/
theorem size_layPages_le {limit : Nat} {pages : List DirtyPage}
    (inside : ∀ page ∈ pages, page.stop ≤ limit) (bytes : ByteArray) :
    (layPages bytes pages).size ≤ max bytes.size limit := by
  induction pages generalizing bytes with
  | nil => exact Nat.le_max_left bytes.size limit
  | cons page rest ih =>
      have head : page.start + page.bytes.size ≤ limit := inside page List.mem_cons_self
      have tail := ih (fun other member => inside other (List.mem_cons_of_mem page member))
        (overwrite bytes page.start page.bytes)
      rw [size_overwrite] at tail
      change (layPages (overwrite bytes page.start page.bytes) rest).size ≤ _
      omega

/-- The last page that covers a position decides which byte stands there. -/
theorem byteAt_layPages (bytes : ByteArray) (pages : List DirtyPage) (position : Nat) :
    byteAt (layPages bytes pages) position =
      match lastCovering? pages position with
      | some page => byteAt page.bytes (position - page.start)
      | none => byteAt bytes position := by
  -- Going from the right, the page that is looked at is the one laid last.
  induction pages using List.reverseRecOn with
  | nil => rfl
  | append_singleton pages page ih =>
      rw [layPages_append, lastCovering?_concat]
      change byteAt (overwrite (layPages bytes pages) page.start page.bytes) position = _
      rw [page.byteAt_overwrite]
      by_cases covered : page.Covers position
      · rw [if_pos covered, if_pos covered]
      · rw [if_neg covered, if_neg covered, ih]

/-- Laying pages once more changes nothing: at each position the same page comes last. -/
theorem layPages_layPages (bytes : ByteArray) (pages : List DirtyPage) :
    layPages (layPages bytes pages) pages = layPages bytes pages := by
  apply bytes_ext
  · apply Nat.le_antisymm
    · have laid : ∀ page ∈ pages, page.stop ≤ (layPages bytes pages).size :=
        fun page member => stop_le_size_layPages member bytes
      have inside := size_layPages_le laid (layPages bytes pages)
      rwa [Nat.max_self] at inside
    · exact size_le_size_layPages _ pages
  · intro position _
    rw [← layPages_append, byteAt_layPages, byteAt_layPages, lastCovering?_append, Option.or_self]

/-- Where no page covers a position, its byte stays. -/
theorem byteAt_layPages_of_uncovered {pages : List DirtyPage} {position : Nat}
    (uncovered : ∀ page ∈ pages, ¬ page.Covers position) (bytes : ByteArray) :
    byteAt (layPages bytes pages) position = byteAt bytes position := by
  rw [byteAt_layPages, lastCovering?_eq_none_iff.mpr uncovered]

/-- Pages lie past the base block and leave it alone. -/
theorem byteAt_layPages_of_lt (bytes : ByteArray) (pages : List DirtyPage) {position : Nat}
    (header : position < baseBlockSize) :
    byteAt (layPages bytes pages) position = byteAt bytes position := by
  apply byteAt_layPages_of_uncovered
  intro page _ covers
  exact absurd (Nat.le_trans page.baseBlockSize_le_start covers.1) (Nat.not_le.mpr header)

namespace LogEntry

/-- The pages of the entry that end inside the size limit, in order. -/
def acceptedPages (limit : Nat) (entry : LogEntry) : List DirtyPage :=
  entry.pages.filter fun page => page.stop ≤ limit

end LogEntry

namespace HiveImage

/-- The entries of logs that are newer than the hive, in order. -/
def newerEntries (image : HiveImage) (logs : List TransactionLog) : List LogEntry :=
  (logs.flatMap (·.entries)).filter fun entry => image.baseBlock.minSequence < entry.sequence

/-- The pages of newer entries that end inside the size limit: in the order of the logs, of their
entries and of the pages. -/
def acceptedPages (image : HiveImage) (logs : List TransactionLog) (limit : Nat) :
    List DirtyPage :=
  (image.newerEntries logs).flatMap (LogEntry.acceptedPages limit)

theorem stop_le_of_mem_acceptedPages {image : HiveImage} {logs : List TransactionLog}
    {limit : Nat} {page : DirtyPage} (member : page ∈ image.acceptedPages logs limit) :
    page.stop ≤ limit := by
  obtain ⟨entry, -, accepted⟩ := List.mem_flatMap.mp member
  exact of_decide_eq_true (List.mem_filter.mp accepted).2

end HiveImage

namespace ReplayState

/-- Copying pages one after the other lays the accepted ones over the image and counts them. -/
theorem foldl_copyPage (limit : Nat) (state : ReplayState) (pages : List DirtyPage) :
    pages.foldl (copyPage limit) state =
      { state with
        image.bytes :=
          layPages state.image.bytes (pages.filter fun page => page.stop ≤ limit)
        stats.pagesApplied :=
          state.stats.pagesApplied + (pages.filter fun page => page.stop ≤ limit).length } := by
  induction pages generalizing state with
  | nil => rfl
  | cons page rest ih =>
      rw [List.foldl_cons, ih]
      by_cases fits : page.stop ≤ limit
      · simp [copyPage, fits, HiveImage.writePage, layPages, Nat.add_assoc, Nat.add_comm 1]
      · simp [copyPage, fits]

/-- The invariant of a replay: what its state is after `entries`, when it began with `image` and
`minSequence` is the smaller sequence number there. -/
structure Replayed (image : HiveImage) (logs : Nat) (minSequence : UInt32) (limit : Nat)
    (entries : List LogEntry) (state : ReplayState) : Prop where
  bytes : state.image.bytes =
    layPages image.bytes ((entries.filter fun entry => minSequence < entry.sequence).flatMap
      (LogEntry.acceptedPages limit))
  baseBlock : state.image.baseBlock = image.baseBlock
  stats : state.stats =
    { logsRead := logs
      entriesSeen := entries.length
      entriesApplied := (entries.filter fun entry => minSequence < entry.sequence).length
      pagesApplied := ((entries.filter fun entry => minSequence < entry.sequence).flatMap
        (LogEntry.acceptedPages limit)).length }
  newest : ∀ newest, state.newest = some newest →
    Newest (entries.filter fun entry => minSequence < entry.sequence) newest
  newest_none : state.newest = none →
    entries.filter (fun entry => minSequence < entry.sequence) = []

section Replay

variable {image : HiveImage} {logs : Nat} {minSequence : UInt32} {limit : Nat}

theorem replayed_start :
    Replayed image logs minSequence limit [] (start image logs) where
  bytes := rfl
  baseBlock := rfl
  stats := rfl
  newest := by simp [start]
  newest_none := by simp

/-- The newer of the newest entry and the one that follows is the newest of them all. -/
theorem newest_newerOf {entries : List LogEntry} {newest : Option LogEntry} (entry : LogEntry)
    (some_newest : ∀ best, newest = some best → Newest entries best)
    (none_newest : newest = none → entries = []) :
    Newest (entries ++ [entry]) (newerOf newest entry) := by
  cases newest with
  | none =>
      rw [none_newest rfl]
      exact ⟨[], [], rfl, by simp, by simp⟩
  | some best =>
      have isNewest := some_newest best rfl
      rw [newerOf]
      by_cases le : best.sequence ≤ entry.sequence
      · rw [if_pos le]
        exact isNewest.concat_of_le le
      · rw [if_neg le]
        exact isNewest.concat_of_lt (UInt32.not_le.mp le)

/-- One entry keeps the invariant of a replay. -/
theorem Replayed.takeEntry {entries : List LogEntry} {state : ReplayState}
    (h : Replayed image logs minSequence limit entries state) (entry : LogEntry) :
    Replayed image logs minSequence limit (entries ++ [entry])
      (state.takeEntry minSequence limit entry) := by
  obtain ⟨bytes, baseBlock, stats, newest, newest_none⟩ := h
  by_cases newer : minSequence < entry.sequence
  · have filtered : (entries ++ [entry]).filter (fun e => minSequence < e.sequence) =
        entries.filter (fun e => minSequence < e.sequence) ++ [entry] := by
      simp [List.filter_append, newer]
    have taken : state.takeEntry minSequence limit entry =
        { image := { state.image with
            bytes := layPages state.image.bytes (entry.acceptedPages limit) }
          stats := { state.stats with
            entriesSeen := state.stats.entriesSeen + 1
            entriesApplied := state.stats.entriesApplied + 1
            pagesApplied := state.stats.pagesApplied + (entry.acceptedPages limit).length }
          newest := some (newerOf state.newest entry) } := by
      simp [ReplayState.takeEntry, newer, foldl_copyPage, LogEntry.acceptedPages]
    rw [taken]
    constructor
    · rw [filtered, List.flatMap_append, layPages_append, ← bytes]
      simp
    · exact baseBlock
    · rw [filtered]
      simp [stats]
    · rintro best ⟨⟩
      rw [filtered]
      exact newest_newerOf entry newest newest_none
    · simp
  · have filtered : (entries ++ [entry]).filter (fun e => minSequence < e.sequence) =
        entries.filter (fun e => minSequence < e.sequence) := by
      simp [List.filter_append, newer]
    have taken : state.takeEntry minSequence limit entry =
        { state with stats.entriesSeen := state.stats.entriesSeen + 1 } := by
      simp [ReplayState.takeEntry, newer]
    rw [taken]
    constructor
    · rw [filtered]
      exact bytes
    · exact baseBlock
    · rw [filtered]
      simp [stats]
    · rw [filtered]
      exact newest
    · rw [filtered]
      exact newest_none

/-- The invariant holds after every run of entries. -/
theorem replayed_entries (entries : List LogEntry) :
    Replayed image logs minSequence limit entries
      (entries.foldl (ReplayState.takeEntry minSequence limit) (start image logs)) := by
  induction entries using List.reverseRecOn with
  | nil => exact replayed_start
  | append_singleton entries entry ih =>
      rw [List.foldl_append, List.foldl_cons, List.foldl_nil]
      exact ih.takeEntry entry

end Replay

end ReplayState

end RegistryHive
