import Mathlib.Algebra.Order.BigOperators.Group.List
import Mathlib.Algebra.Order.Group.Nat
import Mathlib.Tactic.Ring
import RegistryHive.Proofs.Log.EncodedLog

/-!
# Where log entries stand

An entry that is read at a position stands there with all its bytes
(`decode?_eq_some_iff_holdsAt`), so it ends inside the log. The scan goes on behind the
bytes that an entry declares, which need not be the bytes that it takes: the pages of an
entry are only asked to end inside the log. So the places from which entries are read lie
apart from each other, and so do the entries themselves as long as each takes no more
bytes than it declares (`extents`). Otherwise a page can hold the entries that follow it,
down to the last one: in `nestedLog` all pages together are longer than the log.
-/

namespace RegistryHive

namespace LogEntry

section Standing

variable {bytes : ByteArray} {position : Nat} {entry : LogEntry}

/-- The bytes of a reference. -/
def encodeRef (ref : PageRef) : ByteArray :=
  u32Bytes ref.offset ++ u32Bytes (UInt32.ofNat ref.size)

theorem map_refBytes (pages : List DirtyPage) :
    pages.map refBytes = (pages.map refOf).map encodeRef := by
  rw [List.map_map]
  rfl

/-- Pages that are cut out one after the other stand there as their references say. -/
theorem exists_cutPages {start : Nat} {refs : List PageRef}
    (inside : start + payloadSize refs ≤ bytes.size) (done : List DirtyPage) :
    ∃ pages, cutPages bytes done start refs = done.reverse ++ pages ∧ pages.map refOf = refs ∧
      HoldsAt bytes start (joined (pages.map (·.bytes))) := by
  induction refs generalizing start done with
  | nil =>
      exact ⟨[], (List.append_nil _).symm, rfl, holdsAt_empty inside⟩
  | cons ref rest ih =>
      have total : start + (ref.size + payloadSize rest) ≤ bytes.size := inside
      have behind : start + ref.size + payloadSize rest ≤ bytes.size := by omega
      have size : (bytes.extract start (start + ref.size)).size = ref.size := by
        rw [ByteArray.size_extract]
        omega
      obtain ⟨pages, cut, same, stand⟩ :=
        ih behind (⟨ref.offset, bytes.extract start (start + ref.size)⟩ :: done)
      refine ⟨⟨ref.offset, bytes.extract start (start + ref.size)⟩ :: pages, ?_, ?_, ?_⟩
      · rw [cutPages, cut, List.reverse_cons, List.append_assoc, List.singleton_append]
      · rw [List.map_cons, same, refOf, size]
      · exact (holdsAt_extract (by omega)).join size stand

theorem length_cutPages (done : List DirtyPage) (start : Nat) (refs : List PageRef) :
    (cutPages bytes done start refs).length = done.length + refs.length := by
  induction refs generalizing done start with
  | nil => exact List.length_reverse
  | cons ref rest ih =>
      rw [cutPages, ih, List.length_cons, List.length_cons]
      omega

/-- As many pages are cut out as the header counts. -/
theorem length_pages_fieldsAt (bytes : ByteArray) (position : Nat) :
    (fieldsAt bytes position).pages.length = pageCount bytes position := by
  have counted : (refs bytes position).length = pageCount bytes position := by simp [refs]
  exact (length_cutPages [] _ _).trans ((Nat.zero_add _).trans counted)

/-- The references that are read stand behind the header. -/
theorem holdsAt_refs_of_headerFits (fits : HeaderFits bytes position) :
    HoldsAt bytes (position + headerSize) (joined ((refs bytes position).map encodeRef)) := by
  have uniform : ∀ part ∈ (refs bytes position).map encodeRef, part.size = refSize := by
    intro part member
    obtain ⟨ref, -, rfl⟩ := List.mem_map.mp member
    simp [encodeRef, refSize]
  have inside := fits.refs
  rw [pagesStart] at inside
  refine holdsAt_joined_of_getElem uniform (by omega) fun i hi => ?_
  have few : i < pageCount bytes position := by simpa [refs] using hi
  have fit : position + headerSize + refSize * i + 8 ≤ bytes.size := by
    have := Nat.mul_le_mul_right refSize few
    rw [Nat.succ_mul, refSize] at this
    rw [refSize] at inside ⊢
    omega
  simp only [refs, List.map_map, List.getElem_map, List.getElem_range, Function.comp, encodeRef,
    UInt32.ofNat_toNat, Nat.mul_comm i]
  exact (holdsAt_u32At (by omega)).join (size_u32Bytes _) (holdsAt_u32At (by omega))

/-- The fields that are read stand in the header. -/
theorem holdsAt_header_of_headerFits (fits : HeaderFits bytes position) :
    HoldsAt bytes position (joined (fieldsAt bytes position).headerParts) := by
  have inside : position + 40 ≤ bytes.size := fits.header
  have mark : HoldsAt bytes position signature := by
    rw [← fits.signature]
    exact holdsAt_extract (by omega)
  have word (start : Nat) {rest : ByteArray} (fits : start + 4 ≤ bytes.size)
      (later : HoldsAt bytes (start + 4) rest) :
      HoldsAt bytes start (u32Bytes (u32At bytes start) ++ rest) :=
    (holdsAt_u32At fits).join (size_u32Bytes _) later
  have long (start : Nat) {rest : ByteArray} (fits : start + 8 ≤ bytes.size)
      (later : HoldsAt bytes (start + 8) rest) :
      HoldsAt bytes start (u64Bytes (u64At bytes start) ++ rest) :=
    (holdsAt_u64At fits).join (size_u64Bytes _) later
  have hashes := long (position + 24) (by omega)
    (long (position + 32) (by omega) (holdsAt_empty inside))
  have fields := word (position + 4) (by omega) (word (position + 8) (by omega)
    (word (position + 12) (by omega) (word (position + 16) (by omega)
      (word (position + 20) (by omega) hashes))))
  simp only [headerParts, joined, length_pages_fieldsAt, pageCount, UInt32.ofNat_toNat]
  exact mark.join size_signature fields

/-- An entry that is read at a position stands there. -/
theorem holdsAt_of_decode? (read : decode? bytes position = some entry) :
    HoldsAt bytes position entry.encode ∧ entry.WithinLimits := by
  obtain ⟨header, fits, rfl⟩ := decode?_eq_some_iff.mp read
  obtain ⟨pages, cut, refs_eq, stand⟩ := exists_cutPages fits.payload []
  have pages_eq : (fieldsAt bytes position).pages = pages := cut
  have count := length_pages_fieldsAt bytes position
  rw [← pages_eq] at refs_eq stand
  constructor
  · have fields := holdsAt_header_of_headerFits header
    have references := holdsAt_refs_of_headerFits header
    rw [← refs_eq, ← map_refBytes] at references
    rw [pagesStart, Nat.add_assoc] at stand
    rw [encode_eq]
    refine (fields.join (size_joined_headerParts _) references).join ?_ stand
    rw [ByteArray.size_append, size_joined_headerParts, size_joined_refBytes, count, Nat.mul_comm]
  · refine ⟨header.size, count.trans_le header.pages, ?_⟩
    intro page member
    have inRefs := List.mem_map_of_mem (f := refOf) member
    rw [refs_eq] at inRefs
    exact fits.sizes _ inRefs

/-- What is read at a position are the entries that stand there, pass no limit and declare no more
bytes than there are. -/
theorem decode?_eq_some_iff_holdsAt :
    decode? bytes position = some entry ↔
      HoldsAt bytes position entry.encode ∧ entry.WithinLimits ∧
        position + entry.size.toNat ≤ bytes.size := by
  constructor
  · intro read
    obtain ⟨stands, limits⟩ := holdsAt_of_decode? read
    exact ⟨stands, limits, (size_bounds_of_decode? read).2⟩
  · rintro ⟨stands, limits, declared⟩
    exact decode?_of_holdsAt stands limits declared

/-- Nothing is read at the end of a log. -/
theorem decode?_size : decode? bytes bytes.size = none := by
  apply if_neg
  intro fits
  have inside := fits.header
  rw [headerSize] at inside
  omega

end Standing

/-- The number of bytes of the pages of an entry. -/
def pageBytes (entry : LogEntry) : Nat := (entry.pages.map (·.bytes.size)).sum

theorem encodedSize_eq (entry : LogEntry) :
    entry.encodedSize = headerSize + entry.pages.length * refSize + entry.pageBytes := by
  rw [encodedSize, pageBytes, List.sum_eq_foldr, List.foldr_map]

/-- An entry takes no more bytes than it declares. -/
def KeepsSize (entry : LogEntry) : Prop := entry.encodedSize ≤ entry.size.toNat

end LogEntry

/-- An entry, and the position in the log from which it is read. -/
structure PlacedEntry where
  position : Nat
  entry : LogEntry

namespace PlacedEntry

/-- The position behind the bytes that an entry declares, where the next one is read. -/
def next (placed : PlacedEntry) : Nat := placed.position + placed.entry.size.toNat

/-- The position behind the bytes that an entry takes. -/
def stop (placed : PlacedEntry) : Nat := placed.position + placed.entry.encodedSize

end PlacedEntry

namespace TransactionLog

/-- The places of entries that are read one after the other from a position on. -/
def placedFrom (position : Nat) : List LogEntry → List PlacedEntry
  | [] => []
  | entry :: rest => ⟨position, entry⟩ :: placedFrom (position + entry.size.toNat) rest

/-- The places of the entries of a log. -/
def placed (log : TransactionLog) : List PlacedEntry := placedFrom baseBlockSize log.entries

section Places

variable {position : Nat} {entries : List LogEntry}

theorem map_entry_placedFrom (position : Nat) (entries : List LogEntry) :
    (placedFrom position entries).map (·.entry) = entries := by
  induction entries generalizing position with
  | nil => rfl
  | cons entry rest ih => rw [placedFrom, List.map_cons, ih]

theorem le_position_of_mem_placedFrom {placed : PlacedEntry}
    (member : placed ∈ placedFrom position entries) : position ≤ placed.position := by
  induction entries generalizing position with
  | nil => exact absurd member List.not_mem_nil
  | cons entry rest ih =>
      obtain rfl | later := List.mem_cons.mp member
      · exact Nat.le_refl _
      · exact Nat.le_of_add_right_le (ih later)

/-- Every entry is read behind the bytes that the entries before it declare. -/
theorem pairwise_placedFrom (position : Nat) (entries : List LogEntry) :
    (placedFrom position entries).Pairwise fun first later => first.next ≤ later.position := by
  induction entries generalizing position with
  | nil => exact .nil
  | cons entry rest ih =>
      exact .cons (fun later member => le_position_of_mem_placedFrom member) (ih _)

/-- Entries that declare to end at a position declare no more bytes together than there are up to
it. -/
theorem sum_size_le {size : Nat} (start : position ≤ size)
    (ends : ∀ placed ∈ placedFrom position entries, placed.next ≤ size) :
    position + (entries.map (·.size.toNat)).sum ≤ size := by
  induction entries generalizing position with
  | nil => exact start
  | cons entry rest ih =>
      have first := ends _ List.mem_cons_self
      have others := ih first fun placed member => ends placed (List.mem_cons_of_mem _ member)
      rw [List.map_cons, List.sum_cons, ← Nat.add_assoc]
      exact others

end Places

/-- The scan reads every entry from its place. -/
theorem exists_scan (bytes : ByteArray) (position : Nat) (found : List LogEntry) :
    ∃ entries, scan bytes position found = found.reverse ++ entries ∧
      ∀ placed ∈ placedFrom position entries,
        LogEntry.decode? bytes placed.position = some placed.entry := by
  fun_induction scan bytes position found with
  | case1 position found refused => exact ⟨[], (List.append_nil _).symm, by simp [placedFrom]⟩
  | case2 position found entry read ih =>
      obtain ⟨entries, scanned, placed⟩ := ih
      refine ⟨entry :: entries, ?_, List.forall_mem_cons.mpr ⟨read, placed⟩⟩
      rw [scanned, List.reverse_cons, List.append_assoc, List.singleton_append]

/-- Every entry of a log is read from its place. -/
theorem decode?_of_mem_placed {bytes : ByteArray} {log : TransactionLog}
    (read : decode bytes = .ok log) :
    baseBlockSize ≤ bytes.size ∧
      ∀ placed ∈ log.placed, LogEntry.decode? bytes placed.position = some placed.entry := by
  obtain ⟨block, -, rfl⟩ := decode_eq_ok_iff.mp read
  obtain ⟨entries, scanned, places⟩ := exists_scan bytes baseBlockSize []
  have same : scan bytes baseBlockSize [] = entries := scanned
  refine ⟨block, ?_⟩
  rw [placed, same]
  exact places

/-- The entries of a log stand in it where they are read, each behind the bytes that the one before
it declares, and they end inside it. An entry that takes no more bytes than it declares ends before
all that follow it. If all entries do so, their pages together are no longer than the log. -/
theorem extents {bytes : ByteArray} {log : TransactionLog} (read : decode bytes = .ok log) :
    log.placed.map (·.entry) = log.entries ∧
    (∀ placed ∈ log.placed,
      HoldsAt bytes placed.position placed.entry.encode ∧ placed.stop ≤ bytes.size ∧
        placed.position + LogEntry.headerSize ≤ placed.next ∧ placed.next ≤ bytes.size) ∧
    (log.placed.Pairwise fun first later =>
      first.next ≤ later.position ∧ (first.entry.KeepsSize → first.stop ≤ later.position)) ∧
    ((∀ entry ∈ log.entries, entry.KeepsSize) →
      (log.entries.map LogEntry.pageBytes).sum ≤ bytes.size) := by
  obtain ⟨block, places⟩ := decode?_of_mem_placed read
  have stands : ∀ placed ∈ log.placed,
      HoldsAt bytes placed.position placed.entry.encode ∧ placed.stop ≤ bytes.size ∧
        placed.position + LogEntry.headerSize ≤ placed.next ∧ placed.next ≤ bytes.size := by
    intro placed member
    obtain ⟨here, limits, declared⟩ :=
      LogEntry.decode?_eq_some_iff_holdsAt.mp (places placed member)
    have inside := here.inside
    rw [LogEntry.size_encode] at inside
    exact ⟨here, inside, Nat.add_le_add_left limits.header_le _, declared⟩
  refine ⟨map_entry_placedFrom _ _, stands, ?_, ?_⟩
  · apply (pairwise_placedFrom baseBlockSize log.entries).imp
    intro first later behind
    exact ⟨behind, fun keeps => Nat.le_trans (Nat.add_le_add_left keeps _) behind⟩
  · intro keep
    have pages_le : ∀ entry ∈ log.entries, entry.pageBytes ≤ entry.size.toNat := by
      intro entry member
      have keeps := keep entry member
      rw [LogEntry.KeepsSize, LogEntry.encodedSize_eq] at keeps
      omega
    have declared : baseBlockSize + (log.entries.map (·.size.toNat)).sum ≤ bytes.size :=
      sum_size_le block fun placed member => (stands placed member).2.2.2
    calc
      (log.entries.map LogEntry.pageBytes).sum
          ≤ (log.entries.map (·.size.toNat)).sum := List.sum_le_sum pages_le
      _ ≤ bytes.size := by omega

end TransactionLog

section Nested

/-- Entries without pages and entries with a single page, which is the bytes of the entry before.
They declare their header and their references. -/
def nestedEntry : Nat → LogEntry
  | 0 =>
      { size := 40, flags := 0, sequence := 0, binsSize := 0, pagesHash := 0, headerHash := 0
        pages := [] }
  | depth + 1 =>
      { size := 48, flags := 0, sequence := 0, binsSize := 0, pagesHash := 0, headerHash := 0
        pages := [⟨0, (nestedEntry depth).encode⟩] }

/-- The entries that are nested in an entry, beginning with the entry itself. -/
def nestedEntries : Nat → List LogEntry
  | 0 => [nestedEntry 0]
  | depth + 1 => nestedEntry (depth + 1) :: nestedEntries depth

/-- A log that ends with a nested entry. -/
def nestedLog (depth : Nat) : ByteArray := HiveImage.blankFile ++ (nestedEntry depth).encode

theorem encodedSize_nestedEntry (depth : Nat) :
    (nestedEntry depth).encodedSize = 40 + 48 * depth := by
  induction depth with
  | zero => rfl
  | succ depth ih =>
      have page := LogEntry.size_encode (nestedEntry depth)
      change 40 + 1 * 8 + ((nestedEntry depth).encode.size + 0) = _
      omega

theorem size_encode_nestedEntry (depth : Nat) : (nestedEntry depth).encode.size = 40 + 48 * depth :=
  (LogEntry.size_encode _).trans (encodedSize_nestedEntry depth)

theorem withinLimits_nestedEntry {depth : Nat} (few : depth ≤ 1000) :
    (nestedEntry depth).WithinLimits := by
  cases depth with
  | zero => exact ⟨by decide, by decide, by decide⟩
  | succ depth =>
      refine ⟨Nat.le_of_ble_eq_true rfl, Nat.le_of_ble_eq_true rfl, ?_⟩
      intro page member
      obtain rfl := List.mem_singleton.mp member
      have size := size_encode_nestedEntry depth
      change (nestedEntry depth).encode.size ≤ 268435456
      omega

/-- Every entry that is nested in the last entry of a log is read. -/
theorem TransactionLog.scan_nestedEntries {bytes : ByteArray} {position depth : Nat}
    (stands : HoldsAt bytes position (nestedEntry depth).encode)
    (last : position + (nestedEntry depth).encode.size = bytes.size) (few : depth ≤ 1000)
    (found : List LogEntry) : scan bytes position found = found.reverse ++ nestedEntries depth := by
  rw [size_encode_nestedEntry] at last
  induction depth generalizing position found with
  | zero =>
      have ends : position + (nestedEntry 0).size.toNat = bytes.size := last
      have read := LogEntry.decode?_of_holdsAt stands (withinLimits_nestedEntry few) ends.le
      rw [scan_of_eq_some read, ends, scan_of_eq_none LogEntry.decode?_size,
        List.reverse_cons]
      rfl
  | succ depth ih =>
      have declared : position + 48 ≤ bytes.size := by omega
      have read := LogEntry.decode?_of_holdsAt stands (withinLimits_nestedEntry few) declared
      -- The page begins where the next entry is read.
      have page : HoldsAt bytes (position + 48) (nestedEntry depth).encode :=
        (LogEntry.holdsAt_pages stands).split.1
      have later := ih page (by omega) (by omega) (nestedEntry (depth + 1) :: found)
      rw [List.reverse_cons, List.append_assoc] at later
      rw [scan_of_eq_some read]
      exact later

theorem size_nestedLog (depth : Nat) : (nestedLog depth).size = 4096 + (40 + 48 * depth) := by
  rw [nestedLog, ByteArray.size_append, size_encode_nestedEntry, HiveImage.size_blankFile]
  rfl

theorem TransactionLog.decode_nestedLog {depth : Nat} (few : depth ≤ 1000) :
    decode (nestedLog depth) = .ok { path := none, entries := nestedEntries depth } := by
  have mark : HoldsAt (nestedLog depth) 0 hiveSignature :=
    ((holdsAt_self hiveSignature).append _).append _
  have stands : HoldsAt (nestedLog depth) baseBlockSize (nestedEntry depth).encode := by
    rw [← HiveImage.size_blankFile]
    exact holdsAt_append _ _
  have size := size_nestedLog depth
  have block : baseBlockSize = 4096 := rfl
  have last : baseBlockSize + (nestedEntry depth).encode.size = (nestedLog depth).size := by
    rw [size, size_encode_nestedEntry, block]
  refine decode_eq_ok_iff.mpr ⟨by omega, mark.extract_eq, ?_⟩
  rw [scan_nestedEntries stands last few []]
  rfl

/-- The pages of nested entries grow with the square of their number. -/
theorem sum_pageBytes_nestedEntries (depth : Nat) :
    ((nestedEntries depth).map LogEntry.pageBytes).sum = 16 * depth + 24 * depth * depth := by
  induction depth with
  | zero => rfl
  | succ depth ih =>
      have page : (nestedEntry (depth + 1)).pageBytes = 40 + 48 * depth + 0 :=
        congrArg (· + 0) (size_encode_nestedEntry depth)
      rw [nestedEntries, List.map_cons, List.sum_cons, ih, page]
      ring

/-- Three entries, of which the last one is read from inside the pages of the others. -/
theorem TransactionLog.extents_nestedLog :
    decode (nestedLog 2) = .ok { path := none, entries := nestedEntries 2 } ∧
      ((placedFrom baseBlockSize (nestedEntries 2)).map (·.position) = [4096, 4144, 4192]) ∧
      ∀ placed ∈ placedFrom baseBlockSize (nestedEntries 2),
        HoldsAt (nestedLog 2) placed.position placed.entry.encode ∧
          placed.stop ≤ (nestedLog 2).size := by
  have read := decode_nestedLog (by decide : 2 ≤ 1000)
  obtain ⟨-, stands, -, -⟩ := extents read
  refine ⟨read, rfl, ?_⟩
  intro placed member
  obtain ⟨here, inside, -, -⟩ := stands placed member
  exact ⟨here, inside⟩

/-- An entry takes more bytes than it declares, its page is the entry that follows it, and all pages
together are longer than the log. -/
theorem TransactionLog.page_holds_later_entries :
    ∃ log first later rest, decode (nestedLog 14) = .ok log ∧ log.entries = first :: later :: rest ∧
      first.size.toNat < first.encodedSize ∧ first.pages.map (·.bytes) = [later.encode] ∧
      (nestedLog 14).size < (log.entries.map LogEntry.pageBytes).sum := by
  refine ⟨_, nestedEntry 14, nestedEntry 13, nestedEntries 12, decode_nestedLog (by decide),
    rfl, ?_, rfl, ?_⟩
  · rw [encodedSize_nestedEntry]
    decide
  · rw [size_nestedLog, sum_pageBytes_nestedEntries]
    decide

end Nested

end RegistryHive
