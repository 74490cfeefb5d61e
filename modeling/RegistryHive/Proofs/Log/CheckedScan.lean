import RegistryHive.Proofs.Log.Extents

/-!
# Reading a log stays inside it

Here a log is read once more, step by step, and every step says so when it leaves the bytes: when
it asks how much is left behind the end, or takes bytes that are not all there. On no byte
string does that happen, and what is read is the same (`Checked.decode_eq`). Each access is
justified by the comparisons made before it: a header by the number of bytes left, references
by their count, and pages by the sum of their sizes.
-/

namespace RegistryHive

/-- A step that leaves a byte string. -/
inductive Fault
  /-- What is left is asked for behind the end. -/
  | behindEnd (position : Nat)
  /-- Bytes are taken that are not all there. -/
  | outside (start stop : Nat)

namespace Checked

open LogEntry

section Accesses

variable (bytes : ByteArray)

/-- The number of bytes from a position on. -/
def left (position : Nat) : Except Fault Nat :=
  if position ≤ bytes.size then .ok (bytes.size - position) else .error (.behindEnd position)

/-- What is made of the bytes from one position up to another. -/
def access {α : Type} (start stop : Nat) (value : α) : Except Fault α :=
  if start ≤ stop ∧ stop ≤ bytes.size then .ok value else .error (.outside start stop)

/-- The bytes from one position up to another. -/
def slice (start stop : Nat) : Except Fault ByteArray :=
  access bytes start stop (bytes.extract start stop)

/-- The 32-bit word at a position. -/
def word (start : Nat) : Except Fault UInt32 := access bytes start (start + 4) (u32At bytes start)

/-- The 64-bit word at a position. -/
def long (start : Nat) : Except Fault UInt64 := access bytes start (start + 8) (u64At bytes start)

variable {bytes} {position start stop : Nat}

theorem left_eq (inside : position ≤ bytes.size) :
    left bytes position = .ok (bytes.size - position) := if_pos inside

theorem access_eq {α : Type} {value : α} (ordered : start ≤ stop) (inside : stop ≤ bytes.size) :
    access bytes start stop value = .ok value := if_pos ⟨ordered, inside⟩

theorem slice_eq (ordered : start ≤ stop) (inside : stop ≤ bytes.size) :
    slice bytes start stop = .ok (bytes.extract start stop) := access_eq ordered inside

theorem word_eq (inside : start + 4 ≤ bytes.size) :
    word bytes start = .ok (u32At bytes start) := access_eq (Nat.le_add_right start 4) inside

theorem long_eq (inside : start + 8 ≤ bytes.size) :
    long bytes start = .ok (u64At bytes start) := access_eq (Nat.le_add_right start 8) inside

/-- After a step that stays inside, reading goes on with what it gave. -/
theorem bind_of_eq_ok {α β : Type} {step : Except Fault α} {value : α} (done : step = .ok value)
    (next : α → Except Fault β) : (step >>= next) = next value := by
  rw [done]
  rfl

end Accesses

section Entries

variable (bytes : ByteArray)

/-- The declared size and the number of pages of the entry at a position, if its header and its
references are there. -/
def header? (position : Nat) : Except Fault (Option (UInt32 × Nat)) := do
  let remaining ← left bytes position
  if remaining < headerSize then pure none
  else
    let mark ← slice bytes position (position + 4)
    if mark ≠ signature then pure none
    else
      let size ← word bytes (position + 4)
      if size.toNat < headerSize ∨ remaining < size.toNat then pure none
      else
        let count ← word bytes (position + 20)
        if maxPages < count.toNat then pure none
        else if bytes.size < position + headerSize + count.toNat * refSize then pure none
        else pure (some (size, count.toNat))

/-- The page reference with index `i`. -/
def refAt (start i : Nat) : PageRef where
  offset := u32At bytes (start + i * refSize)
  size := (u32At bytes (start + i * refSize + 4)).toNat

/-- So many page references from index `i` on, unless one of the pages is too long. -/
def refsFrom (start : Nat) : (count i : Nat) → Except Fault (Option (List PageRef))
  | 0, _ => pure (some [])
  | count + 1, i => do
    let offset ← word bytes (start + i * refSize)
    let size ← word bytes (start + i * refSize + 4)
    if maxPageSize < size.toNat then pure none
    else
      let rest ← refsFrom start count (i + 1)
      pure (rest.map ({ offset := offset, size := size.toNat } :: ·))

/-- The pages that references name, which lie one after the other from a position on. The pages cut
so far stand in `done`, last page first. -/
def pagesFrom (done : List DirtyPage) (start : Nat) :
    List PageRef → Except Fault (List DirtyPage)
  | [] => pure done.reverse
  | ref :: rest => do
    let page ← slice bytes start (start + ref.size)
    pagesFrom ({ offset := ref.offset, bytes := page } :: done) (start + ref.size) rest

/-- The entry at a position that declares this size and this number of pages, if its pages are
there. -/
def body? (position : Nat) (size : UInt32) (count : Nat) : Except Fault (Option LogEntry) := do
  let refs ← refsFrom bytes (position + headerSize) count 0
  match refs with
  | none => pure none
  | some refs =>
    let start := position + headerSize + count * refSize
    if bytes.size < start + payloadSize refs then pure none
    else
      let pages ← pagesFrom bytes [] start refs
      let flags ← word bytes (position + 8)
      let sequence ← word bytes (position + 12)
      let binsSize ← word bytes (position + 16)
      let pagesHash ← long bytes (position + 24)
      let headerHash ← long bytes (position + 32)
      pure (some { size, flags, sequence, binsSize, pagesHash, headerHash, pages })

/-- The entry at a position, if one can be read there. -/
def entryAt? (position : Nat) : Except Fault (Option LogEntry) := do
  let header ← header? bytes position
  match header with
  | none => pure none
  | some (size, count) => body? bytes position size count

variable {bytes} {position : Nat}

/-- The header is read inside the log. The number of bytes left covers all its fields. -/
theorem header?_eq (inside : position ≤ bytes.size) :
    header? bytes position = .ok (if HeaderFits bytes position then
      some (u32At bytes (position + 4), pageCount bytes position) else none) := by
  have forty : headerSize = 40 := rfl
  rw [header?, bind_of_eq_ok (left_eq inside)]
  split
  · rename_i short
    rw [if_neg fun fits => by have := fits.header; omega]
    rfl
  · rename_i enough
    have header : position + 40 ≤ bytes.size := by omega
    rw [bind_of_eq_ok (slice_eq (Nat.le_add_right position 4) (by omega))]
    split
    · rename_i foreign
      rw [if_neg fun fits => foreign fits.signature]
      rfl
    · rename_i mark
      rw [bind_of_eq_ok (word_eq (by omega))]
      split
      · rename_i impossible
        rw [if_neg fun fits => by have := fits.size; have := fits.size_le; omega]
        rfl
      · rename_i size
        rw [bind_of_eq_ok (word_eq (by omega))]
        split
        · rename_i many
          rw [if_neg fun fits => Nat.not_le.mpr many fits.pages]
          rfl
        · rename_i pages
          split
          · rename_i behind
            rw [if_neg fun fits => Nat.not_le.mpr behind fits.refs]
            rfl
          · rename_i refs
            rw [if_pos ⟨header, Decidable.not_not.mp mark, by omega, by omega,
              Nat.le_of_not_lt pages, Nat.le_of_not_lt refs⟩]
            rfl

/-- The references are read inside the log, up to one that is refused. -/
theorem refsFrom_eq {start count i : Nat} (inside : start + (i + count) * refSize ≤ bytes.size) :
    refsFrom bytes start count i =
      .ok (if ∀ ref ∈ (List.range' i count).map (refAt bytes start), ref.size ≤ maxPageSize then
        some ((List.range' i count).map (refAt bytes start)) else none) := by
  induction count generalizing i with
  | zero => rfl
  | succ count ih =>
      have eight : refSize = 8 := rfl
      have here : start + i * refSize + 8 ≤ bytes.size := by
        rw [Nat.add_mul, Nat.succ_mul] at inside
        omega
      rw [refsFrom, bind_of_eq_ok (word_eq (by omega)), bind_of_eq_ok (word_eq (by omega)),
        List.range'_succ, List.map_cons]
      split
      · rename_i long
        rw [if_neg fun short => Nat.not_le.mpr long (short _ List.mem_cons_self)]
        rfl
      · rename_i short
        rw [bind_of_eq_ok (ih (by rwa [Nat.add_right_comm i 1 count]))]
        simp only [List.forall_mem_cons]
        split
        · rename_i others
          rw [if_pos ⟨Nat.le_of_not_lt short, others⟩]
          rfl
        · rename_i others
          rw [if_neg fun all => others all.2]
          rfl

/-- The pages are read inside the log if their sizes together are. -/
theorem pagesFrom_eq {done : List DirtyPage} {start : Nat} {refs : List PageRef}
    (inside : start + payloadSize refs ≤ bytes.size) :
    pagesFrom bytes done start refs = .ok (cutPages bytes done start refs) := by
  induction refs generalizing done start with
  | nil => rfl
  | cons ref rest ih =>
      have total : start + (ref.size + payloadSize rest) ≤ bytes.size := inside
      rw [pagesFrom, bind_of_eq_ok (slice_eq (Nat.le_add_right start ref.size) (by omega)),
        ih (by omega), cutPages]

/-- Behind a header, the rest of an entry is read inside the log. -/
theorem body?_eq (header : HeaderFits bytes position) :
    body? bytes position (u32At bytes (position + 4)) (pageCount bytes position) =
      .ok (if PagesFit bytes position then some (fieldsAt bytes position) else none) := by
  have enough : position + 40 ≤ bytes.size := header.header
  have named : (List.range' 0 (pageCount bytes position)).map
      (refAt bytes (position + headerSize)) = refs bytes position := by
    rw [refs, List.range_eq_range']
    rfl
  have counted : refsFrom bytes (position + headerSize) (pageCount bytes position) 0 =
      .ok (if ∀ ref ∈ refs bytes position, ref.size ≤ maxPageSize then
        some (refs bytes position) else none) := by
    rw [← named]
    apply refsFrom_eq
    rw [Nat.zero_add]
    exact header.refs
  rw [body?, bind_of_eq_ok counted]
  by_cases sizes : ∀ ref ∈ refs bytes position, ref.size ≤ maxPageSize
  · rw [if_pos sizes]
    simp only
    split
    · rename_i behind
      rw [if_neg fun fits => Nat.not_le.mpr behind fits.payload]
      rfl
    · rename_i payload
      have payload := Nat.le_of_not_lt payload
      rw [if_pos ⟨sizes, payload⟩, bind_of_eq_ok (pagesFrom_eq payload),
        bind_of_eq_ok (word_eq (by omega)), bind_of_eq_ok (word_eq (by omega)),
        bind_of_eq_ok (word_eq (by omega)), bind_of_eq_ok (long_eq (by omega)),
        bind_of_eq_ok (long_eq (by omega))]
      rfl
  · rw [if_neg sizes, if_neg fun fits => sizes fits.sizes]
    rfl

/-- An entry is read inside the log. -/
theorem entryAt?_eq (inside : position ≤ bytes.size) :
    entryAt? bytes position = .ok (decode? bytes position) := by
  rw [entryAt?, bind_of_eq_ok (header?_eq inside), decode?]
  by_cases header : HeaderFits bytes position
  · rw [if_pos header, if_pos header]
    exact body?_eq header
  · rw [if_neg header, if_neg header]
    rfl

/-- An entry that is read moves the scan on, and not behind the end. -/
theorem size_bounds_of_entryAt? {entry : LogEntry}
    (done : entryAt? bytes position = .ok (some entry)) :
    headerSize ≤ entry.size.toNat ∧ position + entry.size.toNat ≤ bytes.size := by
  by_cases inside : position ≤ bytes.size
  · rw [entryAt?_eq inside] at done
    exact size_bounds_of_decode? (Except.ok.inj done)
  · rw [entryAt?, header?, left, if_neg inside] at done
    cases done

end Entries

/-- The entries from a position on, after those already found, which stand last entry first. -/
def scan (bytes : ByteArray) (position : Nat) (found : List LogEntry) :
    Except Fault (List LogEntry) :=
  match _read : entryAt? bytes position with
  | .error fault => .error fault
  | .ok none => .ok found.reverse
  | .ok (some entry) => scan bytes (position + entry.size.toNat) (entry :: found)
termination_by bytes.size - position
decreasing_by
  have bounds := size_bounds_of_entryAt? (by assumption)
  simp only [headerSize] at bounds
  omega

/-- Reads a log. -/
def decode (bytes : ByteArray) : Except Fault (Except HiveError TransactionLog) :=
  if bytes.size < baseBlockSize then pure (.error (.hiveTooSmall bytes.size baseBlockSize))
  else do
    let mark ← slice bytes 0 4
    if mark ≠ hiveSignature then pure (.error (.invalidSignature hiveSignature mark))
    else
      let entries ← scan bytes baseBlockSize []
      pure (.ok { path := none, entries })

variable {bytes : ByteArray} {position : Nat}

/-- The scan never leaves the log. An entry that is read ends inside it, and there the scan goes
on. -/
theorem scan_eq (inside : position ≤ bytes.size) (found : List LogEntry) :
    scan bytes position found = .ok (TransactionLog.scan bytes position found) := by
  fun_induction scan bytes position found with
  | case1 position found fault failed =>
      cases (entryAt?_eq inside).symm.trans failed
  | case2 position found refused =>
      rw [entryAt?_eq inside] at refused
      rw [TransactionLog.scan_of_eq_none (Except.ok.inj refused)]
  | case3 position found entry read ih =>
      have bounds := size_bounds_of_entryAt? read
      rw [entryAt?_eq inside] at read
      rw [ih bounds.2, TransactionLog.scan_of_eq_some (Except.ok.inj read)]

/-- Reading a log never leaves it, and gives what it is decoded to. -/
theorem decode_eq (bytes : ByteArray) : decode bytes = .ok (TransactionLog.decode bytes) := by
  rw [decode, TransactionLog.decode, checkSignature]
  split
  · rfl
  · rename_i block
    have four : 4 ≤ baseBlockSize := by decide
    rw [bind_of_eq_ok (slice_eq (Nat.zero_le 4) (by omega))]
    split
    · rfl
    · rw [bind_of_eq_ok (scan_eq (Nat.le_of_not_lt block) [])]
      rfl

end Checked

namespace TransactionLog

/-- Entries that declare at least a header each are no more than there are headers in what they
declare together. -/
theorem length_le_of_sum_size {entries : List LogEntry} {total : Nat}
    (each : ∀ entry ∈ entries, LogEntry.headerSize ≤ entry.size.toNat)
    (sum : (entries.map (·.size.toNat)).sum ≤ total) :
    entries.length ≤ total / LogEntry.headerSize := by
  have sizes : ∀ size ∈ entries.map (·.size.toNat), LogEntry.headerSize ≤ size := by
    intro size member
    obtain ⟨entry, inEntries, rfl⟩ := List.mem_map.mp member
    exact each entry inEntries
  have headers := List.card_nsmul_le_sum _ _ sizes
  rw [List.length_map] at headers
  exact (Nat.le_div_iff_mul_le (by decide)).mpr (Nat.le_trans headers sum)

/-- A log is refused for its first block only. -/
theorem decode_eq_error_iff {bytes : ByteArray} : (∃ error, decode bytes = .error error) ↔
    bytes.size < baseBlockSize ∨ bytes.extract 0 4 ≠ hiveSignature := by
  rw [decode, checkSignature]
  split
  · rename_i short
    exact ⟨fun _ => .inl short, fun _ => ⟨_, rfl⟩⟩
  · rename_i block
    split
    · rename_i foreign
      exact ⟨fun _ => .inr foreign, fun _ => ⟨_, rfl⟩⟩
    · rename_i known
      constructor
      · rintro ⟨error, failed⟩
        cases failed
      · rintro (short | foreign)
        · exact absurd short block
        · exact absurd foreign known

/-- Any byte string is read without leaving it. Only one that is too short or begins with foreign
letters is refused. The entries of all others declare no more bytes than there are behind the first
block, each of them ends inside the log, and each has the pages that its header counts. -/
theorem decode_stays_inside (bytes : ByteArray) :
    Checked.decode bytes = .ok (decode bytes) ∧
      ((∃ error, decode bytes = .error error) ↔
        bytes.size < baseBlockSize ∨ bytes.extract 0 4 ≠ hiveSignature) ∧
      ∀ log, decode bytes = .ok log →
        baseBlockSize + (log.entries.map (·.size.toNat)).sum ≤ bytes.size ∧
        log.entries.length ≤ (bytes.size - baseBlockSize) / LogEntry.headerSize ∧
        log.placed.map (·.entry) = log.entries ∧
        ∀ placed ∈ log.placed, placed.next ≤ bytes.size ∧
          placed.entry.pages.length = LogEntry.pageCount bytes placed.position := by
  refine ⟨Checked.decode_eq bytes, decode_eq_error_iff, fun log read => ?_⟩
  obtain ⟨block, places⟩ := decode?_of_mem_placed read
  have bounds (placed : PlacedEntry) (member : placed ∈ log.placed) :=
    LogEntry.size_bounds_of_decode? (places placed member)
  have declared : baseBlockSize + (log.entries.map (·.size.toNat)).sum ≤ bytes.size :=
    sum_size_le block fun placed member => (bounds placed member).2
  have entries : log.placed.map (·.entry) = log.entries := map_entry_placedFrom _ _
  refine ⟨declared, length_le_of_sum_size ?_ (by omega), entries, fun placed member => ?_⟩
  · intro entry inEntries
    rw [← entries] at inEntries
    obtain ⟨placed, member, rfl⟩ := List.mem_map.mp inEntries
    exact (bounds placed member).1
  · obtain ⟨-, -, same⟩ := LogEntry.decode?_eq_some_iff.mp (places placed member)
    rw [← same]
    exact ⟨(bounds placed member).2, LogEntry.length_pages_fieldsAt bytes placed.position⟩

/-- Three entries that are read from inside each other leave nothing behind the end. -/
theorem decode_nestedLog_stays_inside :
    Checked.decode (nestedLog 2) = .ok (.ok { path := none, entries := nestedEntries 2 }) ∧
      (nestedLog 2).size = 4232 ∧ ((nestedEntries 2).map (·.size.toNat)).sum = 136 ∧
      baseBlockSize + ((nestedEntries 2).map (·.size.toNat)).sum ≤ (nestedLog 2).size ∧
      ∀ placed ∈ placedFrom baseBlockSize (nestedEntries 2), placed.next ≤ (nestedLog 2).size := by
  have read := decode_nestedLog (by decide : 2 ≤ 1000)
  obtain ⟨same, -, bounded⟩ := decode_stays_inside (nestedLog 2)
  obtain ⟨declared, -, -, places⟩ := bounded _ read
  rw [read] at same
  exact ⟨same, size_nestedLog 2, rfl, declared, fun placed member => (places placed member).1⟩

end TransactionLog

end RegistryHive
