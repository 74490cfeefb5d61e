import RegistryHive.Bytes

/-!
# Log entries

A log entry records one write to a hive as the pages that it changed. It begins
with a header of 40 bytes that starts with the letters `HvLE`; one reference of
eight bytes for each page and then the pages themselves follow. `LogEntry.decode?`
reads the entry at a position and refuses one whose declared size, number of
pages or page sizes cannot be right or leave the log. `LogEntry.encode` writes
an entry.
-/

namespace RegistryHive

/-- A page that a write changed. -/
structure DirtyPage where
  /-- The position of the page, counted from the first bin. -/
  offset : UInt32
  bytes : ByteArray
  deriving DecidableEq

/-- A page as an entry refers to it. -/
structure PageRef where
  offset : UInt32
  size : Nat
  deriving DecidableEq, Repr

/-- One recorded write. -/
structure LogEntry where
  /-- The size that the entry declares for itself. -/
  size : UInt32
  flags : UInt32
  /-- The number of the write that the entry records. -/
  sequence : UInt32
  /-- The bins size at the time of the write. -/
  binsSize : UInt32
  /-- The hash of the pages, which is not checked. -/
  pagesHash : UInt64
  /-- The hash of the header, which is not checked. -/
  headerHash : UInt64
  pages : List DirtyPage
  deriving DecidableEq

namespace LogEntry

/-- The four bytes at the start of an entry: `HvLE`. -/
def signature : ByteArray := [0x48, 0x76, 0x4C, 0x45].toByteArray

/-- The number of bytes of an entry before its page references. -/
def headerSize : Nat := 40

/-- The number of bytes of a page reference. -/
def refSize : Nat := 8

/-- The greatest number of pages of an entry. -/
def maxPages : Nat := 100000

/-- The greatest size of a page. -/
def maxPageSize : Nat := 268435456

/-- The number of pages of the entry at a position. -/
def pageCount (bytes : ByteArray) (position : Nat) : Nat :=
  (u32At bytes (position + 20)).toNat

/-- The position of the first page of the entry at a position. -/
def pagesStart (bytes : ByteArray) (position : Nat) : Nat :=
  position + headerSize + pageCount bytes position * refSize

/-- The page references of the entry at a position. -/
def refs (bytes : ByteArray) (position : Nat) : List PageRef :=
  (List.range (pageCount bytes position)).map fun i =>
    { offset := u32At bytes (position + headerSize + i * refSize)
      size := (u32At bytes (position + headerSize + i * refSize + 4)).toNat }

/-- The number of bytes of the pages that references name. -/
def payloadSize (refs : List PageRef) : Nat :=
  refs.foldr (fun ref rest => ref.size + rest) 0

/-- Cuts the pages that references name, which lie one after the other from a position on. The
pages cut so far stand in `done`, last page first. -/
def cutPages (bytes : ByteArray) (done : List DirtyPage) (start : Nat) :
    List PageRef → List DirtyPage
  | [] => done.reverse
  | ref :: rest =>
    cutPages bytes
      ({ offset := ref.offset, bytes := bytes.extract start (start + ref.size) } :: done)
      (start + ref.size) rest

/-- The header of an entry stands at the position, and its declared size and its references are
possible and end inside the log. -/
structure HeaderFits (bytes : ByteArray) (position : Nat) : Prop where
  header : position + headerSize ≤ bytes.size
  signature : bytes.extract position (position + 4) = signature
  size : headerSize ≤ (u32At bytes (position + 4)).toNat
  size_le : position + (u32At bytes (position + 4)).toNat ≤ bytes.size
  pages : pageCount bytes position ≤ maxPages
  refs : pagesStart bytes position ≤ bytes.size

instance (bytes : ByteArray) (position : Nat) : Decidable (HeaderFits bytes position) :=
  decidable_of_iff
    (position + headerSize ≤ bytes.size ∧
      bytes.extract position (position + 4) = LogEntry.signature ∧
      headerSize ≤ (u32At bytes (position + 4)).toNat ∧
      position + (u32At bytes (position + 4)).toNat ≤ bytes.size ∧
      pageCount bytes position ≤ maxPages ∧ pagesStart bytes position ≤ bytes.size)
    ⟨fun ⟨h₁, h₂, h₃, h₄, h₅, h₆⟩ => ⟨h₁, h₂, h₃, h₄, h₅, h₆⟩,
      fun ⟨h₁, h₂, h₃, h₄, h₅, h₆⟩ => ⟨h₁, h₂, h₃, h₄, h₅, h₆⟩⟩

/-- The page sizes are possible, and the pages end inside the log. -/
structure PagesFit (bytes : ByteArray) (position : Nat) : Prop where
  sizes : ∀ ref ∈ refs bytes position, ref.size ≤ maxPageSize
  payload : pagesStart bytes position + payloadSize (refs bytes position) ≤ bytes.size

instance (bytes : ByteArray) (position : Nat) : Decidable (PagesFit bytes position) :=
  decidable_of_iff
    ((∀ ref ∈ refs bytes position, ref.size ≤ maxPageSize) ∧
      pagesStart bytes position + payloadSize (refs bytes position) ≤ bytes.size)
    ⟨fun ⟨h₁, h₂⟩ => ⟨h₁, h₂⟩, fun ⟨h₁, h₂⟩ => ⟨h₁, h₂⟩⟩

/-- The fields of the entry at a position. -/
def fieldsAt (bytes : ByteArray) (position : Nat) : LogEntry where
  size := u32At bytes (position + 4)
  flags := u32At bytes (position + 8)
  sequence := u32At bytes (position + 12)
  binsSize := u32At bytes (position + 16)
  pagesHash := u64At bytes (position + 24)
  headerHash := u64At bytes (position + 32)
  pages := cutPages bytes [] (pagesStart bytes position) (refs bytes position)

/-- The entry at a position of a log, if one can be read there. -/
def decode? (bytes : ByteArray) (position : Nat) : Option LogEntry :=
  if HeaderFits bytes position then
    if PagesFit bytes position then some (fieldsAt bytes position) else none
  else none

theorem decode?_eq_some_iff {bytes : ByteArray} {position : Nat} {entry : LogEntry} :
    decode? bytes position = some entry ↔
      HeaderFits bytes position ∧ PagesFit bytes position ∧ fieldsAt bytes position = entry := by
  unfold decode?
  split
  · split <;> simp [*]
  · simp [*]

/-- An entry that can be read has at least the size of a header and ends inside the log. -/
theorem size_bounds_of_decode? {bytes : ByteArray} {position : Nat} {entry : LogEntry}
    (h : decode? bytes position = some entry) :
    headerSize ≤ entry.size.toNat ∧ position + entry.size.toNat ≤ bytes.size := by
  obtain ⟨header, -, rfl⟩ := decode?_eq_some_iff.mp h
  exact ⟨header.size, header.size_le⟩

/-- The number of bytes that an entry takes when it is written. -/
def encodedSize (entry : LogEntry) : Nat :=
  headerSize + entry.pages.length * refSize +
    entry.pages.foldr (fun page rest => page.bytes.size + rest) 0

/-- The bytes of an entry: its header, its page references and its pages. -/
def encode (entry : LogEntry) : ByteArray :=
  let header := signature ++ u32Bytes entry.size ++ u32Bytes entry.flags ++
    u32Bytes entry.sequence ++ u32Bytes entry.binsSize ++
    u32Bytes (UInt32.ofNat entry.pages.length) ++ u64Bytes entry.pagesHash ++
    u64Bytes entry.headerHash
  let refs := entry.pages.foldl (fun refs page =>
    refs ++ u32Bytes page.offset ++ u32Bytes (UInt32.ofNat page.bytes.size)) ByteArray.empty
  entry.pages.foldl (fun done page => done ++ page.bytes) (header ++ refs)

end LogEntry

end RegistryHive
