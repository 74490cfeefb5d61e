import RegistryHive.Log.Entry
import RegistryHive.Proofs.ByteParts

/-!
# Reading an entry that was written

An encoded entry is its header, its page references and its pages, one after the
other. The fields of the header are found at their positions, the references are
found by their width, and the pages are cut out with a position that runs over
them. `decode?_of_holdsAt` puts these together: wherever the bytes of an entry
stand, the entry is read, when its pages are neither too many nor too large and
the size that it declares is possible.
-/

namespace RegistryHive

namespace LogEntry

@[simp] theorem size_signature : signature.size = 4 := rfl

/-- The fields in the header of an entry, in order. -/
def headerParts (entry : LogEntry) : List ByteArray :=
  [signature, u32Bytes entry.size, u32Bytes entry.flags, u32Bytes entry.sequence,
    u32Bytes entry.binsSize, u32Bytes (UInt32.ofNat entry.pages.length),
    u64Bytes entry.pagesHash, u64Bytes entry.headerHash]

/-- The reference to a page. -/
def refBytes (page : DirtyPage) : ByteArray :=
  u32Bytes page.offset ++ u32Bytes (UInt32.ofNat page.bytes.size)

/-- A page as its entry refers to it. -/
def refOf (page : DirtyPage) : PageRef := { offset := page.offset, size := page.bytes.size }

/-- An encoded entry is its header, its references and its pages. -/
theorem encode_eq (entry : LogEntry) :
    entry.encode =
      joined entry.headerParts ++ joined (entry.pages.map refBytes) ++
        joined (entry.pages.map (·.bytes)) := by
  have refs : entry.pages.foldl (fun refs page =>
      refs ++ u32Bytes page.offset ++ u32Bytes (UInt32.ofNat page.bytes.size)) ByteArray.empty =
      joined (entry.pages.map refBytes) := by
    have joined_refs := foldl_append_eq refBytes entry.pages ByteArray.empty
    rw [ByteArray.empty_append] at joined_refs
    simpa only [refBytes, ← ByteArray.append_assoc] using joined_refs
  have header : signature ++ u32Bytes entry.size ++ u32Bytes entry.flags ++
      u32Bytes entry.sequence ++ u32Bytes entry.binsSize ++
      u32Bytes (UInt32.ofNat entry.pages.length) ++ u64Bytes entry.pagesHash ++
      u64Bytes entry.headerHash = joined entry.headerParts := by
    simp only [headerParts, joined, ByteArray.append_empty, ByteArray.append_assoc]
  rw [← header, ← refs, ← foldl_append_eq]
  rfl

@[simp] theorem size_joined_headerParts (entry : LogEntry) :
    (joined entry.headerParts).size = headerSize := by
  simp [headerParts, joined, headerSize]

@[simp] theorem size_refBytes (page : DirtyPage) : (refBytes page).size = refSize := by
  simp [refBytes, refSize]

theorem size_of_mem_map_refBytes {pages : List DirtyPage} :
    ∀ part ∈ pages.map refBytes, part.size = refSize := by
  intro part member
  obtain ⟨page, -, rfl⟩ := List.mem_map.mp member
  exact size_refBytes page

theorem size_joined_refBytes (pages : List DirtyPage) :
    (joined (pages.map refBytes)).size = refSize * pages.length := by
  rw [size_joined size_of_mem_map_refBytes, List.length_map]

/-- The pages take as many bytes as their references say. -/
theorem payloadSize_map_refOf (pages : List DirtyPage) :
    payloadSize (pages.map refOf) = (joined (pages.map (·.bytes))).size := by
  induction pages with
  | nil => rfl
  | cons page rest ih =>
      change page.bytes.size + payloadSize (rest.map refOf) = _
      rw [ih, List.map_cons, joined, ByteArray.size_append]

/-- An encoded entry takes the header, eight bytes for each page, and the pages. -/
theorem size_encode (entry : LogEntry) : entry.encode.size = entry.encodedSize := by
  have pages : entry.pages.foldr (fun page rest => page.bytes.size + rest) 0 =
      payloadSize (entry.pages.map refOf) := by
    rw [payloadSize, List.foldr_map]
    rfl
  rw [encode_eq, ByteArray.size_append, ByteArray.size_append, size_joined_headerParts,
    size_joined_refBytes, encodedSize, pages, payloadSize_map_refOf, Nat.mul_comm]

/-- An entry that can be written: it declares the size that it takes, and it does not pass the
limits on its pages. -/
structure Writable (entry : LogEntry) : Prop where
  size_eq : entry.size.toNat = entry.encodedSize
  pages_le : entry.pages.length ≤ maxPages
  bytes_le : ∀ page ∈ entry.pages, page.bytes.size ≤ maxPageSize

/-- An entry that can be read where it stands: it declares at least the size of a header, and it
does not pass the limits on its pages. -/
structure WithinLimits (entry : LogEntry) : Prop where
  header_le : headerSize ≤ entry.size.toNat
  pages_le : entry.pages.length ≤ maxPages
  bytes_le : ∀ page ∈ entry.pages, page.bytes.size ≤ maxPageSize

theorem Writable.withinLimits {entry : LogEntry} (writable : entry.Writable) :
    entry.WithinLimits where
  header_le := by
    rw [writable.size_eq, encodedSize]
    omega
  pages_le := writable.pages_le
  bytes_le := writable.bytes_le

section Reading

variable {bytes : ByteArray} {position : Nat} {entry : LogEntry}

/-- The header stands at the start of an entry. -/
theorem holdsAt_header (h : HoldsAt bytes position entry.encode) :
    HoldsAt bytes position (joined entry.headerParts) := by
  rw [encode_eq] at h
  exact h.trans (((holdsAt_self _).append _).append _)

/-- A field stands in the header behind the fields that come before it. -/
theorem holdsAt_field (h : HoldsAt bytes position entry.encode) (i start : Nat)
    {field : ByteArray} (stands : entry.headerParts[i]? = some field)
    (size_eq : (joined (entry.headerParts.take i)).size = start) :
    HoldsAt bytes (position + start) field := by
  obtain ⟨inside, rfl⟩ := List.getElem?_eq_some_iff.mp stands
  have placed := holdsAt_joined_split (entry.headerParts.take i) entry.headerParts[i]
    (entry.headerParts.drop (i + 1))
  rw [← List.drop_eq_getElem_cons inside, List.take_append_drop, size_eq] at placed
  exact (holdsAt_header h).trans placed

/-- The references stand behind the header. -/
theorem holdsAt_refs (h : HoldsAt bytes position entry.encode) :
    HoldsAt bytes (position + headerSize) (joined (entry.pages.map refBytes)) := by
  have refs := (holdsAt_append (joined entry.headerParts)
    (joined (entry.pages.map refBytes))).append (joined (entry.pages.map (·.bytes)))
  rw [size_joined_headerParts, ← encode_eq] at refs
  exact h.trans refs

/-- The pages stand behind the references. -/
theorem holdsAt_pages (h : HoldsAt bytes position entry.encode) :
    HoldsAt bytes (position + headerSize + refSize * entry.pages.length)
      (joined (entry.pages.map (·.bytes))) := by
  have pages := holdsAt_append (joined entry.headerParts ++ joined (entry.pages.map refBytes))
    (joined (entry.pages.map (·.bytes)))
  rw [ByteArray.size_append, size_joined_headerParts, size_joined_refBytes, ← encode_eq] at pages
  have inside := h.trans pages
  rwa [← Nat.add_assoc] at inside

/-- The number of pages is read back when it fits its field. -/
theorem pageCount_eq (h : HoldsAt bytes position entry.encode)
    (few : entry.pages.length ≤ maxPages) : pageCount bytes position = entry.pages.length := by
  have stored := (holdsAt_field h 5 20 rfl (by simp [headerParts, joined])).u32At_eq
  rw [pageCount, stored, UInt32.toNat_ofNat']
  exact Nat.mod_eq_of_lt (Nat.lt_of_le_of_lt few (by decide))

theorem pagesStart_eq (h : HoldsAt bytes position entry.encode)
    (few : entry.pages.length ≤ maxPages) :
    pagesStart bytes position = position + headerSize + refSize * entry.pages.length := by
  rw [pagesStart, pageCount_eq h few, Nat.mul_comm]

/-- The references are read back. -/
theorem refs_eq (h : HoldsAt bytes position entry.encode) (limits : entry.WithinLimits) :
    refs bytes position = entry.pages.map refOf := by
  rw [refs, pageCount_eq h limits.pages_le]
  apply List.ext_getElem (by simp)
  intro i hi hi'
  have inside : i < entry.pages.length := by simpa using hi
  have placed : HoldsAt bytes (position + headerSize + i * refSize) (refBytes entry.pages[i]) := by
    have inRefs := (holdsAt_refs h).trans
      (holdsAt_joined size_of_mem_map_refBytes i (by simpa using inside))
    rwa [List.getElem_map, Nat.mul_comm refSize] at inRefs
  have offset := (placed.trans ((holdsAt_self (u32Bytes _)).append _)).u32At_eq
  have size := (placed.trans (holdsAt_append (u32Bytes _) (u32Bytes _))).u32At_eq
  have small : entry.pages[i].bytes.size < 2 ^ 32 :=
    Nat.lt_of_le_of_lt (limits.bytes_le _ (List.getElem_mem inside)) (by decide)
  rw [size_u32Bytes] at size
  rw [List.getElem_map, List.getElem_map, List.getElem_range, refOf]
  rw [Nat.add_zero] at offset
  rw [offset, size, UInt32.toNat_ofNat', Nat.mod_eq_of_lt small]

end Reading

/-- Pages that stand one after the other are cut out again. -/
theorem cutPages_eq {bytes : ByteArray} {start : Nat} {pages : List DirtyPage}
    (h : HoldsAt bytes start (joined (pages.map (·.bytes)))) (done : List DirtyPage) :
    cutPages bytes done start (pages.map refOf) = done.reverse ++ pages := by
  -- The position moves over one page after the other, and the page cut last stands in front.
  induction pages generalizing start done with
  | nil => exact (List.append_nil done.reverse).symm
  | cons page rest ih =>
      obtain ⟨first, others⟩ := HoldsAt.split h
      have cut : bytes.extract start (start + page.bytes.size) = page.bytes := first.extract_eq
      rw [List.map_cons, cutPages]
      change cutPages bytes (⟨page.offset, bytes.extract start (start + page.bytes.size)⟩ :: done)
        (start + page.bytes.size) (rest.map refOf) = _
      rw [cut, ih others, List.reverse_cons, List.append_assoc, List.singleton_append]

/-- Wherever the bytes of an entry stand, the entry is read, if it declares no more bytes than there
are. -/
theorem decode?_of_holdsAt {bytes : ByteArray} {position : Nat} {entry : LogEntry}
    (h : HoldsAt bytes position entry.encode) (limits : entry.WithinLimits)
    (declared : position + entry.size.toNat ≤ bytes.size) :
    decode? bytes position = some entry := by
  have size : u32At bytes (position + 4) = entry.size :=
    (holdsAt_field h 1 4 rfl (by simp [headerParts, joined])).u32At_eq
  have start_eq := pagesStart_eq h limits.pages_le
  have pages := holdsAt_pages h
  have payload := pages.inside
  rw [← payloadSize_map_refOf] at payload
  have header : HeaderFits bytes position := {
    header := by omega
    signature := (holdsAt_field h 0 0 rfl rfl).extract_eq
    size := by
      rw [size]
      exact limits.header_le
    size_le := by
      rw [size]
      exact declared
    pages := by
      rw [pageCount_eq h limits.pages_le]
      exact limits.pages_le
    refs := by
      rw [start_eq]
      omega }
  have fits : PagesFit bytes position := {
    sizes := by
      rw [refs_eq h limits]
      intro ref member
      obtain ⟨page, inEntry, rfl⟩ := List.mem_map.mp member
      exact limits.bytes_le page inEntry
    payload := by
      rw [refs_eq h limits, start_eq]
      exact payload }
  refine decode?_eq_some_iff.mpr ⟨header, fits, ?_⟩
  rw [fieldsAt, refs_eq h limits, start_eq, cutPages_eq pages, size,
    (holdsAt_field h 2 8 rfl (by simp [headerParts, joined])).u32At_eq,
    (holdsAt_field h 3 12 rfl (by simp [headerParts, joined])).u32At_eq,
    (holdsAt_field h 4 16 rfl (by simp [headerParts, joined])).u32At_eq,
    (holdsAt_field h 6 24 rfl (by simp [headerParts, joined])).u64At_eq,
    (holdsAt_field h 7 32 rfl (by simp [headerParts, joined])).u64At_eq]
  rfl

/-- Wherever the bytes of an entry stand that can be written, the entry is read. -/
theorem decode?_encode {bytes : ByteArray} {position : Nat} {entry : LogEntry}
    (h : HoldsAt bytes position entry.encode) (writable : entry.Writable) :
    decode? bytes position = some entry := by
  have inside := h.inside
  rw [size_encode, ← writable.size_eq] at inside
  exact decode?_of_holdsAt h writable.withinLimits inside

end LogEntry

end RegistryHive
