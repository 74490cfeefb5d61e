import RegistryHive.Log.TransactionLog
import RegistryHive.Proofs.Log.EncodedEntry
import RegistryHive.Proofs.Recovery.Replay

/-!
# Reading a log that was written

A log is its first block and its entries, one after the other. The scan goes from
each entry to the next by the size that the entry declares, so it comes to every
entry where it was written. Behind the last one it goes on as long as an entry
can be read there: bytes that are no beginning of an entry end it.
-/

namespace RegistryHive

namespace LogEntry

/-- No entry begins with these bytes: they are fewer than a header, or they do not begin with the
mark of an entry, or the size that they declare is less than that of a header or more than there
are bytes. -/
def NoneBegins (tail : ByteArray) : Prop :=
  tail.size < headerSize ∨ tail.extract 0 4 ≠ signature ∨
    (u32At tail 4).toNat < headerSize ∨ tail.size < (u32At tail 4).toNat

instance (tail : ByteArray) : Decidable (NoneBegins tail) :=
  inferInstanceAs (Decidable (_ ∨ _ ∨ _ ∨ _))

/-- Nothing is read at the place where such bytes stand at the end of a log. -/
theorem decode?_eq_none {done tail : ByteArray} (noneBegins : NoneBegins tail) :
    decode? (done ++ tail) done.size = none := by
  apply if_neg
  rintro ⟨header, mark, size, size_le, -, -⟩
  have declared : u32At (done ++ tail) (done.size + 4) = u32At tail 4 := by
    apply UInt32.toNat_inj.mp
    rw [toNat_u32At, toNat_u32At]
    apply littleEndian_congr
    intro i _
    rw [Nat.add_assoc, byteAt_append, if_neg (by omega), Nat.add_sub_cancel_left]
  have start : (done ++ tail).extract done.size (done.size + 4) = tail.extract 0 4 := by
    have moved : (done ++ tail).extract (done.size + 0) (done.size + 4) = tail.extract 0 4 :=
      ByteArray.extract_append_size_add
    rwa [Nat.add_zero] at moved
  rw [ByteArray.size_append] at header size_le
  rw [declared] at size size_le
  rcases noneBegins with short | foreign | small | large
  · omega
  · rw [start] at mark
    exact foreign mark
  · omega
  · omega

end LogEntry

namespace TransactionLog

/-- A log is read if the first block is one of a hive. Its entries are those of the scan. -/
theorem decode_eq_ok_iff {bytes : ByteArray} {log : TransactionLog} :
    decode bytes = .ok log ↔
      baseBlockSize ≤ bytes.size ∧ bytes.extract 0 4 = hiveSignature ∧
        { path := none, entries := scan bytes baseBlockSize [] } = log := by
  rw [decode, ← and_assoc, ← checkSignature_eq_ok_iff]
  cases checkSignature bytes <;> simp [Except.map]

/-- An encoded log is its first block and its entries. -/
theorem encode_eq (block : ByteArray) (entries : List LogEntry) :
    encode block entries = block ++ joined (entries.map LogEntry.encode) :=
  foldl_append_eq LogEntry.encode entries block

section Scan

variable {bytes : ByteArray} {position : Nat}

/-- The scan ends where no entry can be read. -/
theorem scan_of_eq_none (refused : LogEntry.decode? bytes position = none)
    (found : List LogEntry) : scan bytes position found = found.reverse := by
  rw [scan]
  split
  · rfl
  · rename_i read
    cases refused.symm.trans read

/-- From an entry the scan goes on behind the bytes that the entry declares. -/
theorem scan_of_eq_some {entry : LogEntry} (read : LogEntry.decode? bytes position = some entry)
    (found : List LogEntry) :
    scan bytes position found = scan bytes (position + entry.size.toNat) (entry :: found) := by
  rw [scan]
  split
  · rename_i refused
    cases read.symm.trans refused
  · rename_i other read'
    cases read.symm.trans read'
    rfl

/-- The scan comes to every entry, and ends behind the last one. -/
theorem scan_eq {entries : List LogEntry}
    (stand : HoldsAt bytes position (joined (entries.map LogEntry.encode)))
    (writable : ∀ entry ∈ entries, entry.Writable)
    (ended : LogEntry.decode? bytes (position + (joined (entries.map LogEntry.encode)).size) = none)
    (found : List LogEntry) : scan bytes position found = found.reverse ++ entries := by
  -- The position moves over one entry after the other, and the entry read last stands in front.
  induction entries generalizing position found with
  | nil =>
      have here : LogEntry.decode? bytes position = none := ended
      rw [scan_of_eq_none here, List.append_nil]
  | cons entry rest ih =>
      obtain ⟨first, others⟩ := HoldsAt.split stand
      have written := writable entry List.mem_cons_self
      have read := LogEntry.decode?_encode first written
      have size_eq : entry.encode.size = entry.size.toNat := by
        rw [LogEntry.size_encode, written.size_eq]
      rw [List.map_cons, joined, ByteArray.size_append, ← Nat.add_assoc] at ended
      rw [size_eq] at others ended
      have later := ih others
        (fun other member => writable other (List.mem_cons_of_mem entry member)) ended
        (entry :: found)
      rw [scan_of_eq_some read, later, List.reverse_cons, List.append_assoc, List.singleton_append]

end Scan

/-- A log that was written is read: its entries come out as they went in, whatever bytes follow
them that are no beginning of an entry. -/
theorem decode_encode_append {block tail : ByteArray} {entries : List LogEntry}
    (size : block.size = baseBlockSize) (signature : block.extract 0 4 = hiveSignature)
    (writable : ∀ entry ∈ entries, entry.Writable) (noneBegins : LogEntry.NoneBegins tail) :
    decode (encode block entries ++ tail) = .ok { path := none, entries := entries } := by
  rw [encode_eq, ByteArray.append_assoc]
  have checked : checkSignature (block ++ (joined (entries.map LogEntry.encode) ++ tail)) =
      .ok () := by
    refine (checkSignature_eq_ok_iff _).mpr ⟨?_, ?_⟩
    · rw [ByteArray.size_append]
      omega
    · have start : baseBlockSize = 4096 := rfl
      rw [ByteArray.extract_append, signature, size, start, Nat.zero_sub,
        ByteArray.extract_eq_empty_iff.mpr (by omega), ByteArray.append_empty]
  have stand : HoldsAt (block ++ (joined (entries.map LogEntry.encode) ++ tail)) baseBlockSize
      (joined (entries.map LogEntry.encode)) := by
    rw [← size]
    exact ((holdsAt_append block _).split).1
  have ended : LogEntry.decode? (block ++ (joined (entries.map LogEntry.encode) ++ tail))
      (baseBlockSize + (joined (entries.map LogEntry.encode)).size) = none := by
    rw [← size, ← ByteArray.append_assoc, ← ByteArray.size_append]
    exact LogEntry.decode?_eq_none noneBegins
  rw [decode, checked, scan_eq stand writable ended []]
  rfl

/-- An entry with two pages, one of them empty, and an entry without pages stand before bytes that
begin like an entry but declare more bytes than there are. -/
theorem decode_encode_append_cut_off :
    let entries : List LogEntry :=
      [{ size := 59, flags := 1, sequence := 2, binsSize := 4096, pagesHash := 3, headerHash := 4
         pages := [⟨8, [1, 2, 3].toByteArray⟩, ⟨16, ByteArray.empty⟩] },
        { size := 40, flags := 0, sequence := 1, binsSize := 0, pagesHash := 0, headerHash := 0
          pages := [] }]
    let tail := LogEntry.encode
      { size := 41, flags := 0, sequence := 3, binsSize := 0, pagesHash := 0, headerHash := 0
        pages := [] }
    HiveImage.blankFile.size = baseBlockSize ∧
      HiveImage.blankFile.extract 0 4 = hiveSignature ∧
      (∀ entry ∈ entries, entry.Writable) ∧ LogEntry.NoneBegins tail ∧
      decode (encode HiveImage.blankFile entries ++ tail) =
        .ok { path := none, entries := entries } := by
  intro entries tail
  have writable : ∀ entry ∈ entries, entry.Writable := by
    intro entry member
    rcases List.mem_cons.mp member with rfl | member
    · exact ⟨by decide, by decide, by decide⟩
    · obtain rfl := List.mem_singleton.mp member
      exact ⟨by decide, by decide, by decide⟩
  have noneBegins : LogEntry.NoneBegins tail := by
    decide
  have signature := HiveImage.extract_blankFile
  exact ⟨HiveImage.size_blankFile, signature, writable, noneBegins,
    decode_encode_append HiveImage.size_blankFile signature writable noneBegins⟩

end TransactionLog

end RegistryHive
