import RegistryHive.Proofs.Log.Extents

/-!
# Logs that are cut off

A log file that was cut off, anywhere behind its first block, is still read. Whether an entry
can be read depends only on the bytes up to the later of two positions, the one behind the
bytes that it takes and the one behind the bytes that it declares
(`decode?_extract_eq_some_iff`). So the scan of the shorter log comes to the same entries from
the same positions, and it stops at the first one that the cut went through
(`decode_extract`): a cut only drops entries from the end.
-/

namespace RegistryHive

namespace PlacedEntry

/-- An entry ends before a position: the bytes that it takes and the bytes that it declares do. -/
def EndsBy (placed : PlacedEntry) (size : Nat) : Prop := placed.stop ≤ size ∧ placed.next ≤ size

instance (placed : PlacedEntry) (size : Nat) : Decidable (placed.EndsBy size) :=
  inferInstanceAs (Decidable (_ ∧ _))

theorem endsBy_iff {position size : Nat} {entry : LogEntry} :
    EndsBy ⟨position, entry⟩ size ↔
      position + entry.encodedSize ≤ size ∧ position + entry.size.toNat ≤ size := Iff.rfl

end PlacedEntry

/-- The entries that are read before a cut are those of the whole log that end before it. -/
theorem LogEntry.decode?_extract_eq_some_iff {bytes : ByteArray} {position size : Nat}
    {entry : LogEntry} :
    decode? (bytes.extract 0 size) position = some entry ↔
      decode? bytes position = some entry ∧ PlacedEntry.EndsBy ⟨position, entry⟩ size := by
  have cut : (bytes.extract 0 size).size = min size bytes.size := ByteArray.size_extract
  rw [decode?_eq_some_iff_holdsAt, decode?_eq_some_iff_holdsAt, holdsAt_extract_zero_iff,
    size_encode, cut, PlacedEntry.endsBy_iff]
  constructor
  · rintro ⟨⟨stands, taken⟩, limits, declared⟩
    exact ⟨⟨stands, limits, by omega⟩, taken, by omega⟩
  · rintro ⟨⟨stands, limits, whole⟩, taken, declared⟩
    exact ⟨⟨stands, taken⟩, limits, by omega⟩

namespace TransactionLog

/-- The entries that are read from a position on, up to the first one that does not end before a
cut. -/
def entriesBefore (size position : Nat) (entries : List LogEntry) : List LogEntry :=
  ((placedFrom position entries).takeWhile fun placed => placed.EndsBy size).map (·.entry)

section Before

variable {size position : Nat} {entry : LogEntry} {rest : List LogEntry}

theorem entriesBefore_cons_of_endsBy (ends : PlacedEntry.EndsBy ⟨position, entry⟩ size) :
    entriesBefore size position (entry :: rest) =
      entry :: entriesBefore size (position + entry.size.toNat) rest := by
  rw [entriesBefore, placedFrom, List.takeWhile_cons, if_pos (decide_eq_true ends), List.map_cons]
  rfl

theorem entriesBefore_cons_of_not_endsBy (ends : ¬ PlacedEntry.EndsBy ⟨position, entry⟩ size) :
    entriesBefore size position (entry :: rest) = [] := by
  rw [entriesBefore, placedFrom, List.takeWhile_cons, if_neg (by simpa using ends), List.map_nil]

/-- A cut drops entries from the end only. -/
theorem entriesBefore_prefix (size position : Nat) (entries : List LogEntry) :
    entriesBefore size position entries <+: entries := by
  have front : (placedFrom position entries).takeWhile (fun placed => placed.EndsBy size) <+:
      placedFrom position entries := List.takeWhile_prefix _
  have kept := front.map (·.entry)
  rwa [map_entry_placedFrom] at kept

end Before

/-- The scan of the bytes before a cut finds the entries of the whole log up to the first one that
the cut went through. -/
theorem exists_scan_extract (bytes : ByteArray) (size position : Nat) (found : List LogEntry) :
    ∃ entries, scan bytes position found = found.reverse ++ entries ∧
      ∀ found', scan (bytes.extract 0 size) position found' =
        found'.reverse ++ entriesBefore size position entries := by
  fun_induction scan bytes position found with
  | case1 position found refused =>
      refine ⟨[], (List.append_nil _).symm, fun found' => ?_⟩
      have refused' : LogEntry.decode? (bytes.extract 0 size) position = none := by
        refine Option.eq_none_iff_forall_ne_some.mpr fun entry read => ?_
        obtain ⟨read', -⟩ := LogEntry.decode?_extract_eq_some_iff.mp read
        cases refused.symm.trans read'
      rw [scan_of_eq_none refused']
      exact (List.append_nil _).symm
  | case2 position found entry read ih =>
      obtain ⟨entries, scanned, before⟩ := ih
      refine ⟨entry :: entries, ?_, fun found' => ?_⟩
      · rw [scanned, List.reverse_cons, List.append_assoc, List.singleton_append]
      · by_cases ends : PlacedEntry.EndsBy ⟨position, entry⟩ size
        · have read' := LogEntry.decode?_extract_eq_some_iff.mpr ⟨read, ends⟩
          rw [scan_of_eq_some read', before, entriesBefore_cons_of_endsBy ends, List.reverse_cons,
            List.append_assoc, List.singleton_append]
        · -- The entry of the whole log is the only one that could be read here.
          have refused : LogEntry.decode? (bytes.extract 0 size) position = none := by
            refine Option.eq_none_iff_forall_ne_some.mpr fun other read' => ?_
            obtain ⟨same, ends'⟩ := LogEntry.decode?_extract_eq_some_iff.mp read'
            cases read.symm.trans same
            exact ends ends'
          rw [scan_of_eq_none refused, entriesBefore_cons_of_not_endsBy ends, List.append_nil]

/-- A log without its entries from the first one on that does not end before a cut. -/
def cutAt (log : TransactionLog) (size : Nat) : TransactionLog :=
  { log with entries := entriesBefore size baseBlockSize log.entries }

/-- A log that is cut off behind its first block is read. Its entries are those of the whole log
before the first one that does not end before the cut, so they are the first entries of the whole
log. -/
theorem decode_extract {bytes : ByteArray} {log : TransactionLog} (read : decode bytes = .ok log)
    {size : Nat} (block : baseBlockSize ≤ size) :
    decode (bytes.extract 0 size) = .ok (log.cutAt size) ∧
      (log.cutAt size).entries <+: log.entries := by
  refine ⟨?_, entriesBefore_prefix size baseBlockSize log.entries⟩
  unfold decode at read
  cases checked : checkSignature bytes with
  | error error =>
      rw [checked] at read
      cases read
  | ok _ =>
      rw [checked] at read
      cases read
      obtain ⟨whole, mark⟩ := (checkSignature_eq_ok_iff bytes).mp checked
      have four : 4 ≤ size := Nat.le_trans (by decide) block
      have checked' : checkSignature (bytes.extract 0 size) = .ok () := by
        refine (checkSignature_eq_ok_iff _).mpr ⟨?_, ?_⟩
        · rw [ByteArray.size_extract]
          omega
        · rw [ByteArray.extract_extract, ← mark]
          congr 1
          omega
      obtain ⟨entries, scanned, before⟩ := exists_scan_extract bytes size baseBlockSize []
      have same : scan bytes baseBlockSize [] = entries := scanned
      have first : scan (bytes.extract 0 size) baseBlockSize [] =
          entriesBefore size baseBlockSize entries := before []
      rw [decode, checked', first, same]
      rfl

/-- A log is read that ends with its entries. -/
theorem decode_of_holdsAt {bytes : ByteArray} {entries : List LogEntry}
    (mark : HoldsAt bytes 0 hiveSignature)
    (stand : HoldsAt bytes baseBlockSize (joined (entries.map LogEntry.encode)))
    (writable : ∀ entry ∈ entries, entry.Writable)
    (last : baseBlockSize + (joined (entries.map LogEntry.encode)).size = bytes.size) :
    decode bytes = .ok { path := none, entries := entries } := by
  have ended : LogEntry.decode? bytes
      (baseBlockSize + (joined (entries.map LogEntry.encode)).size) = none := by
    rw [last]
    exact LogEntry.decode?_size
  refine decode_eq_ok_iff.mpr ⟨by omega, mark.extract_eq, ?_⟩
  rw [scan_eq stand writable ended []]
  rfl

/-- The cut goes through the page of the second entry. The first one is kept. -/
theorem decode_extract_through_page :
    let first : LogEntry :=
      { size := 40, flags := 0, sequence := 1, binsSize := 0, pagesHash := 0, headerHash := 0
        pages := [] }
    let second : LogEntry :=
      { size := 51, flags := 1, sequence := 2, binsSize := 4096, pagesHash := 3, headerHash := 4
        pages := [⟨8, [1, 2, 3].toByteArray⟩] }
    let bytes := encode HiveImage.blankFile [first, second]
    decode bytes = .ok { path := none, entries := [first, second] } ∧ baseBlockSize ≤ 4186 ∧
      bytes.size = 4187 ∧
      decode (bytes.extract 0 4186) = .ok { path := none, entries := [first] } := by
  intro first second bytes
  have writable : ∀ entry ∈ [first, second], entry.Writable := by
    intro entry member
    rcases List.mem_cons.mp member with rfl | member
    · exact ⟨by decide, by decide, by decide⟩
    · obtain rfl := List.mem_singleton.mp member
      exact ⟨by decide, by decide, by decide⟩
  have parts : bytes = HiveImage.blankFile ++ joined ([first, second].map LogEntry.encode) :=
    encode_eq _ _
  have blank : HiveImage.blankFile.size = baseBlockSize := HiveImage.size_blankFile
  have length : (joined ([first, second].map LogEntry.encode)).size = 91 := by decide
  have size : bytes.size = 4187 := by
    rw [parts, ByteArray.size_append, blank, length]
    rfl
  have mark : HoldsAt bytes 0 hiveSignature := by
    rw [parts]
    exact ((holdsAt_self hiveSignature).append _).append _
  have stand : HoldsAt bytes baseBlockSize (joined ([first, second].map LogEntry.encode)) := by
    rw [parts, ← blank]
    exact holdsAt_append _ _
  have last : baseBlockSize + (joined ([first, second].map LogEntry.encode)).size = bytes.size := by
    rw [size, length]
    rfl
  have read := decode_of_holdsAt mark stand writable last
  have block : baseBlockSize ≤ 4186 := by decide
  have kept : entriesBefore 4186 baseBlockSize [first, second] = [first] := by decide
  obtain ⟨cut, -⟩ := decode_extract read block
  rw [cutAt, kept] at cut
  exact ⟨read, block, size, cut⟩

end TransactionLog

end RegistryHive
