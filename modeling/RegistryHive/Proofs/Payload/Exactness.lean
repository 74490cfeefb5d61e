import RegistryHive.Proofs.Writing.Payloads

/-!
# Payloads are read exactly

A payload comes back from every form in which it can be stored, and from segments exactly
those bytes come back that they hold.
-/

namespace RegistryHive

/-- A payload is read back from every form in which it is stored, and whatever a node says, no more
is read than it declares. -/
theorem ValueNode.payload_recovered (node : ValueNode) (image : HiveImage) :
    (∀ payload, node.Stores image payload → node.payload image = .ok payload) ∧
      ∀ result, node.payload image = .ok result → result.size ≤ node.dataLength.toNat :=
  ⟨fun _ stores => stores.payload_eq, fun _ read => size_le_of_payload read⟩

namespace Written

open HiveWriter

/-- A payload that does not fit into one segment. -/
def longPayload : ByteArray := zeros segmentLimit ++ u32Bytes 1

/-- A value node for this payload. -/
def longValue : ValueNode := valueNodeOf "Long" 3 (HiveWriter.start.payload longPayload).1

/-- An image with this payload. -/
def longImage : HiveImage := (HiveWriter.start.payload longPayload).2.image

theorem size_longPayload : longPayload.size = 16348 := by
  rw [longPayload, ByteArray.size_append, size_zeros, size_u32Bytes, segmentLimit]

theorem size_start_longPayload_lt :
    (HiveWriter.start.payload longPayload).2.bins.size < 2 ^ 31 := by
  have parts : (segments longPayload).map ByteArray.size = [16344, 4] := by
    rw [segments, size_longPayload, List.map_map]
    simp [Function.comp_def, size_longPayload, segmentLimit, List.range_succ]
  have space : ((segments longPayload).map fun part => cellSpace part.size) =
      ((segments longPayload).map ByteArray.size).map cellSpace := by
    rw [List.map_map, Function.comp_def]
  have two : (segments longPayload).length = 2 := by
    rw [length_segments, size_longPayload, segmentLimit]
  rw [size_payload, size_start, payloadSpace, size_longPayload, if_neg (by decide),
    if_pos (by decide), bigDataSpace, space, parts, two]
  decide

theorem exists_longPayload_stored : longPayload.size ≤ 65535 * segmentLimit ∧
    ∃ heap, ReadsHeap longImage heap ∧
      PayloadStored heap longPayload (HiveWriter.start.payload longPayload).1 := by
  obtain ⟨heap, represents, -, stored⟩ :=
    Represents.start.exists_payload longPayload size_start_longPayload_lt
  refine ⟨?_, heap, represents.readsHeap size_start_longPayload_lt, stored⟩
  rw [size_longPayload, segmentLimit]
  decide

/-- A payload of two segments is read back. -/
theorem payload_longValue :
    longValue.payload longImage = .ok longPayload ∧
      longPayload.size ≤ longValue.dataLength.toNat := by
  obtain ⟨fits, heap, reads, stored⟩ := exists_longPayload_stored
  obtain ⟨recovered, bounded⟩ := longValue.payload_recovered longImage
  have read := recovered longPayload (stored.stores_valueNodeOf reads fits "Long" 3)
  exact ⟨read, bounded longPayload read⟩

end Written

/-- Assembling fails only if the segment list cannot be read or is too short, or if a segment cell
cannot be read that is still needed. Otherwise it gives the beginning of what the segments hold,
and for a shorter length the beginning of that. -/
theorem BigData.assemble_exact (header : BigData) (image : HiveImage) {shorter length : Nat}
    (le : shorter ≤ length) :
    ((∃ error, header.assemble image length = .error error) ↔
        (∃ error, image.readCell header.segmentList = .error error) ∨
          ∃ list, image.readCell header.segmentList = .ok list ∧
            (list.size < 4 * header.segmentCount.toNat ∨
              image.IsBlocked length (header.segmentCells list))) ∧
      ∀ payload, header.assemble image length = .ok payload →
        (∃ list, image.readCell header.segmentList = .ok list ∧
          payload = (image.segmentParts (header.segmentCells list)).extract 0 length) ∧
        payload.size ≤ min length (header.segmentCount.toNat * segmentLimit) ∧
        header.assemble image shorter = .ok (payload.extract 0 shorter) := by
  refine ⟨assemble_eq_error_iff, fun payload assembled => ?_⟩
  obtain ⟨list, read, -, -, parts⟩ := assemble_eq_ok_iff.mp assembled
  exact ⟨⟨list, read, parts⟩, size_le_of_assemble assembled, assemble_of_le le assembled⟩

/-- Two segments are put together, and the first of them alone when no more is asked for. -/
theorem Written.assemble_longPayload :
    ∃ header,
      longImage.bigData? (HiveWriter.start.payload longPayload).1.location = some header ∧
      header.assemble longImage 16348 = .ok longPayload ∧
      header.assemble longImage 16344 = .ok (longPayload.extract 0 16344) := by
  obtain ⟨fits, heap, reads, stored⟩ := exists_longPayload_stored
  have long : segmentLimit < longPayload.size := by
    rw [size_longPayload, segmentLimit]
    decide
  obtain ⟨header, list, found, chunks⟩ := stored.exists_chunks reads long fits
  have assembled := chunks.assemble_eq
  rw [size_longPayload] at assembled
  obtain ⟨-, given⟩ := header.assemble_exact longImage (show 16344 ≤ 16348 by decide)
  exact ⟨header, found, assembled, (given longPayload assembled).2.2⟩

end RegistryHive
