import RegistryHive.Proofs.Payload.StorageForms
import RegistryHive.Proofs.Writing.BuiltImage
import RegistryHive.Proofs.Writing.Run

/-!
# Reading written payloads

A writer uses each form in which a payload can be stored: in the four bytes of the offset
field of its node, in a cell of its own, or in segments. Padding stands behind every part
that is written, and none of it is read.
-/

namespace RegistryHive

open HiveWriter

section Payload

variable {image : HiveImage} {heap : CellHeap} {node : ValueNode} {payload : ByteArray}

/-- A written cell is read with its padding. -/
theorem ReadsHeap.readCell (reads : ReadsHeap image heap) {cell : UInt32} {body : ByteArray}
    (stored : heap cell = some (.fixed (paddedBody body))) :
    image.readCell cell = .ok (paddedBody body) :=
  HiveImage.readCell_eq_ok_iff.mpr (reads.read stored)

theorem inlineMark_or_size : ∀ length, length < 5 →
    ValueNode.inlineMark ||| UInt32.ofNat length = ValueNode.inlineMark + UInt32.ofNat length := by
  decide

/-- A short payload stands in the offset field. -/
theorem holdsAt_inlineFields (short : payload.size ≤ 4) :
    HoldsAt (u32Bytes (inlineFields payload).location) 0 payload := by
  constructor
  · rw [size_u32Bytes]
    omega
  · intro i hi
    rw [inlineFields, Nat.zero_add, byteAt_u32Bytes_u32At _ (by omega), Nat.zero_add,
      byteAt_overwrite, if_pos (by omega), Nat.sub_zero]

/-- A written big data header is found. -/
theorem ReadsHeap.bigData?_eq (reads : ReadsHeap image heap) {cell list : UInt32} {count : Nat}
    (header : heap cell = some (.fixed (paddedBody (bigDataBody count list)))) :
    image.bigData? cell =
      some { segmentCount := UInt16.ofNat count, segmentList := list } := by
  obtain ⟨view, read, content⟩ := reads.read header
  rw [HiveImage.bigData?, HiveImage.decode, read]
  simp only
  rw [bigData_decode content cell]
  rfl

theorem length_segments (payload : ByteArray) :
    (segments payload).length = (payload.size + (segmentLimit - 1)) / segmentLimit := by
  rw [segments, List.length_map, List.length_range]

/-- A payload that is longer than a segment is found in the cells that its header names. -/
theorem PayloadStored.exists_chunks {fields : PayloadFields}
    (stored : PayloadStored heap payload fields) (reads : ReadsHeap image heap)
    (long : segmentLimit < payload.size) (fits : payload.size ≤ 65535 * segmentLimit) :
    ∃ header list, image.bigData? fields.location = some header ∧
      header.HoldsChunks image list payload := by
  rw [segmentLimit] at long
  obtain short | ⟨-, single, -⟩ | @⟨cell, list, offsets, -, header, listed, parts⟩ := stored
  · omega
  · rw [segmentLimit] at single
    omega
  have count : offsets.length = (payload.size + (segmentLimit - 1)) / segmentLimit :=
    parts.length_eq.trans (length_segments payload)
  have few : (UInt16.ofNat offsets.length).toNat = offsets.length := by
    rw [UInt16.toNat_ofNat', count]
    simp only [segmentLimit] at fits ⊢
    omega
  obtain ⟨view, read, content⟩ := reads.read listed
  have room := length_le_of_content_eq content
  refine ⟨_, view.content, reads.bigData?_eq header, few.trans count,
    HiveImage.readCell_eq_ok_iff.mpr ⟨view, read, rfl⟩, ?_, ?_⟩
  · rw [few, ByteView.size_content]
    omega
  · intro i hi
    rw [few] at hi
    have part := (List.forall₂_iff_get.mp parts).2 i hi (by rwa [← parts.length_eq])
    simp only [List.get_eq_getElem, segments, List.getElem_map, List.getElem_range] at part
    rw [ByteView.u32At_content, u32At_of_content_eq content i hi]
    exact ⟨_, reads.readCell part, (holdsAt_self _).paddedBody⟩

/-- A node with the fields of a written payload stores it. -/
theorem PayloadStored.stores {fields : PayloadFields} (stored : PayloadStored heap payload fields)
    (reads : ReadsHeap image heap) (fits : payload.size ≤ 65535 * segmentLimit)
    (size : node.rawSize = fields.size) (location : node.dataOffset = fields.location) :
    node.Stores image payload := by
  have small : payload.size < 2 ^ 31 := by
    rw [segmentLimit] at fits
    omega
  cases stored with
  | inline short =>
      refine .inline short (size.trans (inlineMark_or_size _ (Nat.lt_succ_of_le short))) ?_
      rw [location]
      exact holdsAt_inlineFields short
  | single long single stored =>
      refine .single (by omega) small size (location ▸ reads.readCell stored)
        (holdsAt_self payload).paddedBody fun long => ?_
      exact absurd long (Nat.not_lt.mpr single)
  | segmented long header listed parts =>
      obtain ⟨data, list, found, chunks⟩ :=
        (PayloadStored.segmented long header listed parts).exists_chunks reads long fits
      rw [← location] at found
      exact .segmented long small size found chunks

theorem PayloadStored.stores_valueNodeOf {fields : PayloadFields}
    (stored : PayloadStored heap payload fields) (reads : ReadsHeap image heap)
    (fits : payload.size ≤ 65535 * segmentLimit) (name : String) (code : UInt32) :
    (valueNodeOf name code fields).Stores image payload :=
  stored.stores reads fits rfl rfl

end Payload

end RegistryHive
