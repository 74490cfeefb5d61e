import Mathlib.Data.Nat.Bitwise
import RegistryHive.Proofs.Payload.Segments

/-!
# Forms in which a payload is stored

A payload stands in the offset field of its value node, at the beginning of one cell, or, cut
into chunks, at the beginnings of several cells. In each form it is read back as it is
(`ValueNode.Stores.payload_eq`), whatever follows it in its cells. A node of any other
form gives at most as many bytes as it declares (`ValueNode.size_le_of_payload`).
-/

namespace RegistryHive

section Chunks

variable {payload : ByteArray} {parts : List ByteArray} {width : Nat}

/-- Past the end there is nothing more to cut out. -/
theorem extract_of_size_le {bytes : ByteArray} {start stop : Nat} (le : bytes.size ≤ stop) :
    bytes.extract start stop = bytes.extract start bytes.size := by
  apply bytes_ext
  · rw [ByteArray.size_extract, ByteArray.size_extract]
    omega
  · intro i hi
    rw [ByteArray.size_extract] at hi
    rw [byteAt_extract, byteAt_extract, if_pos (by omega), if_pos (by omega)]

/-- A string stands at the beginning of parts that follow each other if each part begins with a
chunk of it and is no longer than the chunks are. Only the last part can be longer than its
chunk. -/
theorem holdsAt_joined_of_chunks {first : Nat} (bounded : ∀ part ∈ parts, part.size ≤ width)
    (each : ∀ i, (h : i < parts.length) → HoldsAt parts[i] 0
      (payload.extract (width * (first + i)) (width * (first + i + 1))))
    (reach : payload.size ≤ width * (first + parts.length)) :
    HoldsAt (joined parts) 0 (payload.extract (width * first) payload.size) := by
  induction parts generalizing first with
  | nil =>
      have none : payload.extract (width * first) payload.size = ByteArray.empty :=
        ByteArray.extract_eq_empty_iff.mpr (Nat.le_trans (Nat.min_le_left _ _) reach)
      rw [none]
      exact holdsAt_empty (Nat.zero_le _)
  | cons part rest ih =>
      have here : HoldsAt part 0 (payload.extract (width * first) (width * (first + 1))) :=
        each 0 (Nat.succ_pos _)
      obtain last | whole := Nat.le_total payload.size (width * (first + 1))
      · rw [extract_of_size_le last] at here
        exact here.append (joined rest)
      · -- A whole chunk fills its part, so the next chunk follows at once.
        have filled : (payload.extract (width * first) (width * (first + 1))).size = part.size := by
          have inside := here.inside
          have limit := bounded part List.mem_cons_self
          rw [ByteArray.size_extract, Nat.mul_succ] at inside ⊢
          rw [Nat.mul_succ] at whole
          omega
        have others := ih (fun other later => bounded other (List.mem_cons_of_mem part later))
          (fun i hi => by
            have later := each (i + 1) (Nat.succ_lt_succ hi)
            rwa [List.getElem_cons_succ, ← Nat.add_assoc, Nat.add_right_comm] at later)
          (by rwa [List.length_cons, ← Nat.add_assoc, Nat.add_right_comm] at reach)
        have behind : HoldsAt (joined (part :: rest)) (0 + part.size)
            (payload.extract (width * (first + 1)) payload.size) := by
          rw [Nat.zero_add]
          exact (holdsAt_append part (joined rest)).trans others
        have both := (here.append (joined rest)).join filled behind
        rwa [ByteArray.extract_append_extract, Nat.max_eq_right whole,
          Nat.min_eq_left (Nat.mul_le_mul_left width (Nat.le_succ first))] at both

/-- What stands at the beginning of a string is cut out by its length. -/
theorem HoldsAt.extract_zero_eq {bytes part : ByteArray} (h : HoldsAt bytes 0 part) :
    bytes.extract 0 part.size = part := by
  have cut := h.extract_eq
  rwa [Nat.zero_add] at cut

end Chunks

/-- The segment list of a header names as many cells as a payload has chunks, and each cell begins
with its chunk. -/
structure BigData.HoldsChunks (header : BigData) (image : HiveImage) (list payload : ByteArray) :
    Prop where
  count : header.segmentCount.toNat = (payload.size + (segmentLimit - 1)) / segmentLimit
  read : image.readCell header.segmentList = .ok list
  room : 4 * header.segmentCount.toNat ≤ list.size
  each : ∀ i < header.segmentCount.toNat, ∃ body,
    image.readCell (u32At list (4 * i)) = .ok body ∧
      HoldsAt body 0 (payload.extract (segmentLimit * i) (segmentLimit * (i + 1)))

/-- The forms in which a value node of an image stores a payload. In all of them the size field says
how long it is. -/
inductive ValueNode.Stores (node : ValueNode) (image : HiveImage) (payload : ByteArray) : Prop
  /-- It stands in the offset field, and the size field is marked. -/
  | inline (short : payload.size ≤ 4)
      (size : node.rawSize = inlineMark + UInt32.ofNat payload.size)
      (here : HoldsAt (u32Bytes node.dataOffset) 0 payload)
  /-- It stands at the beginning of a cell, which is not taken for a big data header. -/
  | single {body : ByteArray} (some : 1 ≤ payload.size) (fits : payload.size < 2 ^ 31)
      (size : node.rawSize = UInt32.ofNat payload.size)
      (read : image.readCell node.dataOffset = .ok body) (here : HoldsAt body 0 payload)
      (plain : segmentLimit < payload.size → image.bigData? node.dataOffset = none)
  /-- It is cut into chunks, and its cell is a big data header. -/
  | segmented {header : BigData} {list : ByteArray} (long : segmentLimit < payload.size)
      (fits : payload.size < 2 ^ 31) (size : node.rawSize = UInt32.ofNat payload.size)
      (found : image.bigData? node.dataOffset = some header)
      (chunks : header.HoldsChunks image list payload)

/-- Cells that begin with the chunks of a payload make it up, whatever follows the chunks. -/
theorem BigData.HoldsChunks.assemble_eq {header : BigData} {image : HiveImage}
    {list payload : ByteArray} (chunks : header.HoldsChunks image list payload) :
    header.assemble image payload.size = .ok payload := by
  have named (i : Nat) (h : i < (header.segmentCells list).length) :
      (header.segmentCells list)[i] = u32At list (4 * i) := by
    simp only [segmentCells, List.getElem_map, List.getElem_range]
  have free : ¬ image.IsBlocked payload.size (header.segmentCells list) := by
    rintro ⟨before, cell, after, eq, ⟨error, unreadable⟩, -⟩
    have member : cell ∈ header.segmentCells list := by
      rw [eq]
      exact List.mem_append_right before List.mem_cons_self
    obtain ⟨i, hi, rfl⟩ := List.getElem_of_mem member
    rw [length_segmentCells] at hi
    obtain ⟨body, found, -⟩ := chunks.each i hi
    rw [named, found] at unreadable
    cases unreadable
  refine assemble_eq_ok_iff.mpr ⟨list, chunks.read, chunks.room, free, ?_⟩
  have stands : HoldsAt (image.segmentParts (header.segmentCells list)) 0
      (payload.extract (segmentLimit * 0) payload.size) := by
    apply holdsAt_joined_of_chunks
    · intro part member
      obtain ⟨cell, -, rfl⟩ := List.mem_map.mp member
      exact HiveImage.size_segmentPart_le
    · intro i hi
      rw [List.length_map, length_segmentCells] at hi
      obtain ⟨body, found, begins⟩ := chunks.each i hi
      rw [List.getElem_map, named, HiveImage.segmentPart_of_readCell found, Nat.zero_add]
      refine holdsAt_extract_zero_iff.mpr ⟨begins, ?_⟩
      rw [ByteArray.size_extract, Nat.mul_succ]
      omega
    · rw [List.length_map, length_segmentCells, chunks.count, segmentLimit]
      omega
  rw [Nat.mul_zero, ByteArray.extract_zero_size] at stands
  exact stands.extract_zero_eq.symm

namespace ValueNode

variable {node : ValueNode} {image : HiveImage} {payload : ByteArray}

section Flags

/-- The mark of an inline payload does not disturb its length. -/
private theorem inline_size : ∀ length, length < 5 →
    (inlineMark + UInt32.ofNat length) &&& 0x7FFFFFFF = UInt32.ofNat length ∧
      (inlineMark + UInt32.ofNat length) &&& inlineMark ≠ 0 := by
  decide

/-- A length of less than 2^31 bytes is not marked as that of an inline payload. -/
private theorem outside_size {length : Nat} (small : length < 2 ^ 31) :
    UInt32.ofNat length &&& 0x7FFFFFFF = UInt32.ofNat length ∧
      UInt32.ofNat length &&& inlineMark = 0 := by
  have toNat : (UInt32.ofNat length).toNat = length := by
    rw [UInt32.toNat_ofNat']
    omega
  constructor
  · apply UInt32.toNat_inj.mp
    rw [UInt32.toNat_and, toNat]
    exact (Nat.and_two_pow_sub_one_eq_mod length 31).trans (Nat.mod_eq_of_lt small)
  · apply UInt32.toNat_inj.mp
    rw [UInt32.toNat_and, toNat]
    change length &&& 2 ^ 31 = 0
    rw [Nat.and_two_pow, Nat.testBit_lt_two_pow small]
    rfl

/-- A marked size field is read as that of an inline payload. -/
theorem isInline_of_marked (short : payload.size ≤ 4)
    (size : node.rawSize = inlineMark + UInt32.ofNat payload.size) :
    node.isInline = true ∧ node.dataLength.toNat = payload.size := by
  obtain ⟨length, marked⟩ := inline_size payload.size (Nat.lt_succ_of_le short)
  rw [isInline, dataLength, size, length, Bool.or_eq_true, UInt32.toNat_ofNat']
  exact ⟨.inl (bne_iff_ne.mpr marked), Nat.mod_eq_of_lt (by omega)⟩

/-- A size field without a mark is read as that of a payload outside the node. -/
theorem isInline_of_unmarked (some : 1 ≤ payload.size) (fits : payload.size < 2 ^ 31)
    (size : node.rawSize = UInt32.ofNat payload.size) :
    node.isInline = false ∧ node.dataLength.toNat = payload.size := by
  obtain ⟨length, unmarked⟩ := outside_size fits
  have toNat : (UInt32.ofNat payload.size).toNat = payload.size := by
    rw [UInt32.toNat_ofNat']
    omega
  have nonzero : UInt32.ofNat payload.size ≠ 0 := by
    intro zero
    rw [zero] at toNat
    change 0 = _ at toNat
    omega
  refine ⟨?_, by rw [dataLength, size, length, toNat]⟩
  rw [isInline, size, unmarked, bne_self_eq_false, Bool.false_or]
  exact beq_eq_false_iff_ne.mpr nonzero

end Flags

theorem payload_of_inline (inside : node.isInline = true) :
    node.payload image = .ok node.inlineData := by
  rw [ValueNode.payload, inside]
  rfl

/-- The payload in one cell is the beginning of its body. -/
theorem payload_of_single {body : ByteArray} (outside : node.isInline = false)
    (read : image.readCell node.dataOffset = .ok body)
    (plain : segmentLimit < node.dataLength.toNat → image.bigData? node.dataOffset = none) :
    node.payload image = .ok (body.extract 0 node.dataLength.toNat) := by
  have valid := HiveImage.ne_nullOffset_of_readCell read
  have single : (if segmentLimit < node.dataLength.toNat then image.bigData? node.dataOffset
      else none) = none := by
    split
    · exact plain (by assumption)
    · rfl
  obtain ⟨view, found, rfl⟩ := HiveImage.readCell_eq_ok_iff.mp read
  simp only [ValueNode.payload, outside, single, found, Except.map, ByteView.content_part]
  rw [if_neg Bool.false_ne_true, if_neg valid]

/-- The payload behind a big data header is assembled. -/
theorem payload_of_segmented {header : BigData} (outside : node.isInline = false)
    (long : segmentLimit < node.dataLength.toNat)
    (found : image.bigData? node.dataOffset = some header) :
    node.payload image = header.assemble image node.dataLength.toNat := by
  have valid : node.dataOffset ≠ nullOffset := by
    intro null
    rw [null] at found
    cases found
  simp only [ValueNode.payload, outside, found]
  rw [if_neg Bool.false_ne_true, if_neg valid, if_pos long]

/-- A payload is read back from each form in which it is stored. -/
theorem Stores.payload_eq (stores : node.Stores image payload) :
    node.payload image = .ok payload := by
  cases stores with
  | inline short size here =>
      obtain ⟨inside, length⟩ := isInline_of_marked short size
      rw [payload_of_inline inside, inlineData, length, here.extract_zero_eq]
  | single some fits size read here plain =>
      obtain ⟨outside, length⟩ := isInline_of_unmarked some fits size
      rw [← length] at plain
      rw [payload_of_single outside read plain, length, here.extract_zero_eq]
  | segmented long fits size found chunks =>
      obtain ⟨outside, length⟩ := isInline_of_unmarked (by omega) fits size
      rw [← length] at long
      rw [payload_of_segmented outside long found, length]
      exact chunks.assemble_eq

/-- What is read is no longer than the node declares. -/
theorem size_le_of_payload (read : node.payload image = .ok payload) :
    payload.size ≤ node.dataLength.toNat := by
  simp only [ValueNode.payload] at read
  split at read
  · obtain rfl := Except.ok.inj read
    rw [inlineData, ByteArray.size_extract]
    omega
  · split at read
    · obtain rfl := Except.ok.inj read
      exact Nat.zero_le _
    · split at read
      · exact Nat.le_trans (BigData.size_le_of_assemble read) (Nat.min_le_left _ _)
      · cases found : image.cellBody node.dataOffset with
        | error error =>
            rw [found] at read
            cases read
        | ok body =>
            rw [found] at read
            obtain rfl := Except.ok.inj read
            rw [ByteView.size_content, ByteView.size_part]
            omega

end ValueNode

end RegistryHive
