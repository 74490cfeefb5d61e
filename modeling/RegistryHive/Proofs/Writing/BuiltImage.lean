import RegistryHive.Proofs.Cell.Standing

/-!
# The image of a written file

A finished file is a base block and the bin, padded to whole pages. Whatever
stands in the bin behind its header stands in the file, so every cell of the heap
that a writer represents is a cell of the image (`Represents.readsHeap`). A bin
of less than 2^31 bytes leaves room for the sign of a cell size and for the
position of a cell in the file.
-/

namespace RegistryHive

open HiveWriter

section Build

variable (writer : HiveWriter)

private theorem baseBlockParts_fit :
    ∀ part ∈ writer.baseBlockParts, part.1 + part.2.size ≤ checksumPosition := by
  have name : (Utf16.encode "SYSTEM").size = 12 := by decide
  have signature : hiveSignature.size = 4 := by decide
  simp [baseBlockParts, name, signature, checksumPosition]

theorem size_baseBlock : writer.baseBlock.size = baseBlockSize := by
  have block : (writeParts (zeros baseBlockSize) writer.baseBlockParts).size = baseBlockSize := by
    rw [size_writeParts, size_zeros]
    intro part member
    rw [size_zeros]
    exact Nat.le_trans (baseBlockParts_fit writer part member) (by decide)
  rw [HiveWriter.baseBlock, size_overwrite, block, size_u32Bytes]
  decide

variable {writer} in
/-- What fits in a page takes one page. -/
theorem binsSize_of_size_le (small : writer.bins.size ≤ pageSize) : writer.binsSize = pageSize := by
  rw [pageSize] at small
  rw [binsSize, pageSize]
  omega

/-- The bins of the finished file are as long as the base block says. -/
theorem size_build : writer.build.size = baseBlockSize + writer.binsSize := by
  have room : writer.bins.size ≤ writer.binsSize ∧ pageSize ≤ writer.binsSize := by
    rw [binsSize, pageSize]
    omega
  rw [pageSize] at room
  rw [HiveWriter.build, ByteArray.size_append, size_baseBlock, finishedBins, size_overwrite,
    size_growTo, size_u32Bytes]
  omega

/-- What is written into the base block stands at the start of the file. -/
theorem holdsAt_build_of_mem {part : Nat × ByteArray} (member : part ∈ writer.baseBlockParts) :
    HoldsAt writer.build part.1 part.2 := by
  have name : (Utf16.encode "SYSTEM").size = 12 := by decide
  have signature : hiveSignature.size = 4 := by decide
  have ordered : writer.baseBlockParts.Pairwise fun a b => a.1 + a.2.size ≤ b.1 := by
    simp [baseBlockParts, signature]
  have fits := baseBlockParts_fit writer part member
  exact ((holdsAt_writeParts ordered member).overwrite_of_disjoint (.inl fits)).append _

/-- What stands in the bin behind its header stands in the file behind the base block. -/
theorem HoldsAt.build {writer : HiveWriter} {start : Nat} {part : ByteArray}
    (h : HoldsAt writer.bins start part) (behind : binHeaderSize ≤ start) :
    HoldsAt writer.build (start + baseBlockSize) part := by
  have finished : HoldsAt writer.finishedBins start part := by
    refine (h.growTo writer.binsSize).overwrite_of_disjoint (.inr ?_)
    rw [size_u32Bytes]
    exact Nat.le_trans (by decide) behind
  have placed := (holdsAt_append writer.baseBlock writer.finishedBins).trans finished
  rwa [size_baseBlock, Nat.add_comm] at placed

/-- The image of the finished file. -/
def HiveWriter.image : HiveImage where
  bytes := writer.build
  baseBlock := .fieldsOf writer.build

/-- The finished file can be loaded. -/
theorem ofBytes_build : HiveImage.ofBytes writer.build = .ok writer.image := by
  have signature : writer.build.extract 0 4 = hiveSignature := by
    have member : (0, hiveSignature) ∈ writer.baseBlockParts := by simp [baseBlockParts]
    exact (holdsAt_build_of_mem writer member).extract_eq
  have size_le : baseBlockSize ≤ writer.build.size := by
    rw [HiveWriter.build, ByteArray.size_append, size_baseBlock]
    omega
  rw [HiveImage.ofBytes, BaseBlock.decode,
    (checkSignature_eq_ok_iff writer.build).mpr ⟨size_le, signature⟩]
  rfl

theorem rootOffset_image : writer.image.baseBlock.rootOffset = writer.root := by
  have member : (0x24, u32Bytes writer.root) ∈ writer.baseBlockParts := by simp [baseBlockParts]
  exact (holdsAt_build_of_mem writer member).u32At_eq

end Build

/-- Every cell of a heap is a cell of an image. -/
structure ReadsHeap (image : HiveImage) (heap : CellHeap) : Prop where
  valid : ∀ {cell stored}, heap cell = some stored → cell ≠ nullOffset
  size_lt : ∀ {cell stored}, heap cell = some stored → stored.body.size < 2 ^ 31
  read : ∀ {cell stored}, heap cell = some stored →
    ∃ view, image.cellBody cell = .ok view ∧ view.content = stored.body

private theorem ne_nullOffset {writer : HiveWriter} {heap : CellHeap}
    (represents : Represents writer heap) (small : writer.bins.size < 2 ^ 31) {cell : UInt32}
    {stored : StoredCell} (h : heap cell = some stored) : cell ≠ nullOffset := by
  have ends := represents.end_le h
  rintro rfl
  change 0xFFFFFFFF + _ ≤ _ at ends
  omega

/-- A cell that a writer has written stands in the image of the finished file. -/
theorem Represents.hasCell {writer : HiveWriter} {heap : CellHeap}
    (represents : Represents writer heap) (small : writer.bins.size < 2 ^ 31) {cell : UInt32}
    {stored : StoredCell} (h : heap cell = some stored) :
    writer.image.HasCell cell stored.body where
  ne_null := ne_nullOffset represents small h
  position_lt := by
    have ends := represents.end_le h
    rw [baseBlockSize, UInt32.size]
    omega
  size_le := by
    have ends := represents.end_le h
    omega
  stands := (represents.holds h).build (represents.behind h)

/-- The image of the finished file has every cell that the writer has written. -/
theorem Represents.readsHeap {writer : HiveWriter} {heap : CellHeap}
    (represents : Represents writer heap) (small : writer.bins.size < 2 ^ 31) :
    ReadsHeap writer.image heap where
  valid := ne_nullOffset represents small
  size_lt h := by
    have ends := represents.end_le h
    omega
  read h := HiveImage.readCell_eq_ok_iff.mp (represents.hasCell small h).readCell_eq

end RegistryHive
