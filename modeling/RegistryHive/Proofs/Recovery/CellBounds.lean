import RegistryHive.Proofs.Recovery.Coherence
import RegistryHive.Proofs.Recovery.UntouchedCells
import RegistryHive.Proofs.Writing.BuiltImage
import RegistryHive.Proofs.Writing.LayOut

/-!
# How far cells reach

The base block announces how many bytes of bins follow it, but cells are read up to the end of the
image and not up to the end of these bins. The announced size plays no part in it: an image that is
given any other one has the same cells (`HiveImage.SameBins.readCell_eq`). So a cell that lies in
slack behind the bins is read like any other.

Cells are kept inside the announced bins only where nothing follows these bins in the image
(`HiveImage.EndsWithBins`). A replay keeps this if the bins size that it takes over covers the image
and the pages, and that is up to the logs (`HiveImage.Announces`).
-/

namespace RegistryHive

open HiveWriter

namespace HiveImage

variable {image other : HiveImage} {offset : UInt32} {body : ByteArray}

/-- The images agree behind the base block. -/
structure SameBins (image other : HiveImage) : Prop where
  size_eq : image.size = other.size
  byteAt_eq : ∀ position, baseBlockSize ≤ position →
    byteAt image.bytes position = byteAt other.bytes position

namespace SameBins

variable (same : image.SameBins other)

include same

theorem holds_eq (position count : Nat) :
    image.holds position count = other.holds position count := by
  rw [holds, holds, same.size_eq]

theorem cellSize_eq (offset : UInt32) : image.cellSize offset = other.cellSize offset := by
  have field : u32At image.bytes (offset.toNat + baseBlockSize) =
      u32At other.bytes (offset.toNat + baseBlockSize) :=
    u32At_congr fun i _ => same.byteAt_eq _ (by omega)
  unfold cellSize absolutePosition?
  by_cases addressed : offset.toNat + baseBlockSize < UInt32.size
  · simp only [if_pos addressed, same.holds_eq, same.size_eq, field]
  · simp only [if_neg addressed, same.size_eq]

/-- Cells are read from what stands behind the base block. -/
theorem readCell_eq (offset : UInt32) : image.readCell offset = other.readCell offset := by
  have content (size : Nat) :
      (image.part (offset.toNat + baseBlockSize + 4)
          (offset.toNat + baseBlockSize + size)).content =
        (other.part (offset.toNat + baseBlockSize + 4)
          (offset.toNat + baseBlockSize + size)).content := by
    have size_eq : image.bytes.size = other.bytes.size := same.size_eq
    rw [part, part, ByteView.content_part, ByteView.content_part, ByteView.content_ofBytes,
      ByteView.content_ofBytes]
    apply bytes_ext
    · rw [ByteArray.size_extract, ByteArray.size_extract, size_eq]
    · intro i _
      rw [byteAt_extract, byteAt_extract, size_eq, same.byteAt_eq _ (by omega)]
  rw [readCell, readCell, cellBody, cellBody, same.cellSize_eq offset, same.size_eq]
  by_cases null : offset = nullOffset
  · simp only [if_pos null]
  · simp only [if_neg null]
    cases other.cellSize offset with
    | error error => rfl
    | ok cellSize =>
        simp only [same.holds_eq]
        split
        · rfl
        · split
          · rfl
          · split
            · rfl
            · exact congrArg Except.ok (content cellSize.size)

theorem decode_eq (offset : UInt32) : image.decode offset = other.decode offset :=
  decode_eq_of_readCell_eq (same.readCell_eq offset)

end SameBins

/-- An image with another bins size in its base block. -/
theorem sameBins_refreshHeader (image : HiveImage) (binsSize : Option UInt32) :
    (image.refreshHeader binsSize).SameBins image where
  size_eq := by
    change (image.refreshHeader binsSize).bytes.size = image.bytes.size
    rw [bytes_refreshHeader, size_storeBinsSize]
  byteAt_eq position bins := by
    rw [bytes_refreshHeader, byteAt_storeBinsSize _ _ (not_inUpdatedField_of_le bins)]

/-- Nothing follows the bins that the base block announces. -/
def EndsWithBins (image : HiveImage) : Prop :=
  image.size ≤ baseBlockSize + image.baseBlock.binsSize.toNat

/-- Cells lie inside the announced bins where nothing follows these. -/
theorem EndsWithBins.le_binsSize (ends : image.EndsWithBins) (cell : image.HasCell offset body) :
    offset.toNat + (4 + body.size) ≤ image.baseBlock.binsSize.toNat := by
  have end_le := cell.end_le
  rw [EndsWithBins] at ends
  omega

/-- The bins size that the base block announces after a replay whose newest entry is this one. -/
def binsSizeAfter (image : HiveImage) (newest : LogEntry) : UInt32 :=
  if 0 < newest.binsSize then newest.binsSize else image.baseBlock.binsSize

/-- The bins size that a round takes over covers the image as it is and the pages that the round
copies. -/
def Announces (image : HiveImage) (round : Round) : Prop :=
  ∀ newest, Newest (image.newerEntries round.logs) newest →
    image.size ≤ baseBlockSize + (image.binsSizeAfter newest).toNat ∧
      ∀ page ∈ image.acceptedPages round.logs round.limit,
        page.stop ≤ baseBlockSize + (image.binsSizeAfter newest).toNat

/-- Every one of the rounds announces what it leaves. -/
def AnnouncedThrough (image : HiveImage) : List Round → Prop
  | [] => True
  | round :: rest =>
      image.Announces round ∧ (image.replay round.logs round.limit).1.AnnouncedThrough rest

/-- A replay that copies pages takes over the bins size of the newest entry, if it has one. -/
theorem Coherent.binsSize_replay (h : image.Coherent) {logs : List TransactionLog} {limit : Nat}
    (pages : image.acceptedPages logs limit ≠ []) :
    ∃ newest, Newest (image.newerEntries logs) newest ∧
      (image.replay logs limit).1.baseBlock.binsSize = image.binsSizeAfter newest := by
  obtain ⟨newest, isNewest, stored, unstored⟩ := h.header_replay logs limit pages
  refine ⟨newest, isNewest, ?_⟩
  by_cases positive : 0 < newest.binsSize
  · rw [(stored positive).1, binsSizeAfter, if_pos positive]
  · have zero : newest.binsSize = 0 := by
      apply UInt32.toNat_inj.mp
      rw [UInt32.lt_iff_toNat_lt] at positive
      exact Nat.eq_zero_of_not_pos positive
    rw [(h.replay logs limit).baseBlock_eq, binsSizeAfter, if_neg positive, h.baseBlock_eq]
    apply u32At_congr
    intro i inside
    apply unstored zero
    simp only [baseBlockSize, binsSizePosition]
    omega

/-- A replay keeps everything inside the announced bins if it announces what it leaves. -/
theorem EndsWithBins.replay (ends : image.EndsWithBins) (h : image.Coherent) {round : Round}
    (announced : image.Announces round) :
    (image.replay round.logs round.limit).1.EndsWithBins := by
  by_cases nothing : image.acceptedPages round.logs round.limit = []
  · rwa [image.image_replay_of_nil round.logs round.limit nothing]
  · obtain ⟨newest, isNewest, binsSize⟩ := h.binsSize_replay nothing
    obtain ⟨covered, stops⟩ := announced newest isNewest
    rw [EndsWithBins, binsSize]
    change (image.replay round.logs round.limit).1.bytes.size ≤ _
    rw [image.size_bytes_replay]
    have grown := size_layPages_le stops image.bytes
    exact Nat.le_trans grown (Nat.max_le.mpr ⟨covered, Nat.le_refl _⟩)

/-- Rounds of replay keep everything inside the announced bins if each of them announces what it
leaves. -/
theorem EndsWithBins.afterRounds {rounds : List Round} (ends : image.EndsWithBins)
    (h : image.Coherent) (announced : image.AnnouncedThrough rounds) :
    (image.afterRounds rounds).EndsWithBins := by
  induction rounds generalizing image with
  | nil => exact ends
  | cons round rest ih =>
      obtain ⟨first, later⟩ := announced
      exact ih (ends.replay h first) (h.replay round.logs round.limit) later

/-- A bins size that is written into the base block is announced there. -/
theorem Coherent.binsSize_refreshHeader (h : image.Coherent) (size : UInt32) :
    (image.refreshHeader (some size)).baseBlock.binsSize = size := by
  have readable : BaseBlock.decode (withBinsSize image.bytes size) =
      .ok (BaseBlock.fieldsOf (withBinsSize image.bytes size)) := by
    apply h.decode_ok (Nat.le_of_eq (size_withBinsSize size image.bytes).symm)
    exact fun position _ outside => byteAt_withBinsSize size image.bytes outside
  simp only [refreshHeader, storeBinsSize, readable]
  rw [fieldsOf_withBinsSize size h.baseBlockSize_le]

/-- A file that was loaded and then recovered in any number of rounds.

Every cell that is read lies inside the image. It lies inside the bins that the base block announces
if nothing follows these, which holds after the rounds if it held before and each round announces
what it leaves. But the announced size itself bounds nothing: the same cells are read with any other
one in the base block. -/
theorem readCell_bounds {file : ByteArray} {image : HiveImage} (loaded : ofBytes file = .ok image)
    (rounds : List Round) :
    let last := image.afterRounds rounds
    (∀ offset body, last.readCell offset = .ok body →
      baseBlockSize + offset.toNat + (4 + body.size) ≤ last.size ∧
      (last.EndsWithBins → offset.toNat + (4 + body.size) ≤ last.baseBlock.binsSize.toNat)) ∧
    (image.EndsWithBins → image.AnnouncedThrough rounds → last.EndsWithBins) ∧
    ∀ size, (last.refreshHeader (some size)).baseBlock.binsSize = size ∧
      ∀ offset, (last.refreshHeader (some size)).readCell offset = last.readCell offset ∧
        (last.refreshHeader (some size)).decode offset = last.decode offset := by
  intro last
  have first : image.Coherent := coherent_of_ofBytes loaded
  refine ⟨?_, ?_, ?_⟩
  · intro offset body read
    have cell := readCell_eq_ok_iff_hasCell.mp read
    have end_le := cell.end_le
    rw [Nat.add_comm offset.toNat] at end_le
    exact ⟨end_le, fun ends => ends.le_binsSize cell⟩
  · intro ends announced
    exact ends.afterRounds first announced
  · intro size
    have same := last.sameBins_refreshHeader (some size)
    refine ⟨(first.afterRounds rounds).binsSize_refreshHeader size, fun offset => ?_⟩
    exact ⟨same.readCell_eq offset, same.decode_eq offset⟩

/-- A round that writes one cell at the beginning of the bins. -/
def cellRound : Round where
  logs := [onePageLog 1 0 [0xFA, 0xFF, 0xFF, 0xFF, 0x73, 0x6B]]
  limit := 8192

/-- The bins size of the log covers the cell that was written. -/
theorem readCell_bounds_cellRound :
    ofBytes blankFile = .ok blankImage ∧ blankImage.EndsWithBins ∧
      blankImage.AnnouncedThrough [cellRound] ∧
      (blankImage.afterRounds [cellRound]).readCell 0 = .ok CellTag.security.mark ∧
      (0 : UInt32).toNat + (4 + CellTag.security.mark.size) ≤
        (blankImage.afterRounds [cellRound]).baseBlock.binsSize.toNat := by
  have page : cellBytes CellTag.security.mark =
      [0xFA, 0xFF, 0xFF, 0xFF, 0x73, 0x6B].toByteArray := by decide
  have newer : blankImage.newerEntries cellRound.logs = cellRound.logs.flatMap (·.entries) := by
    rw [newerEntries_blankImage]
    rfl
  have pages : blankImage.acceptedPages cellRound.logs cellRound.limit =
      [⟨0, cellBytes CellTag.security.mark⟩] := by
    rw [acceptedPages, newer, page]
    rfl
  have ends : blankImage.EndsWithBins := by
    change blankFile.size ≤ _
    rw [size_blankFile]
    exact Nat.le_add_right _ _
  have announced : blankImage.Announces cellRound := by
    intro newest isNewest
    rw [newer] at isNewest
    obtain rfl := isNewest.unique ⟨[], [], rfl, by simp, by simp⟩
    constructor
    · change blankFile.size ≤ baseBlockSize + (4096 : UInt32).toNat
      rw [size_blankFile]
      decide
    · rw [pages]
      intro page member
      obtain rfl := List.mem_singleton.mp member
      change baseBlockSize + (0 : UInt32).toNat + (cellBytes CellTag.security.mark).size ≤
        baseBlockSize + (4096 : UInt32).toNat
      decide
  have cell : (blankImage.afterRounds [cellRound]).HasCell 0 CellTag.security.mark := by
    have laid := HoldsAt.layPages_concat blankFile [] ⟨0, cellBytes CellTag.security.mark⟩
    rw [DirtyPage.start, Nat.add_comm] at laid
    rw [afterRounds_cons, afterRounds_nil]
    refine ⟨by decide, by decide, by decide, HoldsAt.replay_of_layPages ?_ (Nat.le_add_left _ _)⟩
    rwa [pages]
  obtain ⟨bounds, kept, -⟩ := readCell_bounds ofBytes_blankFile [cellRound]
  exact ⟨ofBytes_blankFile, ends, ⟨announced, trivial⟩, cell.readCell_eq,
    (bounds 0 _ cell.readCell_eq).2 (kept ends ⟨announced, trivial⟩)⟩

/-- A hive of one page of bins. Its root lists a cell that would stand behind these. -/
def slackWriter : HiveWriter :=
  let root := start.rootKey "ROOT"
  root.writer.hangSubkeys root.offset (.leaf .hashLeaf) [0x1000]

/-- The body of a key cell. -/
def slackBody : ByteArray := paddedBody (keyBody 0x0020 "Gone".toUTF8)

/-- The image of the hive, with the key cell behind its bins. -/
def slackImage : HiveImage where
  bytes := slackWriter.build ++ cellBytes slackBody
  baseBlock := .fieldsOf (slackWriter.build ++ cellBytes slackBody)

theorem binsSize_slackWriter : slackWriter.binsSize = 0x1000 := by
  have inside := offset_rootKey_le .start "ROOT"
  have size_le := size_hangSubkeys_le inside (.leaf .hashLeaf) [0x1000]
  have space : binHeaderSize + keySpace "ROOT" + (ListPlan.leaf .hashLeaf).space 1 = 136 := by
    decide
  rw [size_rootKey, size_start, List.length_singleton, space] at size_le
  exact binsSize_of_size_le (Nat.le_trans size_le (by decide))

/-- What is written into the base block stands in the longer file too. -/
theorem holdsAt_slackImage_of_mem {part : Nat × ByteArray}
    (member : part ∈ slackWriter.baseBlockParts) :
    HoldsAt slackImage.bytes part.1 part.2 :=
  (holdsAt_build_of_mem slackWriter member).append (cellBytes slackBody)

theorem ofBytes_slackImage : ofBytes slackImage.bytes = .ok slackImage := by
  rw [ofBytes_eq_ok_iff, BaseBlock.decode_eq_ok_iff]
  refine ⟨rfl, ?_, ?_, rfl⟩
  · change _ ≤ (slackWriter.build ++ cellBytes slackBody).size
    rw [ByteArray.size_append, size_build]
    omega
  · have member : (0, hiveSignature) ∈ slackWriter.baseBlockParts := by simp [baseBlockParts]
    exact (holdsAt_slackImage_of_mem member).extract_eq

theorem binsSize_slackImage : slackImage.baseBlock.binsSize = 0x1000 := by
  have member :
      (0x28, u32Bytes (UInt32.ofNat slackWriter.binsSize)) ∈ slackWriter.baseBlockParts := by
    simp [baseBlockParts]
  rw [binsSize_slackWriter] at member
  exact (holdsAt_slackImage_of_mem member).u32At_eq

theorem slackImage_hasCell : slackImage.HasCell 0x1000 slackBody where
  ne_null := by decide
  position_lt := by decide
  size_le := by
    rw [slackBody, size_paddedBody, size_keyBody, cellSpace]
    decide
  stands := by
    have stands := holdsAt_append slackWriter.build (cellBytes slackBody)
    rw [size_build, binsSize_slackWriter] at stands
    exact stands

/-- A key is read from a cell behind the bins. -/
theorem slack_is_read :
    ofBytes slackImage.bytes = .ok slackImage ∧ slackImage.baseBlock.binsSize = 0x1000 ∧
      slackImage.readCell 0x1000 = .ok slackBody ∧
      (∃ node, slackImage.decode 0x1000 = .ok (.key node) ∧ node.name = "Gone") ∧
      ¬ (0x1000 : UInt32).toNat + (4 + slackBody.size) ≤ slackImage.baseBlock.binsSize.toNat := by
  have read := slackImage_hasCell.readCell_eq
  refine ⟨ofBytes_slackImage, binsSize_slackImage, read, ?_, ?_⟩
  · obtain ⟨view, found, content⟩ := readCell_eq_ok_iff.mp read
    have inBody : (KeyRecord.new "Gone").InBody view.content := by
      rw [content]
      exact KeyRecord.inBody_new (by decide) "Gone"
    have name : IsKeyName "Gone" := by decide
    obtain ⟨node, decoded, describes⟩ := inBody.decode name.isStoredName 0x1000
    refine ⟨node, ?_, describes.name⟩
    rw [decode, found]
    exact decoded
  · rw [binsSize_slackImage]
    have inside : (0x1000 : UInt32).toNat = 0x1000 := rfl
    omega

end HiveImage

end RegistryHive
