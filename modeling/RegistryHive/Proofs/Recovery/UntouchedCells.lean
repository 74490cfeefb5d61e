import RegistryHive.Proofs.Cell.Standing
import RegistryHive.Proofs.Recovery.Replay

/-!
# Cells that a replay leaves alone

A replay lays pages over an image and writes two fields of the base block. What stands behind the
base block and is not overlapped by an accepted page stays where it is (`HoldsAt.replay`), so a cell
there can still be read, size field and body (`HiveImage.HasCell.replay`). That the image grows does
not matter, since a cell only has to end inside it. A page may end where the cell begins and begin
where it ends.
-/

namespace RegistryHive

namespace DirtyPage

/-- The page covers a position of a stretch of the image. -/
def Overlaps (page : DirtyPage) (first last : Nat) : Prop :=
  ∃ position, page.Covers position ∧ first ≤ position ∧ position < last

variable {page : DirtyPage} {first last : Nat}

theorem not_overlaps_of_stop_le (before : page.stop ≤ first) : ¬ page.Overlaps first last := by
  rintro ⟨position, ⟨-, inPage⟩, inside, -⟩
  exact absurd (Nat.lt_of_lt_of_le inPage before) (Nat.not_lt.mpr inside)

theorem not_overlaps_of_le_start (behind : last ≤ page.start) : ¬ page.Overlaps first last := by
  rintro ⟨position, ⟨inPage, -⟩, -, inside⟩
  exact absurd (Nat.lt_of_lt_of_le inside behind) (Nat.not_lt.mpr inPage)

end DirtyPage

namespace HoldsAt

variable {part : ByteArray} {start : Nat}

/-- Pages that do not overlap a part leave it in its place. -/
theorem layPages {bytes : ByteArray} {pages : List DirtyPage} (stands : HoldsAt bytes start part)
    (untouched : ∀ page ∈ pages, ¬ page.Overlaps start (start + part.size)) :
    HoldsAt (layPages bytes pages) start part where
  inside := Nat.le_trans stands.inside (size_le_size_layPages bytes pages)
  byteAt_eq i inside := by
    rw [byteAt_layPages_of_uncovered, stands.byteAt_eq i inside]
    intro page member covers
    exact untouched page member ⟨start + i, covers, by omega, by omega⟩

/-- The page that is laid last stands in its place. -/
theorem layPages_concat (bytes : ByteArray) (pages : List DirtyPage) (page : DirtyPage) :
    HoldsAt (RegistryHive.layPages bytes (pages ++ [page])) page.start page.bytes := by
  rw [layPages_append]
  exact holdsAt_overwrite _ page.start page.bytes

/-- What stands behind the base block when the accepted pages have been laid stands there after the
replay. -/
theorem replay_of_layPages {image : HiveImage} {logs : List TransactionLog} {limit : Nat}
    (stands :
      HoldsAt (RegistryHive.layPages image.bytes (image.acceptedPages logs limit)) start part)
    (bins : baseBlockSize ≤ start) : HoldsAt (image.replay logs limit).1.bytes start part where
  inside := by
    rw [image.size_bytes_replay logs limit]
    exact stands.inside
  byteAt_eq i inside := by
    have outside : ¬ InUpdatedField (start + i) := HiveImage.not_inUpdatedField_of_le (by omega)
    rw [image.byteAt_replay logs limit outside]
    exact stands.byteAt_eq i inside

/-- A replay leaves a part behind the base block in its place if no accepted page overlaps it. -/
theorem replay {image : HiveImage} {logs : List TransactionLog} {limit : Nat}
    (stands : HoldsAt image.bytes start part) (bins : baseBlockSize ≤ start)
    (untouched : ∀ page ∈ image.acceptedPages logs limit,
      ¬ page.Overlaps start (start + part.size)) :
    HoldsAt (image.replay logs limit).1.bytes start part :=
  (stands.layPages untouched).replay_of_layPages bins

end HoldsAt

namespace HiveImage

open HiveWriter

variable {image : HiveImage} {offset : UInt32} {body : ByteArray}

/-- A cell that no accepted page overlaps stands in its place after a replay. -/
theorem HasCell.replay (cell : image.HasCell offset body) {logs : List TransactionLog} {limit : Nat}
    (untouched : ∀ page ∈ image.acceptedPages logs limit,
      ¬ page.Overlaps (offset.toNat + baseBlockSize)
        (offset.toNat + baseBlockSize + (4 + body.size))) :
    (image.replay logs limit).1.HasCell offset body where
  ne_null := cell.ne_null
  position_lt := cell.position_lt
  size_le := cell.size_le
  stands := by
    rw [← size_cellBytes body] at untouched
    exact cell.stands.replay (Nat.le_add_left _ _) untouched

/-- A cell that could be read before a replay, and that no accepted page overlaps, is read again
after it with the same bytes, and it holds the same. -/
theorem readCell_replay_of_untouched {logs : List TransactionLog} {limit : Nat}
    (read : image.readCell offset = .ok body)
    (untouched : ∀ page ∈ image.acceptedPages logs limit,
      ¬ page.Overlaps (baseBlockSize + offset.toNat)
        (baseBlockSize + offset.toNat + (4 + body.size))) :
    let after := (image.replay logs limit).1
    after.readCell offset = .ok body ∧ after.decode offset = image.decode offset := by
  intro after
  rw [Nat.add_comm baseBlockSize] at untouched
  have again : after.readCell offset = .ok body :=
    readCell_eq_ok_iff_hasCell.mpr ((readCell_eq_ok_iff_hasCell.mp read).replay untouched)
  exact ⟨again, decode_eq_of_readCell_eq (again.trans read.symm)⟩

/-- A hive with a single cell at offset 8, which ends the file. -/
def oneCellImage (body : ByteArray) : HiveImage :=
  { blankImage with bytes := blankFile ++ zeros 8 ++ cellBytes body }

theorem oneCellImage_hasCell {body : ByteArray} (size_le : 4 + body.size ≤ 2 ^ 31) :
    (oneCellImage body).HasCell 8 body where
  ne_null := by decide
  position_lt := by decide
  size_le := size_le
  stands := by
    have stands := holdsAt_append (blankFile ++ zeros 8) (cellBytes body)
    rw [ByteArray.size_append, size_blankFile, size_zeros] at stands
    exact stands

theorem size_oneCellImage (body : ByteArray) :
    (oneCellImage body).size = baseBlockSize + 12 + body.size := by
  change (blankFile ++ zeros 8 ++ cellBytes body).size = _
  rw [ByteArray.size_append, ByteArray.size_append, size_blankFile, size_zeros, size_cellBytes]
  omega

theorem minSequence_oneCellImage (body : ByteArray) :
    (oneCellImage body).baseBlock.minSequence = 0 :=
  minSequence_blankImage

/-- One page ends where the cell begins, another one begins where it ends, which makes the image
longer. -/
theorem readCell_replay_of_untouched_between :
    let image := oneCellImage CellTag.security.mark
    let logs := [onePageLog 1 0 [1, 2, 3, 4, 5, 6, 7, 8], onePageLog 2 14 [9, 9]]
    image.acceptedPages logs 8192 =
      [⟨0, [1, 2, 3, 4, 5, 6, 7, 8].toByteArray⟩, ⟨14, [9, 9].toByteArray⟩] ∧
    image.size < (image.replay logs 8192).1.size ∧
    image.readCell 8 = .ok CellTag.security.mark ∧
    (image.replay logs 8192).1.readCell 8 = .ok CellTag.security.mark ∧
    (image.replay logs 8192).1.decode 8 = image.decode 8 := by
  intro image logs
  have pages : image.acceptedPages logs 8192 =
      [⟨0, [1, 2, 3, 4, 5, 6, 7, 8].toByteArray⟩, ⟨14, [9, 9].toByteArray⟩] := by
    have sequence : image.baseBlock.minSequence = 0 := minSequence_oneCellImage _
    rw [acceptedPages, newerEntries, sequence]
    rfl
  have read : image.readCell 8 = .ok CellTag.security.mark :=
    (oneCellImage_hasCell (by decide)).readCell_eq
  have grown : image.size < (image.replay logs 8192).1.size := by
    have size : image.size = 4110 := size_oneCellImage CellTag.security.mark
    rw [(replay_exact image logs 8192).1, pages, size]
    decide
  refine ⟨pages, grown, read, readCell_replay_of_untouched read ?_⟩
  rw [pages]
  intro page member
  rcases List.mem_cons.mp member with rfl | last
  · exact DirtyPage.not_overlaps_of_stop_le (by decide)
  · obtain rfl := List.mem_singleton.mp last
    exact DirtyPage.not_overlaps_of_le_start (by decide)

end HiveImage

end RegistryHive
