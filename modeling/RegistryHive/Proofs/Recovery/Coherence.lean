import RegistryHive.Hive.Traversal
import RegistryHive.Proofs.Recovery.Replay

/-!
# Coherence of recovered images

An image keeps its bytes and the base block that was read from them side by
side. A replay writes pages without reading the base block again and then updates
two of its fields, so it has to keep the two copies in step: `Coherent` says that
reading the bytes gives the very image. `Coherent.replay` keeps it through one
replay and `Coherent.afterRounds` through any sequence of them, and each round
leaves the bytes of the base block alone outside the two fields.
-/

namespace RegistryHive

namespace HiveImage

/-- Reading the bytes of the image gives the image, its base block included. -/
def Coherent (image : HiveImage) : Prop := ofBytes image.bytes = .ok image

theorem ofBytes_eq_ok_iff {bytes : ByteArray} {image : HiveImage} :
    ofBytes bytes = .ok image ↔
      image.bytes = bytes ∧ BaseBlock.decode bytes = .ok image.baseBlock := by
  obtain ⟨content, baseBlock⟩ := image
  rw [ofBytes]
  cases BaseBlock.decode bytes with
  | error error => simp [Except.map]
  | ok block => simp [Except.map, eq_comm]

theorem coherent_iff {image : HiveImage} :
    image.Coherent ↔ BaseBlock.decode image.bytes = .ok image.baseBlock := by
  simp [Coherent, ofBytes_eq_ok_iff]

/-- An image that was read from a file is coherent. -/
theorem coherent_of_ofBytes {file : ByteArray} {image : HiveImage}
    (loaded : ofBytes file = .ok image) : image.Coherent := by
  obtain ⟨bytes, block⟩ := ofBytes_eq_ok_iff.mp loaded
  rw [coherent_iff, bytes]
  exact block

theorem Coherent.baseBlockSize_le {image : HiveImage} (h : image.Coherent) :
    baseBlockSize ≤ image.bytes.size :=
  (BaseBlock.decode_eq_ok_iff.mp (coherent_iff.mp h)).1

theorem Coherent.baseBlock_eq {image : HiveImage} (h : image.Coherent) :
    image.baseBlock = BaseBlock.fieldsOf image.bytes :=
  (BaseBlock.decode_eq_ok_iff.mp (coherent_iff.mp h)).2.2.symm

/-- Bytes that are at least as long and agree outside the two updated fields of the base block
can be read like the image. -/
theorem Coherent.decode_ok {image : HiveImage} (h : image.Coherent) {bytes : ByteArray}
    (size : image.bytes.size ≤ bytes.size)
    (same : ∀ position, position < baseBlockSize → ¬ InUpdatedField position →
      byteAt bytes position = byteAt image.bytes position) :
    BaseBlock.decode bytes = .ok (BaseBlock.fieldsOf bytes) := by
  obtain ⟨full, signature, -⟩ := BaseBlock.decode_eq_ok_iff.mp (coherent_iff.mp h)
  refine BaseBlock.decode_eq_ok_iff.mpr ⟨Nat.le_trans full size, ?_, rfl⟩
  simp only [baseBlockSize] at full same
  rw [← signature]
  apply bytes_ext (by simp only [ByteArray.size_extract]; omega)
  intro i hi
  rw [ByteArray.size_extract] at hi
  rw [byteAt_extract, byteAt_extract, if_pos (by omega), if_pos (by omega)]
  refine same (0 + i) (by omega) ?_
  simp only [InUpdatedField, binsSizePosition, checksumPosition]
  omega

section Replay

variable {image : HiveImage} (logs : List TransactionLog) (limit : Nat)

theorem size_bytes_le_replay : image.bytes.size ≤ (image.replay logs limit).1.bytes.size := by
  rw [size_bytes_replay]
  exact size_le_size_layPages _ _

/-- A replay changes the base block at most in the two fields that it updates. -/
theorem byteAt_replay_header {position : Nat} (header : position < baseBlockSize)
    (outside : ¬ InUpdatedField position) :
    byteAt (image.replay logs limit).1.bytes position = byteAt image.bytes position := by
  rw [image.byteAt_replay logs limit outside, byteAt_layPages_of_lt _ _ header]

/-- A replay keeps the base block in step with the bytes. -/
theorem Coherent.replay (h : image.Coherent) : (image.replay logs limit).1.Coherent := by
  by_cases nothing : image.acceptedPages logs limit = []
  · rwa [image.image_replay_of_nil logs limit nothing]
  · obtain ⟨newest, -, after⟩ := image.image_replay_of_ne_nil logs limit nothing
    have readable : BaseBlock.decode (image.replay logs limit).1.bytes =
        .ok (BaseBlock.fieldsOf (image.replay logs limit).1.bytes) :=
      h.decode_ok (size_bytes_le_replay logs limit)
        fun position => byteAt_replay_header logs limit
    rw [coherent_iff]
    rw [after, bytes_refreshHeader] at readable ⊢
    simp only [refreshHeader, readable]

/-- A replay that copies pages takes over the bins size of the newest entry, with a checksum that
belongs to it; without a bins size it leaves the base block alone. -/
theorem Coherent.header_replay (h : image.Coherent)
    (pages : image.acceptedPages logs limit ≠ []) :
    ∃ newest, Newest (image.newerEntries logs) newest ∧
      (0 < newest.binsSize →
        (image.replay logs limit).1.baseBlock.binsSize = newest.binsSize ∧
          (image.replay logs limit).1.baseBlock.checksumValid = true) ∧
      (newest.binsSize = 0 → ∀ position, position < baseBlockSize →
        byteAt (image.replay logs limit).1.bytes position = byteAt image.bytes position) := by
  obtain ⟨newest, isNewest, after⟩ := image.image_replay_of_ne_nil logs limit pages
  have full := h.baseBlockSize_le
  refine ⟨newest, isNewest, fun positive => ?_, fun zero position header => ?_⟩
  · rw [(h.replay logs limit).baseBlock_eq, after, bytes_refreshHeader, if_pos positive,
      storeBinsSize, fieldsOf_withBinsSize]
    · exact ⟨rfl, rfl⟩
    · exact Nat.le_trans full (size_le_size_layPages _ _)
  · have none_stored : ¬ 0 < newest.binsSize := by
      rw [zero]
      exact UInt32.lt_irrefl 0
    rw [after, bytes_refreshHeader, if_neg none_stored, storeBinsSize,
      byteAt_layPages_of_lt _ _ header]

end Replay

/-- One round of recovery: the logs that are replayed, and the size limit. -/
structure Round where
  logs : List TransactionLog
  limit : Nat

/-- The image after rounds of recovery, one after the other. -/
def afterRounds (image : HiveImage) (rounds : List Round) : HiveImage :=
  rounds.foldl (fun image round => (image.replay round.logs round.limit).1) image

theorem afterRounds_nil (image : HiveImage) : image.afterRounds [] = image := rfl

theorem afterRounds_cons (image : HiveImage) (round : Round) (rounds : List Round) :
    image.afterRounds (round :: rounds) =
      (image.replay round.logs round.limit).1.afterRounds rounds := rfl

theorem Coherent.afterRounds {image : HiveImage} (h : image.Coherent) (rounds : List Round) :
    (image.afterRounds rounds).Coherent := by
  induction rounds generalizing image with
  | nil => exact h
  | cons round rounds ih => exact ih (h.replay round.logs round.limit)

/-- Rounds of recovery change the base block at most in the two fields that they update. -/
theorem byteAt_afterRounds_header (image : HiveImage) (rounds : List Round) {position : Nat}
    (header : position < baseBlockSize) (outside : ¬ InUpdatedField position) :
    byteAt (image.afterRounds rounds).bytes position = byteAt image.bytes position := by
  induction rounds generalizing image with
  | nil => rfl
  | cons round rounds ih =>
      rw [afterRounds_cons, ih, byteAt_replay_header round.logs round.limit header outside]

/-- Rounds of recovery keep the sequence numbers and the root offset. -/
theorem Coherent.baseBlock_afterRounds {image : HiveImage} (h : image.Coherent)
    (rounds : List Round) :
    (image.afterRounds rounds).baseBlock.primarySequence = image.baseBlock.primarySequence ∧
      (image.afterRounds rounds).baseBlock.secondarySequence =
        image.baseBlock.secondarySequence ∧
      (image.afterRounds rounds).baseBlock.rootOffset = image.baseBlock.rootOffset := by
  have word (start : Nat) (header : start + 4 ≤ binsSizePosition) :
      u32At (image.afterRounds rounds).bytes start = u32At image.bytes start := by
    refine u32At_congr fun i hi => image.byteAt_afterRounds_header rounds ?_ ?_
    · simp only [binsSizePosition, baseBlockSize] at *
      omega
    · simp only [InUpdatedField, binsSizePosition, checksumPosition] at *
      omega
  rw [(h.afterRounds rounds).baseBlock_eq, h.baseBlock_eq]
  exact ⟨word 0x04 (by decide), word 0x08 (by decide), word 0x24 (by decide)⟩

/-- A file that was loaded and then recovered in any number of rounds.

Reading its bytes again gives the very same image, so every lookup on the recovered hive answers
as on a hive loaded afresh. The base block differs from that of the file at most in the bins size
and the checksum; in particular the sequence numbers and the root offset are those of the file.
One more round that copies no page changes nothing; one that copies pages takes over the bins size
of the newest entry that is newer than the hive, with a checksum that belongs to it, or leaves the
base block alone when that entry has none. -/
theorem recovered_coherent {file : ByteArray} {image : HiveImage}
    (loaded : ofBytes file = .ok image) (rounds : List Round) :
    let last := image.afterRounds rounds
    (ofBytes last.bytes = .ok last ∧ BaseBlock.decode last.bytes = .ok last.baseBlock ∧
      ∃ fresh, Hive.ofBytes last.bytes = .ok fresh ∧ ∀ replay,
        let recovered : Hive := { image := last, replay := replay }
        fresh.rootKey? = recovered.rootKey? ∧ (∀ path, fresh.key? path = recovered.key? path) ∧
          fresh.keys = recovered.keys) ∧
    ((∀ position, position < baseBlockSize → ¬ InUpdatedField position →
        byteAt last.bytes position = byteAt file position) ∧
      last.baseBlock.primarySequence = image.baseBlock.primarySequence ∧
      last.baseBlock.secondarySequence = image.baseBlock.secondarySequence ∧
      last.baseBlock.rootOffset = image.baseBlock.rootOffset) ∧
    ∀ round : Round,
      let next := last.replay round.logs round.limit
      (next.2.pagesApplied = 0 →
        next.1.bytes = last.bytes ∧ next.1.baseBlock = last.baseBlock) ∧
      (0 < next.2.pagesApplied →
        ∃ newest, Newest (last.newerEntries round.logs) newest ∧
          (0 < newest.binsSize → next.1.baseBlock.binsSize = newest.binsSize ∧
            next.1.baseBlock.checksumValid = true) ∧
          (newest.binsSize = 0 → ∀ position, position < baseBlockSize →
            byteAt next.1.bytes position = byteAt last.bytes position)) := by
  intro last
  have first : image.Coherent := coherent_of_ofBytes loaded
  have bytes : image.bytes = file := (ofBytes_eq_ok_iff.mp loaded).1
  have coherent : last.Coherent := first.afterRounds rounds
  refine ⟨⟨coherent, coherent_iff.mp coherent, ?_⟩, ⟨?_, first.baseBlock_afterRounds rounds⟩,
    fun round => ?_⟩
  · refine ⟨{ image := last, replay := .zero }, ?_, fun _ => ⟨rfl, fun _ => rfl, rfl⟩⟩
    rw [Hive.ofBytes, coherent]
    rfl
  · intro position header outside
    rw [← bytes]
    exact image.byteAt_afterRounds_header rounds header outside
  · intro next
    have counted : next.2.pagesApplied = (last.acceptedPages round.logs round.limit).length :=
      congrArg ReplayStats.pagesApplied (last.stats_replay round.logs round.limit)
    rw [counted]
    constructor
    · intro nothing
      have unchanged : next.1 = last :=
        last.image_replay_of_nil round.logs round.limit (List.eq_nil_of_length_eq_zero nothing)
      rw [unchanged]
      exact ⟨rfl, rfl⟩
    · intro pages
      exact coherent.header_replay round.logs round.limit (List.ne_nil_of_length_pos pages)

/-- A round that writes one page at the beginning of the bins. -/
def onePageRound : Round where
  logs := [onePageLog 1 0 [7]]
  limit := 8192

theorem newerEntries_onePageRound :
    blankImage.newerEntries onePageRound.logs = (onePageLog 1 0 [7]).entries := by
  rw [newerEntries_blankImage]
  rfl

theorem pagesApplied_onePageRound :
    (blankImage.replay onePageRound.logs onePageRound.limit).2.pagesApplied = 1 := by
  rw [stats_replay, acceptedPages, newerEntries_onePageRound]
  rfl

/-- A blank hive file into which one page was written can be read back. Its base block has taken
over the bins size of the log entry, with a checksum that belongs to it. -/
theorem recovered_coherent_blank :
    ofBytes blankFile = .ok blankImage ∧
      let recovered := blankImage.afterRounds [onePageRound]
      ofBytes recovered.bytes = .ok recovered ∧
        (blankImage.replay onePageRound.logs onePageRound.limit).2.pagesApplied = 1 ∧
        recovered.baseBlock.binsSize = 4096 ∧ recovered.baseBlock.checksumValid = true := by
  refine ⟨ofBytes_blankFile, (recovered_coherent ofBytes_blankFile [onePageRound]).1.1,
    pagesApplied_onePageRound, ?_⟩
  have positive :
      0 < (blankImage.replay onePageRound.logs onePageRound.limit).2.pagesApplied := by
    rw [pagesApplied_onePageRound]
    exact Nat.one_pos
  -- There is no round before this one, and its log has one entry.
  obtain ⟨newest, isNewest, stored, -⟩ :=
    ((recovered_coherent ofBytes_blankFile []).2.2 onePageRound).2 positive
  rw [afterRounds_nil] at isNewest stored
  rw [newerEntries_onePageRound] at isNewest
  obtain rfl := isNewest.unique ⟨[], [], rfl, by simp, by simp⟩
  rw [afterRounds_cons, afterRounds_nil]
  exact stored (by decide)

end HiveImage

end RegistryHive
