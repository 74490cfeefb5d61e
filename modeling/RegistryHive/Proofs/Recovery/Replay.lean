import RegistryHive.Proofs.Recovery.AcceptedPages
import RegistryHive.Proofs.Recovery.HeaderUpdate

/-!
# What a replay does

The state that the entries of all logs lead to is known from the invariant of a
replay. Here the base block is brought up to date, and `replay_exact` says what
comes out: how long the image is, which byte stands at each position past the
base block, and what the report counts.
-/

namespace RegistryHive

namespace HiveImage

section RefreshHeader

variable (image : HiveImage) (binsSize : Option UInt32)

@[simp] theorem bytes_refreshHeader :
    (image.refreshHeader binsSize).bytes = storeBinsSize image.bytes binsSize := by
  simp only [refreshHeader]
  split <;> rfl

@[simp] theorem size_storeBinsSize (bytes : ByteArray) :
    (storeBinsSize bytes binsSize).size = bytes.size := by
  cases binsSize with
  | none => rfl
  | some size => exact size_withBinsSize size bytes

/-- Outside of the two fields of the base block the bytes stay as they are. -/
theorem byteAt_storeBinsSize (bytes : ByteArray) {position : Nat}
    (outside : ¬ InUpdatedField position) :
    byteAt (storeBinsSize bytes binsSize) position = byteAt bytes position := by
  cases binsSize with
  | none => rfl
  | some size => exact byteAt_withBinsSize size bytes outside

end RefreshHeader

theorem not_inUpdatedField_of_le {position : Nat} (bins : baseBlockSize ≤ position) :
    ¬ InUpdatedField position := by
  simp only [InUpdatedField, binsSizePosition, checksumPosition, baseBlockSize] at *
  omega

section Replay

variable (image : HiveImage) (logs : List TransactionLog) (limit : Nat)

/-- The state of a replay when all entries have been taken. -/
def replayed : ReplayState :=
  (logs.flatMap (·.entries)).foldl (ReplayState.takeEntry image.baseBlock.minSequence limit)
    (ReplayState.start image logs.length)

theorem replay_eq : image.replay logs limit = (image.replayed logs limit).finish := rfl

/-- The invariant of a replay, when all entries have been taken. -/
theorem replayed_spec :
    ReplayState.Replayed image logs.length image.baseBlock.minSequence limit
      (logs.flatMap (·.entries)) (image.replayed logs limit) :=
  ReplayState.replayed_entries _

theorem bytes_replayed :
    (image.replayed logs limit).image.bytes =
      layPages image.bytes (image.acceptedPages logs limit) :=
  (image.replayed_spec logs limit).bytes

theorem applied_replayed :
    (image.replayed logs limit).stats.applied = true ↔ image.acceptedPages logs limit ≠ [] := by
  have pages : (image.replayed logs limit).stats.pagesApplied =
      (image.acceptedPages logs limit).length := by
    rw [(image.replayed_spec logs limit).stats]
    rfl
  simp [ReplayStats.applied, pages]

/-- The report counts the logs, their entries, the newer ones of them and the accepted pages. -/
theorem stats_replay :
    (image.replay logs limit).2 =
      { logsRead := logs.length
        entriesSeen := (logs.map (·.entries.length)).sum
        entriesApplied := (image.newerEntries logs).length
        pagesApplied := (image.acceptedPages logs limit).length } := by
  have finished : (image.replay logs limit).2 = (image.replayed logs limit).stats := by
    rw [replay_eq, ReplayState.finish]
    split <;> rfl
  rw [finished, (image.replayed_spec logs limit).stats, List.length_flatMap]
  rfl

/-- A replay that copies no page leaves the image as it is. -/
theorem image_replay_of_nil (nothing : image.acceptedPages logs limit = []) :
    (image.replay logs limit).1 = image := by
  have bytes := image.bytes_replayed logs limit
  have baseBlock := (image.replayed_spec logs limit).baseBlock
  have notApplied : ¬ (image.replayed logs limit).stats.applied = true := by
    rw [applied_replayed]
    exact fun pages => pages nothing
  rw [nothing, layPages_nil] at bytes
  rw [replay_eq, ReplayState.finish, if_neg notApplied]
  exact congr (congrArg HiveImage.mk bytes) baseBlock

/-- A replay that copies pages lays them over the image and then brings the base block up to date
with the bins size of the newest entry that is newer than the hive. -/
theorem image_replay_of_ne_nil (pages : image.acceptedPages logs limit ≠ []) :
    ∃ newest, Newest (image.newerEntries logs) newest ∧
      (image.replay logs limit).1 =
        { image with bytes := layPages image.bytes (image.acceptedPages logs limit) }.refreshHeader
          (if 0 < newest.binsSize then some newest.binsSize else none) := by
  have spec := image.replayed_spec logs limit
  have applied := (image.applied_replayed logs limit).mpr pages
  cases newest_eq : (image.replayed logs limit).newest with
  | none =>
      -- Without a newer entry there would be no accepted page.
      have none_newer : image.newerEntries logs = [] := spec.newest_none newest_eq
      exact absurd (by rw [acceptedPages, none_newer]; rfl) pages
  | some newest =>
      have copied : (image.replayed logs limit).image =
          { image with bytes := layPages image.bytes (image.acceptedPages logs limit) } :=
        congr (congrArg HiveImage.mk spec.bytes) spec.baseBlock
      refine ⟨newest, spec.newest newest newest_eq, ?_⟩
      rw [replay_eq, ReplayState.finish, if_pos applied]
      simp only [copied, newest_eq, Option.map_some, Option.filter_some, decide_eq_true_eq]

/-- The length after a replay is that of the old image with the accepted pages laid over it. -/
theorem size_bytes_replay :
    (image.replay logs limit).1.bytes.size =
      (layPages image.bytes (image.acceptedPages logs limit)).size := by
  by_cases nothing : image.acceptedPages logs limit = []
  · rw [image_replay_of_nil image logs limit nothing, nothing, layPages_nil]
  · obtain ⟨newest, -, after⟩ := image_replay_of_ne_nil image logs limit nothing
    rw [after, bytes_refreshHeader, size_storeBinsSize]

/-- Outside of the two fields of the base block, the bytes after a replay are those of the old
image with the accepted pages laid over it. -/
theorem byteAt_replay {position : Nat} (outside : ¬ InUpdatedField position) :
    byteAt (image.replay logs limit).1.bytes position =
      byteAt (layPages image.bytes (image.acceptedPages logs limit)) position := by
  by_cases nothing : image.acceptedPages logs limit = []
  · rw [image_replay_of_nil image logs limit nothing, nothing, layPages_nil]
  · obtain ⟨newest, -, after⟩ := image_replay_of_ne_nil image logs limit nothing
    rw [after, bytes_refreshHeader, byteAt_storeBinsSize _ _ outside]

end Replay

/-- The meaning of a replay. The image becomes as long as the accepted page that reaches farthest,
never shorter than it was and never longer than the size limit allows. A byte past the base block
is that of the last accepted page that covers it; where no page does, it is the old byte, and zero
in a gap past the old end. The report counts the logs, their entries, the entries that are newer
than the hive and the accepted pages. -/
theorem replay_exact (image : HiveImage) (logs : List TransactionLog) (limit : Nat) :
    let after := (image.replay logs limit).1
    let pages := image.acceptedPages logs limit
    after.size = (pages.map DirtyPage.stop).foldl max image.size ∧
      image.size ≤ after.size ∧ after.size ≤ max image.size limit ∧
      (∀ position, baseBlockSize ≤ position →
        byteAt after.bytes position =
          match lastCovering? pages position with
          | some page => byteAt page.bytes (position - page.start)
          | none => if position < image.size then byteAt image.bytes position else 0) ∧
      (image.replay logs limit).2 =
        { logsRead := logs.length
          entriesSeen := (logs.map (·.entries.length)).sum
          entriesApplied := (image.newerEntries logs).length
          pagesApplied := pages.length } := by
  intro after pages
  have size_eq : after.size = (layPages image.bytes pages).size :=
    image.size_bytes_replay logs limit
  refine ⟨?_, ?_, ?_, ?_, image.stats_replay logs limit⟩
  · rw [size_eq]
    exact size_layPages image.bytes pages
  · rw [size_eq]
    exact size_le_size_layPages image.bytes pages
  · rw [size_eq]
    exact size_layPages_le (fun page => stop_le_of_mem_acceptedPages) image.bytes
  · intro position bins
    rw [image.byteAt_replay logs limit (not_inUpdatedField_of_le bins), byteAt_layPages]
    cases lastCovering? pages position with
    | some page => rfl
    | none =>
        by_cases inside : position < image.size
        · rw [if_pos inside]
        · rw [if_neg inside]
          exact byteAt_of_le (Nat.le_of_not_lt inside)

/-- A hive file with a base block in which all numbers are zero, and no bins. -/
def blankFile : ByteArray := hiveSignature ++ zeros 4092

@[simp] theorem size_blankFile : blankFile.size = baseBlockSize := by
  rw [blankFile, ByteArray.size_append, size_zeros]
  rfl

theorem extract_blankFile : blankFile.extract 0 4 = hiveSignature :=
  ((holdsAt_self hiveSignature).append (zeros 4092)).extract_eq

theorem byteAt_blankFile_of_le {position : Nat} (past : 4 ≤ position) :
    byteAt blankFile position = 0 := by
  have signature : hiveSignature.size = 4 := rfl
  rw [blankFile, byteAt_append, if_neg (by omega), byteAt_zeros]

theorem u32At_blankFile_of_le {position : Nat} (past : 4 ≤ position) :
    u32At blankFile position = 0 := by
  simp [u32At, byteAt_blankFile_of_le, past, Nat.le_add_right_of_le, word32]

/-- The image of a blank hive file. -/
def blankImage : HiveImage where
  bytes := blankFile
  baseBlock := .fieldsOf blankFile

theorem ofBytes_blankFile : ofBytes blankFile = .ok blankImage := by
  have block : BaseBlock.decode blankFile = .ok (.fieldsOf blankFile) :=
    BaseBlock.decode_eq_ok_iff.mpr ⟨Nat.le_of_eq size_blankFile.symm, extract_blankFile, rfl⟩
  rw [ofBytes, block]
  rfl

theorem minSequence_blankImage : blankImage.baseBlock.minSequence = 0 := by
  change min (u32At blankFile 0x04) (u32At blankFile 0x08) = 0
  rw [u32At_blankFile_of_le (by decide), u32At_blankFile_of_le (by decide)]
  rfl

/-- Every entry that is numbered is newer than a blank hive. -/
theorem newerEntries_blankImage (logs : List TransactionLog) :
    blankImage.newerEntries logs =
      (logs.flatMap (·.entries)).filter fun entry => 0 < entry.sequence := by
  rw [newerEntries, minSequence_blankImage]

/-- A log with one entry that writes one page. -/
def onePageLog (sequence : UInt32) (offset : UInt32) (bytes : List UInt8) : TransactionLog where
  path := none
  entries :=
    [{ size := 0, flags := 0, sequence := sequence, binsSize := 4096, pagesHash := 0
       headerHash := 0, pages := [⟨offset, bytes.toByteArray⟩] }]

/-- Two pages of different logs overlap, and the one that comes later is seen although its entry
is the older one. -/
theorem replay_exact_overlap :
    baseBlockSize ≤ 4098 ∧
      byteAt (blankImage.replay [onePageLog 2 0 [1, 1, 1], onePageLog 1 2 [7]] 8192).1.bytes
        4098 = 7 := by
  refine ⟨by decide, ?_⟩
  rw [(replay_exact blankImage _ 8192).2.2.2.1 4098 (by decide)]
  have pages : blankImage.acceptedPages [onePageLog 2 0 [1, 1, 1], onePageLog 1 2 [7]] 8192 =
      [⟨0, [1, 1, 1].toByteArray⟩, ⟨2, [7].toByteArray⟩] := by
    rw [acceptedPages, newerEntries_blankImage]
    rfl
  rw [pages]
  rfl

end HiveImage

end RegistryHive
