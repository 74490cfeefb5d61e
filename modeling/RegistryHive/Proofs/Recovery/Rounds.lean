import RegistryHive.Proofs.Recovery.Coherence

/-!
# Replaying again and in rounds

A replay changes the image that it starts from, and it updates the base block, in
which the next replay looks for the sequence numbers. On a coherent image, which
is every image that was loaded and perhaps recovered, these numbers stay what
they were. So the pages that a later replay accepts are those that it would have
accepted before, whatever the image has become in the meantime.

`replay_replay` says that a second replay of the same logs changes nothing, and
`replay_append` that logs which are replayed in two rounds leave the same bins as
when they are replayed at once. The base block need not be the same then: each
round takes over the bins size of its own newest entry.
-/

namespace RegistryHive

namespace ReplayStats

/-- What two rounds report together. -/
instance : Add ReplayStats where
  add stats later :=
    { logsRead := stats.logsRead + later.logsRead
      entriesSeen := stats.entriesSeen + later.entriesSeen
      entriesApplied := stats.entriesApplied + later.entriesApplied
      pagesApplied := stats.pagesApplied + later.pagesApplied }

end ReplayStats

namespace HiveImage

section StoreBinsSize

variable {bytes : ByteArray} (binsSize : Option UInt32)

/-- Bringing the base block up to date once more changes nothing. -/
theorem storeBinsSize_storeBinsSize (full : baseBlockSize ≤ bytes.size) :
    storeBinsSize (storeBinsSize bytes binsSize) binsSize = storeBinsSize bytes binsSize := by
  cases binsSize with
  | none => rfl
  | some size => exact withBinsSize_withBinsSize size full

/-- Pages can be laid before or after the base block is brought up to date. -/
theorem layPages_storeBinsSize (full : baseBlockSize ≤ bytes.size) (pages : List DirtyPage) :
    layPages (storeBinsSize bytes binsSize) pages =
      storeBinsSize (layPages bytes pages) binsSize := by
  cases binsSize with
  | none => rfl
  | some size =>
      simp only [storeBinsSize]
      induction pages generalizing bytes with
      | nil => rfl
      | cons page rest ih =>
          have grown : baseBlockSize ≤ (overwrite bytes page.start page.bytes).size := by
            rw [size_overwrite]
            exact Nat.le_trans full (Nat.le_max_left _ _)
          change layPages (overwrite (withBinsSize bytes size) page.start page.bytes) rest =
            withBinsSize (layPages (overwrite bytes page.start page.bytes) rest) size
          rw [← withBinsSize_overwrite size full page.baseBlockSize_le_start, ih grown]

end StoreBinsSize

/-- A coherent image is known by its bytes. -/
theorem Coherent.eq_of_bytes {image other : HiveImage} (h : image.Coherent) (h' : other.Coherent)
    (bytes : image.bytes = other.bytes) : image = other := by
  have same : ofBytes image.bytes = .ok other := by
    rw [bytes]
    exact h'
  exact Except.ok.inj (h.symm.trans same)

section Selection

variable (image : HiveImage) (logs later : List TransactionLog) (limit : Nat)

theorem newerEntries_append :
    image.newerEntries (logs ++ later) = image.newerEntries logs ++ image.newerEntries later := by
  rw [newerEntries, List.flatMap_append, List.filter_append]
  rfl

theorem acceptedPages_append :
    image.acceptedPages (logs ++ later) limit =
      image.acceptedPages logs limit ++ image.acceptedPages later limit := by
  rw [acceptedPages, newerEntries_append, List.flatMap_append]
  rfl

variable {image}

/-- Which entries are newer than the hive does not depend on what was replayed before. -/
theorem Coherent.newerEntries_replay (h : image.Coherent) :
    (image.replay logs limit).1.newerEntries later = image.newerEntries later := by
  obtain ⟨primary, secondary, -⟩ := h.baseBlock_afterRounds [{ logs := logs, limit := limit }]
  have minSequence :
      (image.replay logs limit).1.baseBlock.minSequence = image.baseBlock.minSequence :=
    congrArg₂ min primary secondary
  rw [newerEntries, minSequence]
  rfl

/-- Which pages are accepted does not depend on what was replayed before. -/
theorem Coherent.acceptedPages_replay (h : image.Coherent) :
    (image.replay logs limit).1.acceptedPages later limit = image.acceptedPages later limit := by
  rw [acceptedPages, h.newerEntries_replay]
  rfl

end Selection

/-- A second replay of the same logs under the same limit changes nothing: the bytes, their number
and the base block stay what the first replay made of them, and the report is the same. -/
theorem replay_replay {image : HiveImage} (h : image.Coherent) (logs : List TransactionLog)
    (limit : Nat) : (image.replay logs limit).1.replay logs limit = image.replay logs limit := by
  have report : ((image.replay logs limit).1.replay logs limit).2 =
      (image.replay logs limit).2 := by
    rw [stats_replay, stats_replay, h.newerEntries_replay, h.acceptedPages_replay]
  refine Prod.ext ?_ report
  by_cases nothing : image.acceptedPages logs limit = []
  · have unchanged := image.image_replay_of_nil logs limit nothing
    rw [unchanged, unchanged]
  · have first := h.replay logs limit
    obtain ⟨newest, isNewest, once⟩ := image.image_replay_of_ne_nil logs limit nothing
    obtain ⟨newest', isNewest', again⟩ :=
      (image.replay logs limit).1.image_replay_of_ne_nil logs limit
        (by rwa [h.acceptedPages_replay])
    rw [h.newerEntries_replay] at isNewest'
    obtain rfl := isNewest.unique isNewest'
    apply (first.replay logs limit).eq_of_bytes first
    -- The pages stand there already, and so do the bins size and its checksum.
    have full : baseBlockSize ≤ (layPages image.bytes (image.acceptedPages logs limit)).size :=
      Nat.le_trans h.baseBlockSize_le (size_le_size_layPages _ _)
    rw [again, h.acceptedPages_replay, once]
    simp only [bytes_refreshHeader]
    rw [layPages_storeBinsSize _ full, layPages_layPages, storeBinsSize_storeBinsSize _ full]

/-- Two overlapping pages, the older one in the later log, are replayed twice. -/
theorem replay_replay_overlap :
    blankImage.Coherent ∧
      let logs := [onePageLog 2 0 [1, 1, 1], onePageLog 1 2 [7]]
      (blankImage.replay logs 8192).1.replay logs 8192 = blankImage.replay logs 8192 :=
  ⟨coherent_of_ofBytes ofBytes_blankFile, replay_replay (coherent_of_ofBytes ofBytes_blankFile) _ _⟩

/-- Replaying logs in two rounds agrees with replaying them at once: the image is as long, every
byte past the base block is the same, and the reports of the rounds add up to the single report. -/
theorem replay_append {image : HiveImage} (h : image.Coherent) (logs later : List TransactionLog)
    (limit : Nat) :
    let first := image.replay logs limit
    let second := first.1.replay later limit
    let once := image.replay (logs ++ later) limit
    second.1.size = once.1.size ∧
      (∀ position, baseBlockSize ≤ position →
        byteAt second.1.bytes position = byteAt once.1.bytes position) ∧
      first.2 + second.2 = once.2 := by
  intro first second once
  have accepted : first.1.acceptedPages later limit = image.acceptedPages later limit :=
    h.acceptedPages_replay logs later limit
  refine ⟨?_, ?_, ?_⟩
  · calc
      second.1.bytes.size
          = (layPages first.1.bytes (image.acceptedPages later limit)).size := by
            rw [← accepted]
            exact first.1.size_bytes_replay later limit
      _ = (layPages (layPages image.bytes (image.acceptedPages logs limit))
            (image.acceptedPages later limit)).size := by
            rw [size_layPages, image.size_bytes_replay, ← size_layPages]
      _ = once.1.bytes.size := by
            rw [← layPages_append, ← acceptedPages_append, ← size_bytes_replay]
  · intro position bins
    have outside := not_inUpdatedField_of_le bins
    rw [first.1.byteAt_replay later limit outside, accepted, byteAt_layPages,
      image.byteAt_replay logs limit outside, ← byteAt_layPages, ← layPages_append,
      ← acceptedPages_append, ← image.byteAt_replay _ limit outside]
  · rw [image.stats_replay, first.1.stats_replay, image.stats_replay, accepted,
      h.newerEntries_replay, newerEntries_append, acceptedPages_append]
    simp only [List.length_append, List.map_append, List.sum_append]
    rfl

/-- Two logs that overlap are replayed one after the other on a blank hive. -/
theorem replay_append_overlap :
    blankImage.Coherent ∧
      let first := blankImage.replay [onePageLog 2 0 [1, 1, 1]] 8192
      let second := first.1.replay [onePageLog 1 2 [7]] 8192
      let once := blankImage.replay [onePageLog 2 0 [1, 1, 1], onePageLog 1 2 [7]] 8192
      byteAt second.1.bytes 4098 = byteAt once.1.bytes 4098 ∧ first.2 + second.2 = once.2 := by
  have coherent := coherent_of_ofBytes ofBytes_blankFile
  obtain ⟨-, bytes, report⟩ := replay_append coherent [onePageLog 2 0 [1, 1, 1]]
    [onePageLog 1 2 [7]] 8192
  exact ⟨coherent, bytes 4098 (by decide), report⟩

end HiveImage

end RegistryHive
