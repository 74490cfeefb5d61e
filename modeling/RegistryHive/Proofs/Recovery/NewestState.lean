import RegistryHive.Proofs.Recovery.Replay

/-!
# Whose bytes a replay leaves

A replay asks for the sequence number of an entry only to tell whether the entry
is newer than the hive. From then on the order of the logs and of their entries
decides: where several entries write a position, the last of them leaves its byte
there. `writersOf` lists these entries, and `exists_last_writer` says whose byte
is left.

When the writers of a position come in the order of their sequence numbers, the
last one is the newest one, by the rule that also chooses the bins size. When a
later log holds an older entry they do not, and then an older state stays.
-/

namespace RegistryHive

/-- The last one of entries that come in the order of their sequence numbers is the newest. -/
theorem Newest.of_ordered {earlier : List LogEntry} {last : LogEntry}
    (ordered : (earlier ++ [last]).Pairwise fun a b => a.sequence ≤ b.sequence) :
    Newest (earlier ++ [last]) last := by
  have before := (List.pairwise_append.mp ordered).2.2
  refine ⟨earlier, [], rfl, ?_, ?_⟩
  · intro entry member
    exact before entry member last List.mem_cons_self
  · intro entry member
    exact absurd member List.not_mem_nil

namespace LogEntry

/-- The entry has a page inside the size limit that covers the position. -/
def Writes (limit position : Nat) (entry : LogEntry) : Prop :=
  ∃ page ∈ entry.acceptedPages limit, page.Covers position

instance (limit position : Nat) (entry : LogEntry) : Decidable (entry.Writes limit position) :=
  inferInstanceAs (Decidable (∃ page ∈ _, _))

/-- Among the pages of several entries, the last one that covers a position is found in the last
entry that writes it. -/
theorem lastCovering?_acceptedPages (limit position : Nat) (entries : List LogEntry) :
    lastCovering? (entries.flatMap (acceptedPages limit)) position =
      (entries.filter fun entry => entry.Writes limit position).getLast?.bind fun entry =>
        lastCovering? (entry.acceptedPages limit) position := by
  induction entries using List.reverseRecOn with
  | nil => rfl
  | append_singleton entries entry ih =>
      rw [List.flatMap_append, List.flatMap_singleton, lastCovering?_append, List.filter_append,
        List.getLast?_append]
      by_cases writes : entry.Writes limit position
      · have covering : lastCovering? (entry.acceptedPages limit) position ≠ none := by
          intro none_covers
          obtain ⟨page, accepted, covers⟩ := writes
          exact lastCovering?_eq_none_iff.mp none_covers page accepted covers
        obtain ⟨page, found⟩ := Option.ne_none_iff_exists'.mp covering
        simp [writes, found]
      · have uncovered : lastCovering? (entry.acceptedPages limit) position = none := by
          refine lastCovering?_eq_none_iff.mpr ?_
          intro page accepted covers
          exact writes ⟨page, accepted, covers⟩
        simp [writes, uncovered, ih]

end LogEntry

namespace HiveImage

section Writers

variable (image : HiveImage) (logs : List TransactionLog) (limit position : Nat)

/-- The entries newer than the hive that write a position, in order. -/
def writersOf : List LogEntry :=
  (image.newerEntries logs).filter fun entry => entry.Writes limit position

variable {image logs limit position}

/-- A position that is covered by an accepted page has a writer. -/
theorem writersOf_ne_nil
    (covered : ∃ page ∈ image.acceptedPages logs limit, page.Covers position) :
    image.writersOf logs limit position ≠ [] := by
  obtain ⟨page, accepted, covers⟩ := covered
  obtain ⟨entry, newer, ofEntry⟩ := List.mem_flatMap.mp accepted
  apply List.ne_nil_of_mem (a := entry)
  exact List.mem_filter.mpr ⟨newer, decide_eq_true ⟨page, ofEntry, covers⟩⟩

/-- The last writer of a position leaves its byte there. -/
theorem exists_last_writer
    (covered : ∃ page ∈ image.acceptedPages logs limit, page.Covers position) :
    ∃ earlier last, image.writersOf logs limit position = earlier ++ [last] ∧
      ∃ page ∈ last.acceptedPages limit, page.Covers position ∧
        byteAt (image.replay logs limit).1.bytes position =
          byteAt page.bytes (position - page.start) := by
  obtain ⟨earlier, last, split⟩ :=
    (List.eq_nil_or_concat' (image.writersOf logs limit position)).resolve_left
      (writersOf_ne_nil covered)
  have bins : baseBlockSize ≤ position := by
    obtain ⟨page, -, covers⟩ := covered
    exact Nat.le_trans page.baseBlockSize_le_start covers.1
  have found : lastCovering? (image.acceptedPages logs limit) position =
      lastCovering? (last.acceptedPages limit) position := by
    have inLast := LogEntry.lastCovering?_acceptedPages limit position (image.newerEntries logs)
    change lastCovering? (image.acceptedPages logs limit) position =
      (image.writersOf logs limit position).getLast?.bind _ at inLast
    rwa [split, List.getLast?_concat] at inLast
  have writes : last.Writes limit position := by
    have member : last ∈ image.writersOf logs limit position := by
      rw [split]
      exact List.mem_append_right earlier List.mem_cons_self
    exact of_decide_eq_true (List.mem_filter.mp member).2
  cases covering : lastCovering? (last.acceptedPages limit) position with
  | none =>
      obtain ⟨page, accepted, covers⟩ := writes
      exact absurd covers (lastCovering?_eq_none_iff.mp covering page accepted)
  | some page =>
      obtain ⟨accepted, covers⟩ := mem_of_lastCovering?_eq_some covering
      refine ⟨earlier, last, split, page, accepted, covers, ?_⟩
      rw [image.byteAt_replay logs limit (not_inUpdatedField_of_le bins), byteAt_layPages, found,
        covering]

end Writers

/-- Whose byte stands at a position that an accepted page covers: that of the last entry that
writes it. It is the byte of the newest of these entries, the one that the rule for the bins size
would choose among them, when they come in the order of their sequence numbers. -/
theorem last_writer_wins (image : HiveImage) (logs : List TransactionLog) (limit : Nat)
    {position : Nat} (covered : ∃ page ∈ image.acceptedPages logs limit, page.Covers position) :
    ∃ last, (image.writersOf logs limit position).getLast? = some last ∧
      (∃ page ∈ last.acceptedPages limit, page.Covers position ∧
        byteAt (image.replay logs limit).1.bytes position =
          byteAt page.bytes (position - page.start)) ∧
      ((image.writersOf logs limit position).Pairwise (fun a b => a.sequence ≤ b.sequence) →
        Newest (image.writersOf logs limit position) last) := by
  obtain ⟨earlier, last, split, byte⟩ := exists_last_writer covered
  rw [split]
  refine ⟨last, List.getLast?_concat, byte, ?_⟩
  intro ordered
  exact .of_ordered ordered

/-- Two logs that write the same position, with these sequence numbers. -/
def twoLogs (first second : UInt32) : List TransactionLog :=
  [onePageLog first 0 [7], onePageLog second 0 [9]]

/-- Both logs are newer than a blank hive, and the second one comes last. -/
theorem writersOf_twoLogs {first second : UInt32} (newer : 0 < first) (newer' : 0 < second) :
    blankImage.writersOf (twoLogs first second) 8192 4096 =
      (onePageLog first 0 [7]).entries ++ (onePageLog second 0 [9]).entries := by
  have entries : blankImage.newerEntries (twoLogs first second) =
      (onePageLog first 0 [7]).entries ++ (onePageLog second 0 [9]).entries := by
    rw [newerEntries_blankImage]
    simp [twoLogs, onePageLog, newer, newer']
  rw [writersOf, entries]
  rfl

theorem covered_twoLogs {first second : UInt32} (newer : 0 < first) (newer' : 0 < second) :
    ∃ page ∈ blankImage.acceptedPages (twoLogs first second) 8192, page.Covers 4096 := by
  have last : (onePageLog second 0 [9]).entries ⊆
      blankImage.writersOf (twoLogs first second) 8192 4096 := by
    rw [writersOf_twoLogs newer newer']
    exact List.subset_append_right _ _
  obtain ⟨written, writes⟩ := List.mem_filter.mp (last List.mem_cons_self)
  obtain ⟨page, accepted, covers⟩ := of_decide_eq_true writes
  exact ⟨page, List.mem_flatMap.mpr ⟨_, written, accepted⟩, covers⟩

/-- The older entry comes first, and the newer one is seen. -/
theorem last_writer_wins_in_order :
    (∃ page ∈ blankImage.acceptedPages (twoLogs 1 2) 8192, page.Covers 4096) ∧
      ∃ last, Newest (blankImage.writersOf (twoLogs 1 2) 8192 4096) last ∧ last.sequence = 2 ∧
        byteAt (blankImage.replay (twoLogs 1 2) 8192).1.bytes 4096 = 9 := by
  have covered := covered_twoLogs (by decide : (0 : UInt32) < 1) (by decide : (0 : UInt32) < 2)
  have writers := writersOf_twoLogs (by decide : (0 : UInt32) < 1) (by decide : (0 : UInt32) < 2)
  obtain ⟨last, isLast, ⟨page, accepted, -, byte⟩, newest⟩ :=
    last_writer_wins blankImage (twoLogs 1 2) 8192 covered
  rw [writers] at isLast newest ⊢
  obtain rfl := Option.some.inj isLast
  obtain rfl := List.mem_singleton.mp accepted
  exact ⟨covered, _, newest (by decide), rfl, byte⟩

/-- The newest state of a position does not always win: when the older entry stands in the later
log, no newest writer of the position has the byte that is left there. -/
theorem older_state_stays :
    (∃ page ∈ blankImage.acceptedPages (twoLogs 2 1) 8192, page.Covers 4096) ∧
      ¬ ∃ newest ∈ blankImage.writersOf (twoLogs 2 1) 8192 4096,
        (∀ other ∈ blankImage.writersOf (twoLogs 2 1) 8192 4096,
          other.sequence ≤ newest.sequence) ∧
        ∃ page ∈ newest.acceptedPages 8192, page.Covers 4096 ∧
          byteAt (blankImage.replay (twoLogs 2 1) 8192).1.bytes 4096 =
            byteAt page.bytes (4096 - page.start) := by
  have covered := covered_twoLogs (by decide : (0 : UInt32) < 2) (by decide : (0 : UInt32) < 1)
  have writers := writersOf_twoLogs (by decide : (0 : UInt32) < 2) (by decide : (0 : UInt32) < 1)
  obtain ⟨earlier, last, split, left, accepted, -, byte⟩ := exists_last_writer covered
  rw [writers] at split ⊢
  obtain ⟨-, rfl⟩ := List.append_inj' split rfl |>.imp id List.singleton_inj.mp
  obtain rfl := List.mem_singleton.mp accepted
  refine ⟨covered, ?_⟩
  rintro ⟨newest, member, greatest, page, ofNewest, -, same⟩
  rcases List.mem_cons.mp member with rfl | older
  · obtain rfl := List.mem_singleton.mp ofNewest
    rw [byte] at same
    exact absurd same (by decide)
  · obtain rfl := List.mem_singleton.mp older
    exact absurd (greatest _ List.mem_cons_self) (by decide)

end HiveImage

end RegistryHive
