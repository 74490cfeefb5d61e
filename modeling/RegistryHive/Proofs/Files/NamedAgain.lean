import RegistryHive.Proofs.Files.Discovery
import RegistryHive.Proofs.Files.Sessions
import RegistryHive.Proofs.Log.EncodedLog
import RegistryHive.Proofs.Recovery.Rounds

/-!
# Naming a log that is found anyway

A log that lies beside a hive can also be named in the options. The loader passes
over a named path that is the same path as one before it, but it compares how the
paths are written and not which files they lead to. Where it misses that a file is
the same, the log is replayed once more behind all the others: its pages come to
lie over those of logs that are newer, and it is counted again.

Beside a hive that is given by its bare name this is so whenever the log is named
in the same manner, because the paths that are found there begin with the
directory (`not_samePath_of_bare`).
-/

namespace RegistryHive

open FilePath

/-- The options with one more log to replay. -/
def LoadOptions.withLog (options : LoadOptions) (path : String) : LoadOptions :=
  { options with extraLogs := options.extraLogs ++ [path] }

namespace FileTree

variable {tree : FileTree} {path known extra : String}

theorem logPaths_withLog (tree : FileTree) (path : String) (options : LoadOptions)
    (extra : String) : tree.logPaths path (options.withLog extra) =
      addPath (tree.logPaths path options) extra := by
  simp only [logPaths, LoadOptions.withLog, List.foldl_append, List.foldl_cons, List.foldl_nil]

/-- A log that is found beside the hive is among those to replay. -/
theorem mem_logPaths_of_beside (beside : known ∈ tree.discoverLogs path)
    (options : LoadOptions) : known ∈ tree.logPaths path options := by
  rw [logPaths_eq]
  exact List.mem_append_left _ beside

theorem loadLogs_append (tree : FileTree) (paths later : List String) :
    tree.loadLogs (paths ++ later) = tree.loadLogs paths ++ tree.loadLogs later :=
  List.filterMap_append

theorem loadLog_eq_ok_iff {log : TransactionLog} :
    tree.loadLog path = .ok log ↔ ∃ bytes found, tree.read path = .ok bytes ∧
      TransactionLog.decode bytes = .ok found ∧ { found with path := some path } = log := by
  cases read : tree.read path with
  | error failure => simp [loadLog, readFor, read]
  | ok bytes =>
      cases decoded : TransactionLog.decode bytes with
      | error error => simp [loadLog, readFor, read, decoded, Except.map]
      | ok found => simp [loadLog, readFor, read, decoded, Except.map]

/-- Two paths to one file read the same. -/
theorem read_congr (same : tree.locate extra = tree.locate known) :
    tree.read extra = tree.read known := by
  rw [read, read, same]

/-- Where the same is read the same entries are loaded, whatever the path is. -/
theorem loadLog_of_read_eq (same : tree.read extra = tree.read known) {log : TransactionLog}
    (loaded : tree.loadLog known = .ok log) :
    tree.loadLog extra = .ok { log with path := some extra } := by
  obtain ⟨bytes, found, read, decoded, rfl⟩ := loadLog_eq_ok_iff.mp loaded
  exact loadLog_eq_ok_iff.mpr ⟨bytes, found, same.trans read, decoded, rfl⟩

theorem exists_error_of_read_eq (same : tree.read extra = tree.read known)
    (failed : ∃ error, tree.loadLog known = .error error) :
    ∃ error, tree.loadLog extra = .error error := by
  cases loaded : tree.loadLog extra with
  | error error => exact ⟨error, rfl⟩
  | ok log =>
      obtain ⟨error, refused⟩ := failed
      cases refused.symm.trans (loadLog_of_read_eq same.symm loaded)

/-- Beside a hive that is given by its bare name, no log is found by its own bare name. -/
theorem not_samePath_of_bare {name : String} (bare : IsName path) (isName : IsName name)
    (beside : known ∈ tree.discoverLogs path) : ¬ SamePath known name := by
  obtain ⟨names, found, -⟩ := tree.exists_sorted_names path
  rw [found, bare.directory_eq] at beside
  obtain ⟨other, -, rfl⟩ := List.mem_map.mp beside
  intro same
  have first := head?_parts_join_dot other
  rw [same, isName.parts_eq] at first
  cases first

theorem mem_loadLogs {paths : List String} {log : TransactionLog} (member : known ∈ paths)
    (loaded : tree.loadLog known = .ok log) : log ∈ tree.loadLogs paths :=
  List.mem_filterMap.mpr ⟨known, member, by rw [loaded]; rfl⟩

end FileTree

namespace HiveImage

section Again

variable {image : HiveImage} {logs : List TransactionLog} {log again : TransactionLog}

/-- Only the entries of the logs matter to a replay, and the number of the logs. -/
theorem replay_congr (image : HiveImage) {logs logs' : List TransactionLog}
    (entries : logs.map (·.entries) = logs'.map (·.entries)) (limit : Nat) :
    image.replay logs limit = image.replay logs' limit := by
  have number : logs.length = logs'.length := by
    simpa using congrArg List.length entries
  have whole : logs.flatMap (·.entries) = logs'.flatMap (·.entries) := by
    rw [List.flatMap_def, List.flatMap_def, entries]
  simp only [replay, number, whole]

theorem acceptedPages_subset (member : log ∈ logs) (limit : Nat) :
    image.acceptedPages [log] limit ⊆ image.acceptedPages logs limit := by
  obtain ⟨before, after, rfl⟩ := List.append_of_mem member
  have split : before ++ log :: after = before ++ ([log] ++ after) := rfl
  rw [split, acceptedPages_append, acceptedPages_append]
  intro page accepted
  exact List.mem_append_right _ (List.mem_append_left _ accepted)

/-- A log that was replayed already does not make the image longer. -/
theorem Coherent.size_replay_again (h : image.Coherent) (member : log ∈ logs) (limit : Nat) :
    ((image.replay logs limit).1.replay [log] limit).1.bytes.size =
      (image.replay logs limit).1.bytes.size := by
  rw [size_bytes_replay, h.acceptedPages_replay]
  have inside : ∀ page ∈ image.acceptedPages [log] limit,
      page.stop ≤ (image.replay logs limit).1.bytes.size := by
    intro page accepted
    rw [size_bytes_replay]
    exact stop_le_size_layPages (acceptedPages_subset member limit accepted) _
  apply Nat.le_antisymm
  · have grown := size_layPages_le inside (image.replay logs limit).1.bytes
    rwa [Nat.max_self] at grown
  · exact size_le_size_layPages _ _

end Again

end HiveImage

namespace Hive

/-- One hive is another one with the log replayed on it once more. The image is as long as it was.
Outside of the two fields that a replay updates it holds the bytes of the log wherever the log
writes, and the report counts the log too. -/
structure ReplayedOn (again hive : Hive) (log : TransactionLog) (limit : Nat) : Prop where
  size_eq : again.image.size = hive.image.size
  byteAt_eq : ∀ position, ¬ InUpdatedField position →
    byteAt again.image.bytes position =
      match lastCovering? (hive.image.acceptedPages [log] limit) position with
      | some page => byteAt page.bytes (position - page.start)
      | none => byteAt hive.image.bytes position
  replay_eq : again.replay = hive.replay +
    { logsRead := 1
      entriesSeen := log.entries.length
      entriesApplied := (hive.image.newerEntries [log]).length
      pagesApplied := (hive.image.acceptedPages [log] limit).length }

/-- The hive with the result of a replay. -/
def ofReplay (replayed : HiveImage × ReplayStats) : Hive where
  image := replayed.1
  replay := replayed.2

/-- A log that was among those replayed is replayed once more behind them. -/
theorem replayedOn_ofReplay {image : HiveImage} (h : image.Coherent) {logs : List TransactionLog}
    {log again : TransactionLog} (member : log ∈ logs) (same : again.entries = log.entries)
    (limit : Nat) :
    (ofReplay (image.replay (logs ++ [again]) limit)).ReplayedOn
      (ofReplay (image.replay logs limit)) log limit := by
  have entries : (logs ++ [again]).map (·.entries) = (logs ++ [log]).map (·.entries) := by
    rw [List.map_append, List.map_append, List.map_singleton, List.map_singleton, same]
  rw [image.replay_congr entries]
  obtain ⟨size, -, report⟩ := HiveImage.replay_append h logs [log] limit
  refine ⟨size.symm.trans (h.size_replay_again member limit), fun position outside => ?_, ?_⟩
  · change byteAt (image.replay (logs ++ [log]) limit).1.bytes position = _
    rw [image.byteAt_replay _ limit outside, HiveImage.acceptedPages_append, layPages_append,
      byteAt_layPages, ← image.byteAt_replay logs limit outside,
      ← h.acceptedPages_replay logs [log] limit]
    rfl
  · change (image.replay (logs ++ [log]) limit).2 = _
    rw [← report, HiveImage.stats_replay (image.replay logs limit).1]
    rfl

section Load

variable {tree : FileTree} {path known extra : String} {options : LoadOptions}

/-- A hive that cannot be loaded fails in the same way under all options. -/
theorem exists_error_of_not_hasHive (missing : ¬ tree.HasHive path) :
    ∃ error, ∀ options, Hive.load tree path options = .error error := by
  cases read : tree.read path with
  | error failure => exact ⟨_, fun _ => load_of_read_error read⟩
  | ok file =>
      cases decoded : HiveImage.ofBytes file with
      | error error =>
          refine ⟨error, fun options => ?_⟩
          rw [load_of_read_ok read, decoded]
          rfl
      | ok image =>
          obtain ⟨full, signature⟩ := (isOk_ofBytes_iff file).mp ⟨image, decoded⟩
          exact absurd ⟨file, read, full, signature⟩ missing

/-- With recovery a hive is the image in its file after the replay of its logs. -/
theorem load_of_decoded {file : ByteArray} {image : HiveImage} (read : tree.read path = .ok file)
    (decoded : HiveImage.ofBytes file = .ok image) (recover : options.recover = true) :
    Hive.load tree path options = .ok (ofReplay
      (image.replay (tree.loadLogs (tree.logPaths path options)) options.sizeLimit)) := by
  rw [load_of_read_ok read, decoded]
  simp only [Except.map, recover, if_true]
  rfl

theorem exists_load_ofReplay (hasHive : tree.HasHive path) :
    ∃ image : HiveImage, image.Coherent ∧ ∀ options : LoadOptions, options.recover = true →
      Hive.load tree path options = .ok (ofReplay
        (image.replay (tree.loadLogs (tree.logPaths path options)) options.sizeLimit)) := by
  obtain ⟨file, read, full, signature⟩ := hasHive
  obtain ⟨image, decoded⟩ := (isOk_ofBytes_iff file).mpr ⟨full, signature⟩
  exact ⟨image, HiveImage.coherent_of_ofBytes decoded, fun _ => load_of_decoded read decoded⟩

/-- Loading depends on the options through the logs that are replayed and the size limit. -/
theorem load_withLog_of_loadLogs_eq
    (same : tree.loadLogs (tree.logPaths path (options.withLog extra)) =
      tree.loadLogs (tree.logPaths path options)) :
    Hive.load tree path (options.withLog extra) = Hive.load tree path options := by
  simp only [Hive.load, same]
  rfl

/-- A path that is the same path as one of those to replay is passed over. -/
theorem load_withLog_of_known
    (isKnown : ∃ other ∈ tree.logPaths path options, SamePath other extra) :
    Hive.load tree path (options.withLog extra) = Hive.load tree path options := by
  apply load_withLog_of_loadLogs_eq
  rw [FileTree.logPaths_withLog, FileTree.addPath_of_known isKnown]

/-- A path at which no log can be loaded adds nothing. -/
theorem load_withLog_of_error {error : HiveError} (lost : tree.loadLog extra = .error error) :
    Hive.load tree path (options.withLog extra) = Hive.load tree path options := by
  by_cases isKnown : ∃ other ∈ tree.logPaths path options, SamePath other extra
  · exact load_withLog_of_known isKnown
  · have none_added : tree.loadLogs [extra] = [] := by
      simp [FileTree.loadLogs, lost, Except.toOption]
    apply load_withLog_of_loadLogs_eq
    rw [FileTree.logPaths_withLog, FileTree.addPath_of_unknown isKnown,
      FileTree.loadLogs_append, none_added, List.append_nil]

/-- A log that can be loaded and is not known by its path is replayed once more. -/
theorem replayedOn_withLog (recover : options.recover = true)
    (beside : known ∈ tree.discoverLogs path) (same : tree.read extra = tree.read known)
    (unknown : ¬ ∃ other ∈ tree.logPaths path options, SamePath other extra)
    {log : TransactionLog} (loaded : tree.loadLog known = .ok log) {hive : Hive}
    (before : Hive.load tree path options = .ok hive) :
    ∃ again, Hive.load tree path (options.withLog extra) = .ok again ∧
      again.ReplayedOn hive log options.sizeLimit := by
  obtain ⟨image, coherent, load⟩ := exists_load_ofReplay (exists_load_iff.mp ⟨hive, before⟩)
  have paths : tree.logPaths path (options.withLog extra) =
      tree.logPaths path options ++ [extra] := by
    rw [FileTree.logPaths_withLog, FileTree.addPath_of_unknown unknown]
  have last : tree.loadLogs [extra] = [{ log with path := some extra }] := by
    simp [FileTree.loadLogs, FileTree.loadLog_of_read_eq same loaded, Except.toOption]
  have member : log ∈ tree.loadLogs (tree.logPaths path options) :=
    FileTree.mem_loadLogs (FileTree.mem_logPaths_of_beside beside options) loaded
  refine ⟨_, load (options.withLog extra) recover, ?_⟩
  rw [load options recover] at before
  obtain rfl := Except.ok.inj before
  rw [paths, FileTree.loadLogs_append, last]
  refine replayedOn_ofReplay coherent member ?_ options.sizeLimit
  rfl

/-- What it does to name a log that is found beside the hive, by any path that leads to its file or
to one with the same content.

Nothing changes exactly if the hive cannot be loaded at all, or the named path is the same path as
one of those to replay, or the file is no log that can be loaded. Otherwise the log is replayed once
more on the hive that is loaded without it: its bytes are seen wherever it writes, also where a log
behind it has written, and it is counted once more. -/
theorem load_withLog (recover : options.recover = true)
    (beside : known ∈ tree.discoverLogs path) (same : tree.read extra = tree.read known) :
    (Hive.load tree path (options.withLog extra) = Hive.load tree path options ↔
      ¬ tree.HasHive path ∨ (∃ other ∈ tree.logPaths path options, SamePath other extra) ∨
        ∃ error, tree.loadLog known = .error error) ∧
    ((¬ ∃ other ∈ tree.logPaths path options, SamePath other extra) →
      ∀ hive log, Hive.load tree path options = .ok hive → tree.loadLog known = .ok log →
        ∃ again, Hive.load tree path (options.withLog extra) = .ok again ∧
          again.ReplayedOn hive log options.sizeLimit) := by
  refine ⟨⟨?_, ?_⟩, fun unknown hive log before loaded =>
    replayedOn_withLog recover beside same unknown loaded before⟩
  · intro unchanged
    by_contra changed
    obtain ⟨hasHive, unknown, loadable⟩ : tree.HasHive path ∧
        (¬ ∃ other ∈ tree.logPaths path options, SamePath other extra) ∧
        ¬ ∃ error, tree.loadLog known = .error error := by
      simpa only [not_or, not_not] using changed
    obtain ⟨hive, before⟩ := exists_load_iff.mpr hasHive
    obtain ⟨log, loaded⟩ : ∃ log, tree.loadLog known = .ok log := by
      cases loaded : tree.loadLog known with
      | error error => exact absurd ⟨error, loaded⟩ loadable
      | ok log => exact ⟨log, rfl⟩
    obtain ⟨again, after, repeated⟩ := replayedOn_withLog recover beside same unknown loaded before
    have same_hive : again = hive := Except.ok.inj (after.symm.trans (unchanged.trans before))
    have counted : again.replay.logsRead = hive.replay.logsRead + 1 := by
      rw [repeated.replay_eq]
      rfl
    rw [same_hive] at counted
    omega
  · rintro (missing | isKnown | failed)
    · obtain ⟨error, fails⟩ := exists_error_of_not_hasHive missing
      rw [fails, fails]
    · exact load_withLog_of_known isKnown
    · obtain ⟨error, lost⟩ := FileTree.exists_error_of_read_eq same failed
      exact load_withLog_of_error lost

end Load

/-- An entry of a log that writes one byte at the start of the bins. -/
def byteEntry (sequence : UInt32) (byte : UInt8) : LogEntry where
  size := 49
  flags := 0
  sequence := sequence
  binsSize := 4096
  pagesHash := 0
  headerHash := 0
  pages := [⟨0, [byte].toByteArray⟩]

/-- A log with one such entry. -/
def byteLog (sequence : UInt32) (byte : UInt8) : ByteArray :=
  TransactionLog.encode HiveImage.blankFile [byteEntry sequence byte]

theorem decode_byteLog (sequence : UInt32) (byte : UInt8) :
    TransactionLog.decode (byteLog sequence byte) =
      .ok { path := none, entries := [byteEntry sequence byte] } := by
  have writable : ∀ entry ∈ [byteEntry sequence byte], entry.Writable := by
    intro entry member
    obtain rfl := List.mem_singleton.mp member
    refine ⟨rfl, (by decide : 1 ≤ LogEntry.maxPages), ?_⟩
    intro page onePage
    obtain rfl := List.mem_singleton.mp onePage
    exact (by decide : 1 ≤ LogEntry.maxPageSize)
  have ended : LogEntry.NoneBegins ByteArray.empty := by decide
  have decoded := TransactionLog.decode_encode_append HiveImage.size_blankFile
    HiveImage.extract_blankFile writable ended
  rwa [ByteArray.append_empty] at decoded

/-- A blank hive beside which two logs write the same byte. -/
def twiceWritten : FileTree where
  entries := [(["work"], .directory), (["work", "SYSTEM"], .file HiveImage.blankFile),
    (["work", "SYSTEM.LOG1"], .file (byteLog 1 7)), (["work", "SYSTEM.LOG2"], .file (byteLog 2 9))]
  workingDirectory := ["work"]

theorem discoverLogs_twiceWritten :
    twiceWritten.discoverLogs "SYSTEM" = ["./SYSTEM.LOG1", "./SYSTEM.LOG2"] := by
  have named : fileName? "SYSTEM" = some "SYSTEM" := rfl
  have here : directory "SYSTEM" = "." := rfl
  have listed : twiceWritten.namesIn "." = ["SYSTEM", "SYSTEM.LOG1", "SYSTEM.LOG2"] := rfl
  have files : ["SYSTEM", "SYSTEM.LOG1", "SYSTEM.LOG2"].map
      (fun name => twiceWritten.isFile (join "." name)) = [true, true, true] := rfl
  have logs : ["SYSTEM", "SYSTEM.LOG1", "SYSTEM.LOG2"].map (isLogOf "SYSTEM") =
      [false, true, true] := by
    simp only [List.map_cons, isLogOf, Text.lowerCase_eq]
    rfl
  have ordered : ["SYSTEM.LOG1", "SYSTEM.LOG2"].mergeSort (fun a b => !decide (b < a)) =
      ["SYSTEM.LOG1", "SYSTEM.LOG2"] :=
    List.mergeSort_of_pairwise (by decide)
  simp only [List.map_cons, List.cons.injEq] at files logs
  have names : twiceWritten.logNames "SYSTEM" "SYSTEM" = ["SYSTEM.LOG1", "SYSTEM.LOG2"] := by
    rw [FileTree.logNames, here, listed]
    simp only [List.filter_cons, files, logs]
    exact ordered
  rw [FileTree.discoverLogs_eq named, names, here]
  rfl

theorem logPaths_twiceWritten :
    twiceWritten.logPaths "SYSTEM" {} = ["./SYSTEM.LOG1", "./SYSTEM.LOG2"] :=
  discoverLogs_twiceWritten

/-- The older one of the two logs. -/
def olderLog : TransactionLog where
  path := some "./SYSTEM.LOG1"
  entries := [byteEntry 1 7]

/-- The newer one of the two logs. -/
def newerLog : TransactionLog where
  path := some "./SYSTEM.LOG2"
  entries := [byteEntry 2 9]

theorem loadLog_of_read_byteLog {tree : FileTree} {path : String} {sequence : UInt32} {byte : UInt8}
    (read : tree.read path = .ok (byteLog sequence byte)) :
    tree.loadLog path = .ok { path := some path, entries := [byteEntry sequence byte] } :=
  FileTree.loadLog_eq_ok_iff.mpr ⟨_, _, read, decode_byteLog sequence byte, rfl⟩

theorem loadLog_olderLog : twiceWritten.loadLog "./SYSTEM.LOG1" = .ok olderLog :=
  loadLog_of_read_byteLog rfl

theorem loadLog_newerLog : twiceWritten.loadLog "./SYSTEM.LOG2" = .ok newerLog :=
  loadLog_of_read_byteLog rfl

theorem olderLog_beside : "./SYSTEM.LOG1" ∈ twiceWritten.discoverLogs "SYSTEM" := by
  rw [discoverLogs_twiceWritten]
  exact List.mem_cons_self

/-- The place of the older log. -/
def olderPlace : List String := ["work", "SYSTEM.LOG1"]

theorem locate_olderLog : twiceWritten.locate "./SYSTEM.LOG1" = .ok olderPlace := rfl

/-- The older of the two logs is named once more. By a path that begins with the current directory
it is passed over; by its absolute path it is not. -/
theorem load_withLog_twiceWritten :
    ({} : LoadOptions).recover = true ∧
      "./SYSTEM.LOG1" ∈ twiceWritten.discoverLogs "SYSTEM" ∧
      twiceWritten.locate "././SYSTEM.LOG1" = twiceWritten.locate "./SYSTEM.LOG1" ∧
      twiceWritten.locate "/work/SYSTEM.LOG1" = twiceWritten.locate "./SYSTEM.LOG1" ∧
      Hive.load twiceWritten "SYSTEM" (LoadOptions.withLog {} "././SYSTEM.LOG1") =
        Hive.load twiceWritten "SYSTEM" {} ∧
      Hive.load twiceWritten "SYSTEM" (LoadOptions.withLog {} "/work/SYSTEM.LOG1") ≠
        Hive.load twiceWritten "SYSTEM" {} := by
  have dotted : twiceWritten.locate "././SYSTEM.LOG1" = .ok olderPlace := rfl
  have absolute : twiceWritten.locate "/work/SYSTEM.LOG1" = .ok olderPlace := rfl
  rw [← locate_olderLog] at dotted absolute
  refine ⟨rfl, olderLog_beside, dotted, absolute, ?_, ?_⟩
  · have isKnown : ∃ other ∈ twiceWritten.logPaths "SYSTEM" {}, SamePath other "././SYSTEM.LOG1" :=
      ⟨"./SYSTEM.LOG1", FileTree.mem_logPaths_of_beside olderLog_beside {}, by decide⟩
    have same := FileTree.read_congr dotted
    exact (load_withLog rfl olderLog_beside same).1.mpr (.inr (.inl isKnown))
  · intro unchanged
    have same := FileTree.read_congr absolute
    have reason := (load_withLog rfl olderLog_beside same).1.mp unchanged
    rcases reason with missing | isKnown | ⟨error, failed⟩
    · exact missing ⟨HiveImage.blankFile, rfl, Nat.le_of_eq HiveImage.size_blankFile.symm,
        HiveImage.extract_blankFile⟩
    · rw [logPaths_twiceWritten] at isKnown
      exact absurd isKnown (by decide)
    · cases loadLog_olderLog.symm.trans failed

/-- The hive after the replay of its two logs. -/
def twiceWrittenHive : Hive :=
  ofReplay (HiveImage.blankImage.replay [olderLog, newerLog] defaultSizeLimit)

theorem load_twiceWritten : Hive.load twiceWritten "SYSTEM" {} = .ok twiceWrittenHive := by
  have logs : twiceWritten.loadLogs (twiceWritten.logPaths "SYSTEM" {}) = [olderLog, newerLog] := by
    simp [logPaths_twiceWritten, FileTree.loadLogs, loadLog_olderLog, loadLog_newerLog,
      Except.toOption]
  rw [load_of_decoded rfl HiveImage.ofBytes_blankFile rfl, logs]
  rfl

/-- The pages of both logs cover the same byte, and that of the newer one is seen. -/
theorem byteAt_twiceWrittenHive : byteAt twiceWrittenHive.image.bytes 4096 = 9 := by
  have outside : ¬ InUpdatedField 4096 := HiveImage.not_inUpdatedField_of_le (by decide)
  have pages : HiveImage.blankImage.acceptedPages [olderLog, newerLog] defaultSizeLimit =
      [⟨0, [7].toByteArray⟩, ⟨0, [9].toByteArray⟩] := by
    rw [HiveImage.acceptedPages, HiveImage.newerEntries_blankImage]
    rfl
  change byteAt (HiveImage.blankImage.replay _ _).1.bytes 4096 = 9
  rw [HiveImage.byteAt_replay _ _ _ outside, byteAt_layPages, pages]
  rfl

/-- The older log is still newer than the hive that is loaded. -/
theorem acceptedPages_twiceWrittenHive :
    twiceWrittenHive.image.acceptedPages [olderLog] defaultSizeLimit =
      [⟨0, [7].toByteArray⟩] := by
  have coherent := HiveImage.coherent_of_ofBytes HiveImage.ofBytes_blankFile
  change HiveImage.acceptedPages (HiveImage.blankImage.replay _ _).1 _ _ = _
  rw [coherent.acceptedPages_replay, HiveImage.acceptedPages, HiveImage.newerEntries_blankImage]
  rfl

/-- A log is found beside a hive, and its bare name leads to the same file. When it is named, the
byte of this older log takes the place of the newer one, and the report counts three logs. -/
theorem older_log_replayed_again :
    "./SYSTEM.LOG1" ∈ twiceWritten.discoverLogs "SYSTEM" ∧
      twiceWritten.locate "SYSTEM.LOG1" = twiceWritten.locate "./SYSTEM.LOG1" ∧
      ∃ hive again, Hive.load twiceWritten "SYSTEM" {} = .ok hive ∧
        Hive.load twiceWritten "SYSTEM" (LoadOptions.withLog {} "SYSTEM.LOG1") = .ok again ∧
        byteAt hive.image.bytes 4096 = 9 ∧ byteAt again.image.bytes 4096 = 7 ∧
        hive.replay.logsRead = 2 ∧ again.replay.logsRead = 3 := by
  have bare : twiceWritten.locate "SYSTEM.LOG1" = .ok olderPlace := rfl
  rw [← locate_olderLog] at bare
  have unknown :
      ¬ ∃ other ∈ twiceWritten.logPaths "SYSTEM" {}, SamePath other "SYSTEM.LOG1" := by
    rintro ⟨other, beside, same⟩
    exact FileTree.not_samePath_of_bare (by decide : IsName "SYSTEM")
      (by decide : IsName "SYSTEM.LOG1") beside same
  obtain ⟨again, after, repeated⟩ : ∃ again,
      Hive.load twiceWritten "SYSTEM" (LoadOptions.withLog {} "SYSTEM.LOG1") = .ok again ∧
        again.ReplayedOn twiceWrittenHive olderLog defaultSizeLimit :=
    replayedOn_withLog rfl olderLog_beside (FileTree.read_congr bare) unknown loadLog_olderLog
      load_twiceWritten
  have byte := repeated.byteAt_eq 4096 (HiveImage.not_inUpdatedField_of_le (by decide))
  rw [acceptedPages_twiceWrittenHive] at byte
  have logsRead : twiceWrittenHive.replay.logsRead = 2 := by
    change (HiveImage.blankImage.replay _ _).2.logsRead = 2
    rw [HiveImage.stats_replay]
    rfl
  have counted : again.replay.logsRead = twiceWrittenHive.replay.logsRead + 1 := by
    rw [repeated.replay_eq]
    rfl
  rw [logsRead] at counted
  exact ⟨olderLog_beside, bare, _, again, load_twiceWritten, after,
    byteAt_twiceWrittenHive, byte, logsRead, counted⟩

end Hive

end RegistryHive
