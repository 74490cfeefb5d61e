import RegistryHive.Proofs.Files.LogPaths
import RegistryHive.Proofs.Recovery.Coherence
import RegistryHive.Session

/-!
# What a load depends on

Whether a hive can be loaded is decided by its own file alone. The logs decide
what the loaded hive holds: `Hive.LoadedFrom` says which logs are replayed and in
which order, and that a log which cannot be opened or read is left out.

A session is followed through any run of loads with any changes of the files
between them. `Session.calls` lists what each load answered and what the session
was after it, and `load_exact` says that this is what the load gives by itself,
whatever the session held before.
-/

namespace RegistryHive

/-- The path reads as a file that can carry a base block. -/
def FileTree.HasHive (tree : FileTree) (path : String) : Prop :=
  ∃ file, tree.read path = .ok file ∧ baseBlockSize ≤ file.size ∧
    file.extract 0 4 = hiveSignature

namespace Hive

/-- The hive is what the file at the path and its logs give. -/
inductive LoadedFrom (tree : FileTree) (path : String) (options : LoadOptions) : Hive → Prop
  /-- The logs are replayed once, in one order: those beside the hive, sorted by their names, then
  the named ones that are none of the paths before them. -/
  | recovered {file : ByteArray} {image : HiveImage} {names : List String}
      {logs : List TransactionLog} (recover : options.recover = true)
      (read : tree.read path = .ok file) (decoded : HiveImage.ofBytes file = .ok image)
      (beside : tree.discoverLogs path = names.map (FilePath.join (FilePath.directory path)))
      (sorted : names.Pairwise (· ≤ ·))
      (gathered : tree.Gathers
        (tree.discoverLogs path ++ FilePath.unseen (tree.discoverLogs path) options.extraLogs) logs) :
      LoadedFrom tree path options
        { image := (image.replay logs options.sizeLimit).1
          replay := (image.replay logs options.sizeLimit).2 }
  /-- The file is taken as it is. -/
  | unpatched {file : ByteArray} {image : HiveImage} (recover : options.recover = false)
      (read : tree.read path = .ok file) (decoded : HiveImage.ofBytes file = .ok image)
      (bytes : image.bytes = file) :
      LoadedFrom tree path options { image := image, replay := .zero }

section Load

variable {tree : FileTree} {path : String} {options : LoadOptions}

theorem load_of_read_error {failure : ReadFailure} (failed : tree.read path = .error failure) :
    Hive.load tree path options = .error (.ofReadFailure path failure) := by
  simp only [Hive.load, FileTree.readFor, failed]

theorem load_of_read_ok {file : ByteArray} (read : tree.read path = .ok file) :
    Hive.load tree path options = (HiveImage.ofBytes file).map fun image =>
      if options.recover then
        let replayed := image.replay (tree.loadLogs (tree.logPaths path options)) options.sizeLimit
        { image := replayed.1, replay := replayed.2 }
      else { image := image, replay := .zero } := by
  simp only [Hive.load, FileTree.readFor, read]

theorem isOk_ofBytes_iff (file : ByteArray) :
    (∃ image, HiveImage.ofBytes file = .ok image) ↔
      baseBlockSize ≤ file.size ∧ file.extract 0 4 = hiveSignature := by
  constructor
  · rintro ⟨image, decoded⟩
    obtain ⟨full, signature, -⟩ :=
      BaseBlock.decode_eq_ok_iff.mp (HiveImage.ofBytes_eq_ok_iff.mp decoded).2
    exact ⟨full, signature⟩
  · rintro ⟨full, signature⟩
    have decoded : BaseBlock.decode file = .ok (BaseBlock.fieldsOf file) :=
      BaseBlock.decode_eq_ok_iff.mpr ⟨full, signature, rfl⟩
    exact ⟨{ bytes := file, baseBlock := .fieldsOf file },
      HiveImage.ofBytes_eq_ok_iff.mpr ⟨rfl, decoded⟩⟩

/-- Only the file of the hive decides whether a load succeeds. -/
theorem exists_load_iff :
    (∃ hive, Hive.load tree path options = .ok hive) ↔ tree.HasHive path := by
  cases read : tree.read path with
  | error failure =>
      simp [load_of_read_error read, FileTree.HasHive, read]
  | ok file =>
      have here : tree.HasHive path ↔ ∃ image, HiveImage.ofBytes file = .ok image := by
        simp [FileTree.HasHive, read, isOk_ofBytes_iff]
      rw [here, load_of_read_ok read]
      cases HiveImage.ofBytes file <;> simp [Except.map]

/-- What a load gives. -/
theorem loadedFrom_of_load {hive : Hive} (loaded : Hive.load tree path options = .ok hive) :
    hive.LoadedFrom tree path options := by
  cases read : tree.read path with
  | error failure =>
      rw [load_of_read_error read] at loaded
      cases loaded
  | ok file =>
      rw [load_of_read_ok read] at loaded
      cases decoded : HiveImage.ofBytes file with
      | error error =>
          rw [decoded] at loaded
          cases loaded
      | ok image =>
          simp only [decoded, Except.map, Except.ok.injEq] at loaded
          by_cases recover : options.recover = true
          · obtain ⟨names, beside, sorted⟩ := tree.exists_sorted_names path
            have gathered := tree.gathers_loadLogs (tree.logPaths path options)
            rw [tree.logPaths_eq] at gathered
            rw [if_pos recover, tree.logPaths_eq] at loaded
            rw [← loaded]
            exact .recovered recover read decoded beside sorted gathered
          · rw [if_neg recover] at loaded
            rw [← loaded]
            exact .unpatched (Bool.eq_false_iff.mpr recover) read decoded
              (HiveImage.ofBytes_eq_ok_iff.mp decoded).1

end Load

end Hive

namespace Session

/-- The session answers every query as the hive does, and reports no error. -/
structure Shows (session : Session) (hive : Hive) : Prop where
  isLoaded : session.isLoaded = true
  lastError? : session.lastError? = none
  lastErrorKind? : session.lastErrorKind? = none
  hive? : session.hive? = some hive
  rootKey? : session.rootKey? = hive.rootKey?
  key? : ∀ path, session.key? path = hive.key? path
  keys : session.keys = hive.keys
  paths : session.paths = hive.paths
  logsApplied : session.logsApplied = hive.logsApplied

/-- The session reports the error and answers every query as if there were no hive. -/
structure Reports (session : Session) (error : HiveError) : Prop where
  isLoaded : session.isLoaded = false
  lastError? : session.lastError? = some error
  lastErrorKind? : session.lastErrorKind? = some error.kind
  hive? : session.hive? = none
  rootKey? : session.rootKey? = none
  key? : ∀ path, session.key? path = none
  keys : session.keys = []
  paths : session.paths = []
  logsApplied : session.logsApplied = false

/-- Something that happens while a session is in use. -/
inductive Event
  /-- The files become these. -/
  | change (files : FileTree)
  /-- A hive is loaded. -/
  | load (path : String)

/-- A load: the files that there were, what it answered, and the session after it. -/
structure Call where
  files : FileTree
  path : String
  answer : Bool
  after : Session

/-- The loads in a run of events, in order. -/
def calls (session : Session) (files : FileTree) : List Event → List Call
  | [] => []
  | .change files' :: rest => session.calls files' rest
  | .load path :: rest =>
      let loaded := session.tryLoad files path
      { files := files, path := path, answer := loaded.1, after := loaded.2 } ::
        loaded.2.calls files rest

section Load

variable {session : Session} {tree : FileTree} {path : String}

theorem tryLoad_of_ok {hive : Hive} (loaded : Hive.load tree path session.options = .ok hive) :
    session.tryLoad tree path =
      (true, { session with hive? := some hive, lastError? := none }) := by
  simp only [tryLoad, loaded]

theorem tryLoad_of_error {error : HiveError}
    (failed : Hive.load tree path session.options = .error error) :
    session.tryLoad tree path =
      (false, { session with hive? := none, lastError? := some error }) := by
  simp only [tryLoad, failed]

/-- The options of a session stay as they are. -/
theorem options_tryLoad (session : Session) (tree : FileTree) (path : String) :
    (session.tryLoad tree path).2.options = session.options := by
  cases result : Hive.load tree path session.options with
  | ok hive => rw [tryLoad_of_ok result]
  | error error => rw [tryLoad_of_error result]

/-- What a session holds after a load is what a new session with the same options would hold. -/
theorem load_eq_load_new :
    session.load tree path = (new session.options).load tree path := by
  rw [load, load]
  cases result : Hive.load tree path session.options with
  | ok hive =>
      have again : Hive.load tree path (new session.options).options = .ok hive := result
      rw [tryLoad_of_ok result, tryLoad_of_ok again]
      rfl
  | error error =>
      have again : Hive.load tree path (new session.options).options = .error error := result
      rw [tryLoad_of_error result, tryLoad_of_error again]
      rfl

theorem shows_of_ok {hive : Hive} (loaded : Hive.load tree path session.options = .ok hive) :
    (session.tryLoad tree path).2.Shows hive := by
  rw [tryLoad_of_ok loaded]
  exact ⟨rfl, rfl, rfl, rfl, rfl, fun _ => rfl, rfl, rfl, rfl⟩

theorem reports_of_error {error : HiveError}
    (failed : Hive.load tree path session.options = .error error) :
    (session.tryLoad tree path).2.Reports error := by
  rw [tryLoad_of_error failed]
  exact ⟨rfl, rfl, rfl, rfl, rfl, fun _ => rfl, rfl, rfl, rfl⟩

end Load

/-- A call under options did what the load gives by itself. -/
structure Call.Follows (options : LoadOptions) (call : Call) : Prop where
  answer_eq : call.answer = call.after.isLoaded
  after_eq : call.after = (new options).load call.files call.path
  shows : call.answer = true →
    ∃ hive, Hive.load call.files call.path options = .ok hive ∧ call.after.Shows hive
  reports : call.answer = false →
    ∃ error, Hive.load call.files call.path options = .error error ∧ call.after.Reports error

/-- One load follows from the files and the options, whatever the session held. -/
theorem follows_tryLoad (session : Session) (tree : FileTree) (path : String) :
    Call.Follows session.options
      { files := tree, path := path, answer := (session.tryLoad tree path).1
        after := (session.tryLoad tree path).2 } := by
  have after_eq : (session.tryLoad tree path).2 = (new session.options).load tree path :=
    load_eq_load_new
  cases result : Hive.load tree path session.options with
  | ok hive =>
      have shows := shows_of_ok result
      refine ⟨?_, after_eq, fun _ => ⟨hive, result, shows⟩, ?_⟩
      · rw [shows.isLoaded, tryLoad_of_ok result]
      · rw [tryLoad_of_ok result]
        exact fun failed => nomatch failed
  | error error =>
      have reports := reports_of_error result
      refine ⟨?_, after_eq, ?_, fun _ => ⟨error, result, reports⟩⟩
      · rw [reports.isLoaded, tryLoad_of_error result]
      · rw [tryLoad_of_error result]
        exact fun succeeded => nomatch succeeded

/-- Every load of a run follows from the files at its time and the options. -/
theorem follows_of_mem_calls {session : Session} {files : FileTree} {events : List Event}
    {call : Call} (member : call ∈ session.calls files events) :
    call.Follows session.options := by
  induction events generalizing session files with
  | nil => exact absurd member List.not_mem_nil
  | cons event rest ih =>
      cases event with
      | change files' => exact ih member
      | load path =>
          rcases List.mem_cons.mp member with rfl | later
          · exact session.follows_tryLoad files path
          · rw [← session.options_tryLoad files path]
            exact ih later

/-- What a load depends on.

A hive can be loaded exactly when its path reads as a file that is long enough for a base block and
begins with its mark, whatever the logs are. With recovery, the hive that is loaded is that of the
file after one replay of the logs which open and can be read: those beside the hive in the order of
their names, then the named ones that are none of the paths before them. Without recovery it is that
of the file as it is, with an empty report.

In every run of loads with any changes of the files between them, every load answers whether the
session is loaded then. Whatever the session held before, it shows the hive that this load gives,
and no error; or it reports the error of this load, and every query finds nothing. -/
theorem load_exact :
    (∀ (tree : FileTree) (path : String) (options : LoadOptions),
      ((∃ hive, Hive.load tree path options = .ok hive) ↔ tree.HasHive path) ∧
        ∀ hive, Hive.load tree path options = .ok hive → hive.LoadedFrom tree path options) ∧
    ∀ (session : Session) (files : FileTree) (events : List Event),
      ∀ call ∈ session.calls files events, call.Follows session.options :=
  ⟨fun _ _ _ => ⟨Hive.exists_load_iff, fun _ => Hive.loadedFrom_of_load⟩,
    fun _ _ _ _ => follows_of_mem_calls⟩

/-- A blank hive with two logs beside it: one is cut off, the other one cannot be read. -/
def blankFiles : FileTree where
  entries := [(["work"], .directory), (["work", "SYSTEM"], .file HiveImage.blankFile),
    (["work", "SYSTEM.LOG1"], .file hiveSignature),
    (["work", "SYSTEM.LOG2"], .unreadable .permissionDenied)]
  workingDirectory := ["work"]

/-- A hive is loaded by its absolute path although its logs are damaged, and a second load fails
when the files are gone; the session then reports that there is no file and shows nothing of the
first hive. -/
theorem load_exact_reload :
    let session := Session.new {}
    let calls := session.calls blankFiles [.load "/work/SYSTEM", .change .empty, .load "SYSTEM"]
    blankFiles.HasHive "/work/SYSTEM" ∧
      (∃ hive, Hive.load blankFiles "/work/SYSTEM" {} = .ok hive) ∧
      calls.map (·.answer) = [true, false] ∧ ∀ call ∈ calls, call.Follows {} := by
  intro session calls
  have read : blankFiles.read "/work/SYSTEM" = .ok HiveImage.blankFile := rfl
  have hasHive : blankFiles.HasHive "/work/SYSTEM" :=
    ⟨HiveImage.blankFile, read, Nat.le_of_eq HiveImage.size_blankFile.symm,
      HiveImage.extract_blankFile⟩
  obtain ⟨loads, runs⟩ := load_exact
  obtain ⟨hive, loaded⟩ := (loads blankFiles "/work/SYSTEM" {}).1.mpr hasHive
  have missing : FileTree.empty.read "SYSTEM" = .error .notFound := rfl
  have first : session.tryLoad blankFiles "/work/SYSTEM" = _ := tryLoad_of_ok loaded
  refine ⟨hasHive, ⟨hive, loaded⟩, ?_, runs session blankFiles _⟩
  have second {session : Session} : (session.tryLoad .empty "SYSTEM").1 = false := by
    rw [tryLoad_of_error (Hive.load_of_read_error missing)]
  simp only [calls, Session.calls, List.map_cons, List.map_nil, first, second]

end Session

end RegistryHive
