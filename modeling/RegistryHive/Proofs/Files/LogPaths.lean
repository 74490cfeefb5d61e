import RegistryHive.Files.Loading

/-!
# Which logs are replayed

The logs of a hive are those that lie beside it, in the order of their names, and
after them those that the options name. A path that is the same path as one
before it is passed over: `unseen` looks at all earlier paths, while the loader
keeps only those that it has taken, and `logPaths_eq` says that this is the same.

`Gathers` says which logs stand at paths. A file that is missing or unreadable
adds none, and neither does one that is no log; a damaged log adds the entries
before the damage.
-/

namespace RegistryHive

namespace FilePath

/-- The paths that are the same path as none before them, where some paths have come earlier. -/
def unseen (earlier : List String) : List String → List String
  | [] => []
  | path :: rest =>
      if ∃ known ∈ earlier, SamePath known path then unseen (earlier ++ [path]) rest
      else path :: unseen (earlier ++ [path]) rest

/-- Only the meaning of the earlier paths counts, not how they are written or how often. -/
theorem unseen_congr {earlier earlier' : List String} (paths : List String)
    (same : ∀ path, (∃ known ∈ earlier, SamePath known path) ↔
      ∃ known ∈ earlier', SamePath known path) :
    unseen earlier paths = unseen earlier' paths := by
  induction paths generalizing earlier earlier' with
  | nil => rfl
  | cons path rest ih =>
      have later : unseen (earlier ++ [path]) rest = unseen (earlier' ++ [path]) rest := by
        apply ih
        intro other
        simp only [List.mem_append, or_and_right, exists_or, same other]
      simp only [unseen, same path, later]

/-- A path that is known already need not be remembered. -/
theorem unseen_concat_of_known {earlier : List String} {path : String}
    (known : ∃ known ∈ earlier, SamePath known path) (paths : List String) :
    unseen (earlier ++ [path]) paths = unseen earlier paths := by
  apply unseen_congr
  intro other
  constructor
  · rintro ⟨known', member, same⟩
    rcases List.mem_append.mp member with before | last
    · exact ⟨known', before, same⟩
    · obtain ⟨first, before, same'⟩ := known
      rw [List.mem_singleton.mp last] at same
      exact ⟨first, before, same'.trans same⟩
  · rintro ⟨known', before, same⟩
    exact ⟨known', List.mem_append_left [path] before, same⟩

end FilePath

namespace FileTree

open FilePath

theorem addPath_of_known {paths : List String} {path : String}
    (known : ∃ known ∈ paths, SamePath known path) : addPath paths path = paths := by
  apply if_pos
  simpa using known

theorem addPath_of_unknown {paths : List String} {path : String}
    (unknown : ¬ ∃ known ∈ paths, SamePath known path) : addPath paths path = paths ++ [path] := by
  apply if_neg
  simpa using unknown

/-- Adding paths one after the other appends those that are new. -/
theorem foldl_addPath (known paths : List String) :
    paths.foldl addPath known = known ++ unseen known paths := by
  induction paths generalizing known with
  | nil => exact (List.append_nil known).symm
  | cons path rest ih =>
      rw [List.foldl_cons, ih, unseen]
      by_cases seen : ∃ other ∈ known, SamePath other path
      · rw [addPath_of_known seen, if_pos seen, unseen_concat_of_known seen]
      · rw [addPath_of_unknown seen, if_neg seen, List.append_assoc, List.singleton_append]

/-- The logs to replay are those beside the hive, then the named ones that are none of the paths
before them. -/
theorem logPaths_eq (tree : FileTree) (path : String) (options : LoadOptions) :
    tree.logPaths path options =
      tree.discoverLogs path ++ unseen (tree.discoverLogs path) options.extraLogs :=
  foldl_addPath _ _

theorem sorted_mergeSort (names : List String) :
    (names.mergeSort fun a b => !decide (b < a)).Pairwise (· ≤ ·) := by
  refine (List.pairwise_mergeSort ?_ ?_ names).imp ?_
  · intro a b c
    simp only [Bool.not_eq_true', decide_eq_false_iff_not, String.not_lt]
    exact String.le_trans
  · intro a b
    simp only [Bool.or_eq_true, Bool.not_eq_true', decide_eq_false_iff_not, String.not_lt]
    exact String.le_total a b
  · intro a b
    simp only [Bool.not_eq_true', decide_eq_false_iff_not, String.not_lt]
    exact id

/-- The logs beside a hive come in the order of their names. -/
theorem exists_sorted_names (tree : FileTree) (path : String) :
    ∃ names : List String, tree.discoverLogs path = names.map (join (directory path)) ∧
      names.Pairwise (· ≤ ·) := by
  unfold discoverLogs
  split
  · exact ⟨[], rfl, List.Pairwise.nil⟩
  · exact ⟨_, rfl, sorted_mergeSort _⟩

/-- The logs are those that stand at the paths, in order. -/
inductive Gathers (tree : FileTree) : List String → List TransactionLog → Prop
  | nil : Gathers tree [] []
  /-- The file is a log. -/
  | log {path : String} {bytes : ByteArray} {log : TransactionLog} {rest : List String}
      {logs : List TransactionLog} (read : tree.read path = .ok bytes)
      (decoded : TransactionLog.decode bytes = .ok log) (later : Gathers tree rest logs) :
      Gathers tree (path :: rest) ({ log with path := some path } :: logs)
  /-- There is no file, or it cannot be read. -/
  | unreadable {path : String} {failure : ReadFailure} {rest : List String}
      {logs : List TransactionLog} (failed : tree.read path = .error failure)
      (later : Gathers tree rest logs) : Gathers tree (path :: rest) logs
  /-- The file is no log. -/
  | foreign {path : String} {bytes : ByteArray} {error : HiveError} {rest : List String}
      {logs : List TransactionLog} (read : tree.read path = .ok bytes)
      (refused : TransactionLog.decode bytes = .error error) (later : Gathers tree rest logs) :
      Gathers tree (path :: rest) logs

/-- The logs that are loaded are those that stand at the paths. -/
theorem gathers_loadLogs (tree : FileTree) (paths : List String) :
    Gathers tree paths (tree.loadLogs paths) := by
  induction paths with
  | nil => exact .nil
  | cons path rest ih =>
      rw [loadLogs, List.filterMap_cons]
      cases read : tree.read path with
      | error failure =>
          have lost : tree.loadLog path = .error (.ofReadFailure path failure) := by
            simp only [loadLog, readFor, read]
          rw [lost]
          exact .unreadable read ih
      | ok bytes =>
          cases decoded : TransactionLog.decode bytes with
          | error error =>
              have lost : tree.loadLog path = .error error := by
                simp only [loadLog, readFor, read, decoded, Except.map]
              rw [lost]
              exact .foreign read decoded ih
          | ok log =>
              have found : tree.loadLog path = .ok { log with path := some path } := by
                simp only [loadLog, readFor, read, decoded, Except.map]
              rw [found]
              exact .log read decoded ih

end FileTree

end RegistryHive
