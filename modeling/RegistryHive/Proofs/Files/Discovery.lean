import RegistryHive.Proofs.Files.FileNames
import RegistryHive.Proofs.Files.LogPaths
import RegistryHive.Proofs.Text.ByteOrder

/-!
# Which logs are found

A directory is listed in some order, and the logs in it are sorted by their names.
A file tree is `Proper` when it could be that of a file system: every name can
stand in a directory, and nothing stands in one place twice. Then the listing has
each name once, and what stands at a path does not depend on its order, so that
the same logs are found in any order of the listing (`logNames_relists`).

Whether a listed name is that of a file is asked by the path that joins it to the
directory. This path leads to where the name stands, unless it has become too long
to be looked up (`isFile_join_iff`): a directory can be listed by a path at whose
end there is no room for a name any more.
-/

namespace RegistryHive

open FilePath

namespace FileTree

/-- Nothing stands in one place twice, and everything has names. -/
@[mk_iff]
structure Proper (tree : FileTree) : Prop where
  distinct : (tree.entries.map Prod.fst).Nodup
  isName : ∀ entry ∈ tree.entries, ∀ name ∈ entry.1, IsName name

instance (tree : FileTree) : Decidable tree.Proper := decidable_of_iff' _ tree.proper_iff

/-- One tree holds what another one holds, perhaps in another listing order. -/
structure Relists (listed tree : FileTree) : Prop where
  order : listed.entries.Perm tree.entries
  workingDirectory : listed.workingDirectory = tree.workingDirectory

section Listing

variable {tree listed : FileTree} (distinct : (tree.entries.map Prod.fst).Nodup)

include distinct

/-- What is stored under a list of names stands there. -/
theorem lookup_eq_some_iff {names : List String} {node : FileNode} :
    tree.entries.lookup names = some node ↔ (names, node) ∈ tree.entries := by
  constructor
  · intro found
    obtain ⟨before, after, split, -⟩ := List.lookup_eq_some_iff.mp found
    rw [split]
    exact List.mem_append_right before List.mem_cons_self
  · intro member
    obtain ⟨before, after, split⟩ := List.append_of_mem member
    refine List.lookup_eq_some_iff.mpr ⟨before, after, split, ?_⟩
    intro entry earlier
    rw [split, List.map_append, List.nodup_append] at distinct
    have other := distinct.2.2 entry.1 (List.mem_map_of_mem earlier) names List.mem_cons_self
    exact bne_iff_ne.mpr other.symm

/-- What has a name stands where it is stored, and nowhere else. -/
theorem node?_concat_iff {names : List String} {name : String} {node : FileNode} :
    tree.node? (names ++ [name]) = some node ↔ (names ++ [name], node) ∈ tree.entries := by
  rw [← lookup_eq_some_iff distinct, node?, if_neg (by simp)]

/-- What stands somewhere does not depend on the order of the listing. -/
theorem Relists.node?_eq (relists : listed.Relists tree) (names : List String) :
    listed.node? names = tree.node? names := by
  have distinct' : (listed.entries.map Prod.fst).Nodup :=
    (relists.order.map Prod.fst).nodup_iff.mpr distinct
  have same : listed.entries.lookup names = tree.entries.lookup names := by
    apply Option.ext
    intro node
    rw [lookup_eq_some_iff distinct, lookup_eq_some_iff distinct', relists.order.mem_iff]
  rw [node?, node?, same]

/-- Nor does it matter to where a path leads. -/
theorem Relists.locate_eq (relists : listed.Relists tree) (path : String) :
    listed.locate path = tree.locate path := by
  have step : listed.follow = tree.follow := by
    funext names piece
    simp only [follow, relists.node?_eq distinct]
  rw [locate, locate, start, start, step, relists.workingDirectory]

theorem Relists.isFile_eq (relists : listed.Relists tree) (path : String) :
    listed.isFile path = tree.isFile path := by
  simp only [isFile, relists.locate_eq distinct, relists.node?_eq distinct]

theorem Relists.namesIn_perm (relists : listed.Relists tree) (directory : String) :
    (listed.namesIn directory).Perm (tree.namesIn directory) := by
  simp only [namesIn, relists.locate_eq distinct, relists.node?_eq distinct]
  split
  · split
    · exact relists.order.filterMap _
    · exact List.Perm.refl _
  · exact List.Perm.refl _

end Listing

/-- A directory stands under a list of names, and the path leads there. -/
def HasDirectory (tree : FileTree) (directory : String) (names : List String) : Prop :=
  tree.locate directory = .ok names ∧ tree.node? names = some .directory

/-- A file stands under a name in the directory at a path. -/
def HasFile (tree : FileTree) (directory name : String) : Prop :=
  ∃ names node, tree.HasDirectory directory names ∧
    tree.node? (names ++ [name]) = some node ∧ node ≠ .directory

section Directories

variable {tree listed : FileTree} {directory name : String} {names : List String}

theorem namesIn_eq (found : tree.HasDirectory directory names) :
    tree.namesIn directory = tree.entries.filterMap fun entry =>
      if entry.1.dropLast == names then entry.1.getLast? else none := by
  rw [namesIn, found.1]
  simp only [found.2]

theorem hasDirectory_of_mem_namesIn (member : name ∈ tree.namesIn directory) :
    ∃ names, tree.HasDirectory directory names := by
  unfold namesIn at member
  split at member
  · rename_i names place
    split at member
    · rename_i folder
      exact ⟨names, place, folder⟩
    · cases member
  · cases member

/-- The name of an entry in a directory is the last one of its names. -/
theorem nameIn_eq_some_iff {entry : List String × FileNode} :
    (if entry.1.dropLast == names then entry.1.getLast? else none) = some name ↔
      entry.1 = names ++ [name] := by
  constructor
  · intro found
    split at found
    · rename_i inside
      obtain ⟨before, split⟩ := List.getLast?_eq_some_iff.mp found
      rw [split, List.dropLast_concat, beq_iff_eq] at inside
      rw [split, inside]
    · cases found
  · intro split
    rw [split, List.dropLast_concat, if_pos (beq_self_eq_true names), List.getLast?_concat]

theorem mem_namesIn_iff (found : tree.HasDirectory directory names) :
    name ∈ tree.namesIn directory ↔ ∃ node, (names ++ [name], node) ∈ tree.entries := by
  simp only [namesIn_eq found, List.mem_filterMap, nameIn_eq_some_iff]
  constructor
  · rintro ⟨⟨_, node⟩, member, rfl⟩
    exact ⟨node, member⟩
  · rintro ⟨node, member⟩
    exact ⟨_, member, rfl⟩

/-- No name is listed twice. -/
theorem nodup_namesIn (distinct : (tree.entries.map Prod.fst).Nodup) (directory : String) :
    (tree.namesIn directory).Nodup := by
  have entries := List.pairwise_map.mp distinct
  unfold namesIn
  split
  · split
    · refine entries.filterMap _ ?_
      intro entry other different name found name' found' same
      apply different
      rw [nameIn_eq_some_iff.mp found, nameIn_eq_some_iff.mp found', same]
    · exact List.nodup_nil
  · exact List.nodup_nil

/-- A blank piece leads from a directory to itself, and to nowhere else. -/
theorem eq_of_follow_empty {place : List String} (found : tree.follow place "" = .ok names) :
    place = names := by
  simp only [follow] at found
  split at found
  · cases found
  · cases found
  · cases found
  · exact Except.ok.inj found

/-- A name that is there is found in its directory. -/
theorem follow_name (folder : tree.node? names = some .directory) (isName : IsName name)
    (there : (tree.node? (names ++ [name])).isSome) :
    tree.follow names name = .ok (names ++ [name]) := by
  simp only [follow, folder]
  rw [isName.nonblank, if_neg Bool.false_ne_true, if_neg (by simpa using isName.not_parent),
    if_neg (Nat.not_lt.mpr isName.short), if_pos there]

theorem locate_eq_ok_iff {path : String} {place : List String} :
    tree.locate path = .ok place ↔
      '\x00' ∉ path.toList ∧ path.utf8ByteSize < pathSizeLimit ∧ path ≠ "" ∧
        (pieces path).foldlM tree.follow (tree.start path) = .ok place := by
  rw [locate]
  split
  · rename_i unusable
    simp only [Bool.or_eq_true, List.contains_iff_mem, decide_eq_true_eq] at unusable
    constructor
    · intro found
      cases found
    · rintro ⟨nul_free, short, -⟩
      exact absurd unusable (not_or.mpr ⟨nul_free, Nat.not_le.mpr short⟩)
  · rename_i usable
    simp only [Bool.or_eq_true, List.contains_iff_mem, decide_eq_true_eq, not_or,
      Nat.not_le] at usable
    split
    · rename_i empty
      simp [beq_iff_eq.mp empty]
    · rename_i nonempty
      simp only [beq_iff_eq] at nonempty
      simp only [usable.1, usable.2, nonempty, not_false_eq_true, ne_eq, true_and]

/-- An empty piece at the end of a walk to a directory makes no difference. -/
theorem foldlM_concat_empty {front start : List String}
    (walked : (front ++ [""]).foldlM tree.follow start = .ok names) :
    front.foldlM tree.follow start = .ok names := by
  rw [List.foldlM_append] at walked
  cases before : front.foldlM tree.follow start with
  | error failure =>
      rw [before] at walked
      cases walked
  | ok place =>
      rw [before] at walked
      have last : tree.follow place "" = .ok names := by
        have step : (tree.follow place "" >>= pure) = .ok names := walked
        rwa [bind_pure] at step
      rw [eq_of_follow_empty last]

/-- The path of a directory and a name leads to what stands there, unless it is too long. -/
theorem locate_join (found : tree.HasDirectory directory names) (isName : IsName name)
    (there : (tree.node? (names ++ [name])).isSome)
    (short : (join directory name).utf8ByteSize < pathSizeLimit) :
    tree.locate (join directory name) = .ok (names ++ [name]) := by
  obtain ⟨place, folder⟩ := found
  obtain ⟨nul_free, -, nonempty, walked⟩ := locate_eq_ok_iff.mp place
  obtain ⟨separator, joined, plain⟩ := exists_join_eq_append directory name
  obtain ⟨front, -, pieces_eq, ends⟩ := exists_pieces_join directory isName.simple
  have before : front.foldlM tree.follow (tree.start directory) = .ok names := by
    rcases ends with same | ended
    · rwa [same] at walked
    · rw [ended] at walked
      exact foldlM_concat_empty walked
  refine locate_eq_ok_iff.mpr ⟨?_, short, ?_, ?_⟩
  · rw [joined, String.toList_append, String.toList_append]
    simp [nul_free, plain, isName.nul_free]
  · rw [joined]
    simp [nonempty]
  · rw [start, isAbsolute_join nonempty, ← start, pieces_eq, List.foldlM_append, before]
    change (tree.follow names name >>= pure) = _
    rw [follow_name folder isName there]
    rfl

theorem isFile_eq_true_iff {path : String} :
    tree.isFile path = true ↔ ∃ names node, tree.locate path = .ok names ∧
      tree.node? names = some node ∧ node ≠ .directory := by
  rw [isFile]
  cases tree.locate path with
  | error failure => simp
  | ok names =>
      simp only [Except.ok.injEq, exists_and_left, exists_eq_left']
      cases tree.node? names with
      | none => simp
      | some node => cases node <;> simp

/-- A file is found at the path of a directory and its name, unless the path is too long. -/
theorem isFile_join_iff (found : tree.HasDirectory directory names) (isName : IsName name)
    (there : (tree.node? (names ++ [name])).isSome) :
    tree.isFile (join directory name) = true ↔
      tree.HasFile directory name ∧ (join directory name).utf8ByteSize < pathSizeLimit := by
  rw [isFile_eq_true_iff]
  constructor
  · rintro ⟨names', node, place, stands, file⟩
    have short := (locate_eq_ok_iff.mp place).2.1
    rw [locate_join found isName there short] at place
    obtain rfl : names ++ [name] = names' := by simpa using place
    exact ⟨⟨names, node, found, stands, file⟩, short⟩
  · rintro ⟨⟨names', node, found', stands, file⟩, short⟩
    obtain rfl : names = names' := by simpa [found.1] using found'.1
    exact ⟨names ++ [name], node, locate_join found isName there short, stands, file⟩

end Directories

section Logs

variable {tree listed : FileTree} {path hiveName name : String}

/-- The names of the logs that are found beside a hive, in order. -/
def logNames (tree : FileTree) (path hiveName : String) : List String :=
  ((tree.namesIn (directory path)).filter fun name =>
    tree.isFile (join (directory path) name) && isLogOf hiveName name).mergeSort
      fun a b => !decide (b < a)

theorem HasFile.isName {directory : String} (hasFile : tree.HasFile directory name)
    (proper : tree.Proper) : IsName name := by
  obtain ⟨names, node, -, stands, -⟩ := hasFile
  have entry := (node?_concat_iff proper.distinct).mp stands
  exact proper.isName _ entry name (List.mem_append_right names List.mem_cons_self)

theorem discoverLogs_eq (named : fileName? path = some hiveName) :
    tree.discoverLogs path = (tree.logNames path hiveName).map (join (directory path)) := by
  rw [discoverLogs, named]
  rfl

theorem mem_logNames_iff (proper : tree.Proper) :
    name ∈ tree.logNames path hiveName ↔ tree.HasFile (directory path) name ∧
      IsLogName hiveName name ∧ (join (directory path) name).utf8ByteSize < pathSizeLimit := by
  rw [logNames, List.mem_mergeSort, List.mem_filter, Bool.and_eq_true, isLogOf_iff]
  constructor
  · rintro ⟨member, file, logName⟩
    obtain ⟨names, found⟩ := hasDirectory_of_mem_namesIn member
    obtain ⟨node, entry⟩ := (mem_namesIn_iff found).mp member
    have isName := proper.isName _ entry name (List.mem_append_right names List.mem_cons_self)
    have stands := (node?_concat_iff proper.distinct).mpr entry
    obtain ⟨hasFile, short⟩ :=
      (isFile_join_iff found isName (Option.isSome_of_eq_some stands)).mp file
    exact ⟨hasFile, logName, short⟩
  · rintro ⟨hasFile, logName, short⟩
    have isName := hasFile.isName proper
    obtain ⟨names, node, found, stands, -⟩ := id hasFile
    have entry := (node?_concat_iff proper.distinct).mp stands
    exact ⟨(mem_namesIn_iff found).mpr ⟨node, entry⟩,
      (isFile_join_iff found isName (Option.isSome_of_eq_some stands)).mpr ⟨hasFile, short⟩,
      logName⟩

theorem nodup_logNames (proper : tree.Proper) : (tree.logNames path hiveName).Nodup := by
  rw [logNames, (List.mergeSort_perm _ _).nodup_iff]
  exact (nodup_namesIn proper.distinct _).filter _

/-- The names come in the strict order of their bytes. -/
theorem ascending_logNames (proper : tree.Proper) :
    (tree.logNames path hiveName).Pairwise fun a b => Text.utf8Bytes a < Text.utf8Bytes b := by
  refine ((sorted_mergeSort _).and (nodup_logNames proper)).imp ?_
  rintro a b ⟨le, ne⟩
  have lt : a < b := String.not_le.mp fun ge => ne (String.le_antisymm le ge)
  exact Text.utf8Bytes_lt lt

/-- Whatever the order in which a directory is listed, the sorted names are the same. -/
theorem logNames_relists (proper : tree.Proper) (relists : listed.Relists tree) :
    listed.logNames path hiveName = tree.logNames path hiveName := by
  have names : (listed.logNames path hiveName).Perm (tree.logNames path hiveName) := by
    simp only [logNames, relists.isFile_eq proper.distinct]
    refine (List.mergeSort_perm _ _).trans (.trans ?_ (List.mergeSort_perm _ _).symm)
    exact (relists.namesIn_perm proper.distinct _).filter _
  exact names.eq_of_pairwise (fun _ _ _ _ => String.le_antisymm) (sorted_mergeSort _)
    (sorted_mergeSort _)

/-- Which logs are found beside a hive, and in which order.

However the directory is listed, the same paths are found: those of some names in the directory of
the hive, in the strict order of the bytes of these names. The names are exactly those under which a
file stands there, which are names of logs of this hive, and whose paths are not too long to be
looked up. -/
theorem discoverLogs_exact (proper : tree.Proper) (named : fileName? path = some hiveName) :
    ∃ names : List String,
      (∀ listed : FileTree, listed.Relists tree →
        listed.discoverLogs path = names.map (join (directory path))) ∧
      (∀ name ∈ names, fileName? (join (directory path) name) = some name) ∧
      names.Pairwise (fun a b => Text.utf8Bytes a < Text.utf8Bytes b) ∧
      ∀ name, name ∈ names ↔ tree.HasFile (directory path) name ∧ IsLogName hiveName name ∧
        (join (directory path) name).utf8ByteSize < pathSizeLimit := by
  refine ⟨tree.logNames path hiveName, ?_, ?_, ascending_logNames proper,
    fun _ => mem_logNames_iff proper⟩
  · intro listed relists
    rw [discoverLogs_eq named, logNames_relists proper relists]
  · intro name member
    obtain ⟨hasFile, -⟩ := (mem_logNames_iff proper).mp member
    exact fileName?_join _ (hasFile.isName proper)

/-- A hive with files around it that are logs of it and files that are not, beside the working
directory. -/
def crowdedFiles : FileTree where
  entries := [(["work"], .directory), (["case"], .directory),
    (["case", "SYSTEM.hve"], .file .empty), (["case", "system.LOG2"], .file .empty),
    (["case", "SYSTEM.hve.log"], .file .empty), (["case", "OTHER.LOG1"], .file .empty),
    (["case", "SYSTEM.LOG"], .directory),
    (["case", "SYSTEM.LOG1"], .unreadable .permissionDenied)]
  workingDirectory := ["work"]

/-- In either order of the listing the logs are found whose names begin as that of the hive does,
in any case; a directory and the log of another hive are passed over. -/
theorem discoverLogs_exact_crowdedFiles :
    crowdedFiles.Proper ∧ fileName? "../case/SYSTEM.hve" = some "SYSTEM.hve" ∧
      ∃ names : List String,
        crowdedFiles.discoverLogs "../case/SYSTEM.hve" = names.map (join "../case") ∧
        FileTree.discoverLogs { crowdedFiles with entries := crowdedFiles.entries.reverse }
          "../case/SYSTEM.hve" = names.map (join "../case") ∧
        "system.LOG2" ∈ names ∧ "SYSTEM.hve.log" ∈ names ∧ "SYSTEM.LOG1" ∈ names ∧
        "OTHER.LOG1" ∉ names ∧ "SYSTEM.LOG" ∉ names := by
  have proper : crowdedFiles.Proper := by decide
  have named : fileName? "../case/SYSTEM.hve" = some "SYSTEM.hve" := rfl
  have beside : directory "../case/SYSTEM.hve" = "../case" := rfl
  have found : crowdedFiles.HasDirectory "../case" ["case"] := ⟨rfl, rfl⟩
  obtain ⟨names, same, -, -, exactly⟩ := discoverLogs_exact proper named
  rw [beside] at same exactly
  have isLog : ∀ name ∈ ["system.LOG2", "SYSTEM.hve.log", "SYSTEM.LOG1"],
      isLogOf "SYSTEM.hve" name = true ∧
        (join "../case" name).utf8ByteSize < pathSizeLimit := by
    simp only [isLogOf, Text.lowerCase_eq]
    decide
  have foreign : isLogOf "SYSTEM.hve" "OTHER.LOG1" = false := by
    simp only [isLogOf, Text.lowerCase_eq]
    rfl
  have listed {name : String} {node : FileNode}
      (stands : crowdedFiles.node? ["case", name] = some node) (file : node ≠ .directory)
      (member : name ∈ ["system.LOG2", "SYSTEM.hve.log", "SYSTEM.LOG1"]) : name ∈ names :=
    (exactly name).mpr ⟨⟨_, node, found, stands, file⟩, isLogOf_iff.mp (isLog name member).1,
      (isLog name member).2⟩
  refine ⟨proper, named, names, same _ ⟨List.Perm.refl _, rfl⟩, same _ ⟨List.reverse_perm _, rfl⟩,
    listed rfl (by decide) (by decide), listed rfl (by decide) (by decide),
    listed rfl (by decide) (by decide), ?_, ?_⟩
  · intro member
    have named' := isLogOf_iff.mpr ((exactly _).mp member).2.1
    rw [foreign] at named'
    cases named'
  · intro member
    obtain ⟨names', node, ⟨place, -⟩, stands, file⟩ := ((exactly _).mp member).1
    obtain rfl : ["case"] = names' := Except.ok.inj place
    exact file (Option.some.inj stands).symm

/-- The path of a directory in the working directory, with steps to the same place before it. -/
def dotted : Nat → String
  | 0 => "d"
  | count + 1 => "." ++ "/" ++ dotted count

theorem pieces_dotted (count : Nat) :
    pieces (dotted count) = List.replicate count "." ++ ["d"] := by
  induction count with
  | zero => rfl
  | succ count ih =>
      rw [dotted, pieces_append, ih]
      rfl

theorem utf8ByteSize_dotted (count : Nat) : (dotted count).utf8ByteSize = 2 * count + 1 := by
  induction count with
  | zero => rfl
  | succ count ih =>
      have sizes : ".".utf8ByteSize = 1 ∧ "/".utf8ByteSize = 1 := ⟨rfl, rfl⟩
      rw [dotted, String.utf8ByteSize_append, String.utf8ByteSize_append, ih]
      omega

theorem nul_free_dotted (count : Nat) : '\x00' ∉ (dotted count).toList := by
  induction count with
  | zero => decide
  | succ count ih => simp [dotted, String.toList_append, ih]

/-- A hive in a directory with its log. -/
def farFiles : FileTree where
  entries := [(["d"], .directory), (["d", "SYSTEM"], .file .empty),
    (["d", "SYSTEM.LOG1"], .file .empty)]
  workingDirectory := []

/-- Steps to the same place lead to the same place. -/
theorem foldlM_replicate_dot {names : List String} (folder : tree.node? names = some .directory)
    (count : Nat) : (List.replicate count ".").foldlM tree.follow names = .ok names := by
  have step : tree.follow names "." = .ok names := by
    simp only [follow, folder]
    rfl
  induction count with
  | zero => rfl
  | succ count ih =>
      rw [List.replicate_succ, List.foldlM_cons, step]
      exact ih

theorem hasDirectory_dotted {count : Nat} (short : 2 * count + 1 < pathSizeLimit) :
    farFiles.HasDirectory (dotted count) ["d"] := by
  refine ⟨locate_eq_ok_iff.mpr ⟨nul_free_dotted count, ?_, ?_, ?_⟩, rfl⟩
  · rwa [utf8ByteSize_dotted]
  · intro empty
    have size := utf8ByteSize_dotted count
    rw [empty] at size
    cases size
  · have here : farFiles.start (dotted count) = [] := by
      rw [start]
      split <;> rfl
    rw [here, pieces_dotted, List.foldlM_append, foldlM_replicate_dot rfl]
    rfl

/-- The log stands in the directory of the hive, and its name is that of a log. The directory can be
listed, but the path of the log is too long to be looked up, so that the log is not found. -/
theorem far_log_passed_over :
    let path := join (dotted 2042) "SYSTEM"
    farFiles.Proper ∧ fileName? path = some "SYSTEM" ∧ directory path = dotted 2042 ∧
      farFiles.HasFile (dotted 2042) "SYSTEM.LOG1" ∧ IsLogName "SYSTEM" "SYSTEM.LOG1" ∧
      farFiles.discoverLogs path = [] := by
  intro path
  have proper : farFiles.Proper := by decide
  have isName : IsName "SYSTEM" := by decide
  have named : fileName? path = some "SYSTEM" := fileName?_join _ isName
  have behind : directory path = dotted 2042 := directory_join (pieces_dotted 2042) rfl isName
  have found : farFiles.HasDirectory (dotted 2042) ["d"] := hasDirectory_dotted (by decide)
  have isLog : isLogOf "SYSTEM" "SYSTEM.LOG1" = true := by
    simp only [isLogOf, Text.lowerCase_eq]
    rfl
  refine ⟨proper, named, behind, ⟨_, _, found, rfl, by decide⟩, isLogOf_iff.mp isLog, ?_⟩
  rw [discoverLogs_eq named, List.map_eq_nil_iff, List.eq_nil_iff_forall_not_mem]
  intro name member
  obtain ⟨⟨names, node, found', stands, -⟩, logName, short⟩ := (mem_logNames_iff proper).mp member
  rw [behind] at found' short
  obtain rfl : ["d"] = names := by simpa [found.1] using found'.1
  have entry : (["d", name], node) ∈ farFiles.entries :=
    (node?_concat_iff proper.distinct).mp stands
  have listed : name = "SYSTEM" ∨ name = "SYSTEM.LOG1" := by
    rcases (by simpa [farFiles] using entry : _ ∨ _) with ⟨same, -⟩ | ⟨same, -⟩
    · exact .inl same
    · exact .inr same
  rcases listed with rfl | rfl
  · rw [← isLogOf_iff] at logName
    simp only [isLogOf, Text.lowerCase_eq] at logName
    exact absurd logName (by decide)
  · have long := le_size_join (dotted 2042) "SYSTEM.LOG1"
    rw [utf8ByteSize_dotted] at long
    exact absurd (Nat.lt_of_le_of_lt long short) (by decide)

end Logs

end FileTree

end RegistryHive
