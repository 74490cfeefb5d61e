import Mathlib.Tactic.MkIffOfInductiveProp
import RegistryHive.Files.LogDiscovery

/-!
# File names and the paths that they end

The name of a file is cut at its last dot, and what stands before it is its stem
unless that is nothing. `CutAtLastDot` and `IsStem` say so about texts, and
`isLogOf_iff` says which names are taken for those of logs.

A name joined to a directory is the last piece of the path, whatever the text of
the directory is (`exists_pieces_join`), so it is the file name of the path.
-/

namespace RegistryHive

namespace FilePath

/-- The text is cut at its last dot: none stands in the part behind it. -/
def CutAtLastDot (text base extension : String) : Prop :=
  text = base ++ "." ++ extension ∧ '.' ∉ extension.toList

theorem cutAtLastDot_iff {text base extension : String} :
    CutAtLastDot text base extension ↔
      text.toList.reverse = extension.toList.reverse ++ '.' :: base.toList.reverse ∧
        '.' ∉ extension.toList := by
  rw [CutAtLastDot, ← String.toList_inj, ← List.reverse_inj]
  simp [String.toList_append]

/-- Seen from the end, the extension is what stands before the first dot. -/
theorem splitAtLastDot?_eq_some_iff {text base extension : String} :
    splitAtLastDot? text = some (base, extension) ↔ CutAtLastDot text base extension := by
  rw [cutAtLastDot_iff]
  constructor
  · intro cut
    have whole := List.takeWhile_append_dropWhile (p := (· ≠ '.')) (l := text.toList.reverse)
    have behind := List.all_takeWhile (p := (· ≠ '.')) (l := text.toList.reverse)
    have stop := List.head?_dropWhile_not (· ≠ '.') text.toList.reverse
    simp only [splitAtLastDot?] at cut
    split at cut
    · cases cut
    · rename_i dot before rest
      rw [rest] at whole stop
      obtain rfl : dot = '.' := by simpa using stop
      obtain ⟨rfl, rfl⟩ := Prod.mk.inj (Option.some.inj cut)
      simp only [String.toList_ofList, List.reverse_reverse, List.mem_reverse]
      refine ⟨whole.symm, fun member => ?_⟩
      simpa using List.all_eq_true.mp behind '.' member
  · rintro ⟨backwards, bare⟩
    have skipped : ∀ c ∈ extension.toList.reverse, decide (c ≠ '.') = true := by
      intro c member
      exact decide_eq_true fun dot => bare (dot ▸ List.mem_reverse.mp member)
    simp only [splitAtLastDot?, backwards, List.dropWhile_append_of_pos skipped,
      List.takeWhile_append_of_pos skipped]
    simp

/-- The stem of a name: what stands before the last dot, if that is something, and else the whole
name. -/
def IsStem (name stem : String) : Prop :=
  (stem ≠ "" ∧ ∃ extension, CutAtLastDot name stem extension) ∨
    (stem = name ∧ ∀ base extension, CutAtLastDot name base extension → base = "")

theorem isStem_iff {name stem : String} : IsStem name stem ↔ stem = FilePath.stem name := by
  simp only [IsStem, ← splitAtLastDot?_eq_some_iff, FilePath.stem]
  cases splitAtLastDot? name with
  | none => simp
  | some parts =>
      obtain ⟨base, extension⟩ := parts
      by_cases hidden : base = ""
      · simp [hidden]
      · have named : stem ≠ "" ∧ base = stem ↔ stem = base :=
          ⟨fun both => both.2.symm, fun same => ⟨same ▸ hidden, same.symm⟩⟩
        simpa [hidden] using named

/-- A name under which something can stand in a directory. -/
@[mk_iff]
structure IsName (name : String) : Prop where
  nonblank : isBlank name = false
  not_parent : name ≠ ".."
  simple : '/' ∉ name.toList
  nul_free : '\x00' ∉ name.toList
  short : name.utf8ByteSize ≤ FileTree.maxNameSize

instance (name : String) : Decidable (IsName name) := decidable_of_iff' _ (isName_iff name)

theorem IsName.part?_eq {name : String} (isName : IsName name) :
    part? name = some (.named name) := by
  rw [part?, isName.nonblank, if_neg Bool.false_ne_true, if_neg (by simpa using isName.not_parent)]

theorem pieces_of_simple {name : String} (simple : '/' ∉ name.toList) : pieces name = [name] := by
  rw [pieces, List.splitOn_eq_singleton simple, List.map_singleton, String.ofList_toList]

/-- A bare name is a path with one part. -/
theorem IsName.parts_eq {name : String} (isName : IsName name) : parts name = [.named name] := by
  have relative : isAbsolute name = false := by
    rw [isAbsolute, beq_eq_false_iff_ne]
    exact fun head => isName.simple (List.mem_of_head? head)
  have no_dot : (name == ".") = false := (Bool.or_eq_false_iff.mp isName.nonblank).2
  simp [parts, pieces_of_simple isName.simple, firstPart?, relative, no_dot, isName.part?_eq]

/-- The directory of a bare name is the current one. -/
theorem IsName.directory_eq {name : String} (isName : IsName name) :
    FilePath.directory name = "." := by
  rw [FilePath.directory, pieces_of_simple isName.simple]
  rfl

theorem pieces_append (path rest : String) :
    pieces (path ++ "/" ++ rest) = pieces path ++ pieces rest := by
  have chars : (path ++ "/" ++ rest).toList = path.toList ++ '/' :: rest.toList := by
    simp [String.toList_append]
  rw [pieces, chars, List.splitOn_append_cons_self, List.map_append]
  rfl

theorem pieces_ne_nil (path : String) : pieces path ≠ [] := by
  simp [pieces, List.splitOn_ne_nil]

theorem eq_append_of_ends {directory : String} (ends : directory.toList.getLast? = some '/') :
    ∃ front : String, directory = front ++ "/" := by
  obtain ⟨chars, split⟩ := List.getLast?_eq_some_iff.mp ends
  refine ⟨String.ofList chars, String.toList_inj.mp ?_⟩
  rw [split, String.toList_append, String.toList_ofList]
  rfl

/-- A joined path is the text of the directory, ended by a slash, and the name. -/
theorem exists_join_eq (directory name : String) :
    ∃ front, join directory name = front ++ "/" ++ name ∧
      (directory = front ∨ directory = front ++ "/") := by
  rw [join]
  split
  · rename_i ends
    obtain ⟨front, split⟩ := eq_append_of_ends (by simpa using ends)
    exact ⟨front, by rw [split], .inr split⟩
  · exact ⟨directory, rfl, .inl rfl⟩

/-- A name is the last piece of the path that joins it to a directory. The pieces before it are
those of the directory, but for the empty one behind a slash at its end. -/
theorem exists_pieces_join (directory : String) {name : String} (simple : '/' ∉ name.toList) :
    ∃ front, front ≠ [] ∧ pieces (join directory name) = front ++ [name] ∧
      (pieces directory = front ∨ pieces directory = front ++ [""]) := by
  obtain ⟨front, joined, same | ended⟩ := exists_join_eq directory name
  all_goals
    refine ⟨pieces front, pieces_ne_nil front, ?_, ?_⟩
    · rw [joined, pieces_append, pieces_of_simple simple]
  · exact .inl (congrArg pieces same)
  · right
    rw [ended, ← String.append_empty (s := front ++ "/"), pieces_append]
    rfl

/-- The file name of a joined path is the name. -/
theorem fileName?_join (directory : String) {name : String} (isName : IsName name) :
    fileName? (join directory name) = some name := by
  obtain ⟨front, nonempty, joined, -⟩ := exists_pieces_join directory isName.simple
  obtain ⟨first, rest, rfl⟩ := List.exists_cons_of_ne_nil nonempty
  have last : (parts (join directory name)).getLast? = some (.named name) := by
    rw [parts, joined]
    simp [List.filterMap_append, isName.part?_eq]
  rw [fileName?, last]

/-- What is joined to the current directory begins with it. -/
theorem head?_parts_join_dot (name : String) :
    (parts (join "." name)).head? = some .current := by
  have joined : join "." name = "." ++ "/" ++ name := rfl
  have relative : isAbsolute ("." ++ "/" ++ name) = false := by
    simp [isAbsolute, String.toList_append]
  have dot : pieces "." = ["."] := rfl
  rw [parts, joined, pieces_append, dot, List.singleton_append]
  simp only [firstPart?, relative]
  rfl

/-- A joined path begins with the text of the directory, and behind the name stands nothing. -/
theorem exists_join_eq_append (directory name : String) :
    ∃ separator, join directory name = directory ++ separator ++ name ∧
      '\x00' ∉ separator.toList := by
  rw [join]
  split
  · exact ⟨"", by rw [String.append_empty], by decide⟩
  · exact ⟨"/", rfl, by decide⟩

theorem le_size_join (directory name : String) :
    directory.utf8ByteSize + name.utf8ByteSize ≤ (join directory name).utf8ByteSize := by
  obtain ⟨separator, joined, -⟩ := exists_join_eq_append directory name
  rw [joined, String.utf8ByteSize_append, String.utf8ByteSize_append]
  omega

/-- A joined path is absolute if the directory is. -/
theorem isAbsolute_join {directory : String} (nonempty : directory ≠ "") (name : String) :
    isAbsolute (join directory name) = isAbsolute directory := by
  obtain ⟨separator, joined, -⟩ := exists_join_eq_append directory name
  have chars : directory.toList ≠ [] := fun empty => nonempty (String.toList_eq_nil_iff.mp empty)
  obtain ⟨first, rest, split⟩ := List.exists_cons_of_ne_nil chars
  rw [isAbsolute, isAbsolute, joined, String.append_assoc, String.toList_append, split]
  rfl

theorem trimEnd_concat (front : List String) {last : String} (visible : isBlank last = false) :
    trimEnd (front ++ [last]) = front ++ [last] := by
  cases front with
  | nil => rfl
  | cons first rest =>
      rw [List.cons_append, trimEnd, List.reverse_append, List.reverse_singleton,
        List.singleton_append, List.dropWhile_cons_of_neg (by simp [visible]), List.reverse_cons,
        List.reverse_reverse]

/-- A path is its pieces with slashes between them. -/
theorem intercalate_pieces (path : String) : "/".intercalate (pieces path) = path := by
  apply String.toList_inj.mp
  have texts : (pieces path).map String.toList = path.toList.splitOn '/' := by
    rw [pieces, List.map_map]
    exact (List.map_congr_left fun _ _ => String.toList_ofList).trans (List.map_id _)
  rw [String.toList_intercalate, texts]
  exact List.intercalate_splitOn '/'

/-- A directory whose text ends in a name is the directory of the paths joined to it. -/
theorem directory_join {directory name last : String} {front : List String}
    (split : pieces directory = front ++ [last]) (visible : isBlank last = false)
    (isName : IsName name) : FilePath.directory (join directory name) = directory := by
  have joined : pieces (join directory name) = pieces directory ++ [name] := by
    obtain ⟨before, -, joined, same | ended⟩ := exists_pieces_join directory isName.simple
    · rw [joined, same]
    · obtain ⟨-, same⟩ := List.append_inj' (split.symm.trans ended) rfl
      obtain rfl := List.singleton_inj.mp same
      cases visible
  rw [FilePath.directory, joined, trimEnd_concat _ isName.nonblank, List.dropLast_concat, split,
    trimEnd_concat _ visible, ← split]
  split
  · rename_i none_left
    exact absurd none_left (pieces_ne_nil directory)
  · rename_i only_empty
    have member : last ∈ pieces directory := by
      rw [split]
      exact List.mem_append_right front List.mem_cons_self
    rw [only_empty] at member
    obtain rfl := List.mem_singleton.mp member
    cases visible
  · exact intercalate_pieces directory

end FilePath

open FilePath

/-- The name is that of a log of a hive. In lower case it has one of the three extensions, and
before that stands the stem of the hive or its whole name. -/
def IsLogName (hiveName name : String) : Prop :=
  ∃ base extension, CutAtLastDot (Text.lowerCase name) base extension ∧
    extension ∈ ["log", "log1", "log2"] ∧
    ((∃ stem, IsStem hiveName stem ∧ base = Text.lowerCase stem) ∨
      base = Text.lowerCase hiveName)

theorem isLogOf_iff {hiveName name : String} :
    isLogOf hiveName name = true ↔ IsLogName hiveName name := by
  simp only [IsLogName, isStem_iff, exists_eq_left, ← splitAtLastDot?_eq_some_iff, isLogOf]
  cases splitAtLastDot? (Text.lowerCase name) with
  | none => simp
  | some parts =>
      obtain ⟨base, extension⟩ := parts
      simp only [logExtensions, List.contains_iff_mem, Option.some.injEq, Prod.mk.injEq,
        Bool.and_eq_true, Bool.or_eq_true, beq_iff_eq]
      constructor
      · intro named
        exact ⟨base, extension, ⟨rfl, rfl⟩, named⟩
      · rintro ⟨_, _, ⟨rfl, rfl⟩, named⟩
        exact named

end RegistryHive
