import RegistryHive.Payload
import RegistryHive.Proofs.ByteParts

/-!
# Payloads in segments

The payload of a big data header is made of the beginnings of its segment cells. The loop stops
as soon as it has enough, so a cell that cannot be read does harm only when the loop gets
that far: `IsBlocked` says when it does. Whatever the loop has put together so far, it
appends the first missing bytes of the cells that are left
(`BigData.appendSegments_eq_ok_iff`), and from this everything else follows.
-/

namespace RegistryHive

namespace HiveImage

variable (image : HiveImage)

/-- The bytes of a segment cell that can belong to a payload. There are none in a cell that cannot
be read. -/
def segmentPart (cell : UInt32) : ByteArray :=
  match image.readCell cell with
  | .ok body => body.extract 0 segmentLimit
  | .error _ => ByteArray.empty

/-- The parts of segment cells, one after the other. -/
def segmentParts (cells : List UInt32) : ByteArray := joined (cells.map image.segmentPart)

/-- One of these segment cells cannot be read although it is needed, since the parts of the cells
before it are not enough. -/
def IsBlocked (needed : Nat) (cells : List UInt32) : Prop :=
  ∃ before cell after, cells = before ++ cell :: after ∧
    (∃ error, image.readCell cell = .error error) ∧ (image.segmentParts before).size < needed

variable {image} {needed : Nat} {cell : UInt32} {cells rest : List UInt32}

theorem segmentPart_of_readCell {body : ByteArray} (read : image.readCell cell = .ok body) :
    image.segmentPart cell = body.extract 0 segmentLimit := by
  rw [segmentPart, read]

theorem size_segmentPart_le : (image.segmentPart cell).size ≤ segmentLimit := by
  rw [segmentPart]
  split
  · rw [ByteArray.size_extract]
    omega
  · exact Nat.zero_le segmentLimit

theorem size_segmentParts_le :
    (image.segmentParts cells).size ≤ cells.length * segmentLimit := by
  induction cells with
  | nil => exact Nat.zero_le _
  | cons cell rest ih =>
      have first : (image.segmentPart cell).size ≤ segmentLimit := size_segmentPart_le
      have split : (image.segmentParts (cell :: rest)).size =
          (image.segmentPart cell).size + (image.segmentParts rest).size := ByteArray.size_append
      rw [split, List.length_cons, Nat.succ_mul]
      omega

theorem extract_segmentParts_cons : (image.segmentParts (cell :: rest)).extract 0 needed =
    (image.segmentPart cell).extract 0 needed ++
      (image.segmentParts rest).extract 0 (needed - (image.segmentPart cell).size) := by
  have split : image.segmentParts (cell :: rest) =
      image.segmentPart cell ++ image.segmentParts rest := rfl
  rw [split, ByteArray.extract_append, Nat.zero_sub]

theorem not_isBlocked_nil : ¬ image.IsBlocked needed [] := by
  rintro ⟨before, cell, after, empty, -⟩
  exact List.append_ne_nil_of_right_ne_nil before (List.cons_ne_nil cell after) empty.symm

theorem not_isBlocked_zero : ¬ image.IsBlocked 0 cells := by
  rintro ⟨_, _, _, _, _, less⟩
  exact Nat.not_lt_zero _ less

/-- A cell that cannot be read is needed as long as something is needed. -/
theorem isBlocked_of_error {error : HiveError} (unreadable : image.readCell cell = .error error)
    (some : 0 < needed) : image.IsBlocked needed (cell :: rest) :=
  ⟨[], cell, rest, rfl, ⟨error, unreadable⟩, some⟩

/-- Behind a cell that can be read, less is needed. -/
theorem isBlocked_cons_iff {body : ByteArray} (read : image.readCell cell = .ok body) :
    image.IsBlocked needed (cell :: rest) ↔
      image.IsBlocked (needed - (image.segmentPart cell).size) rest := by
  have split (before : List UInt32) : (image.segmentParts (cell :: before)).size =
      (image.segmentPart cell).size + (image.segmentParts before).size := ByteArray.size_append
  constructor
  · rintro ⟨before, other, after, eq, ⟨error, unreadable⟩, less⟩
    cases before with
    | nil =>
        obtain ⟨rfl, rfl⟩ := List.cons.inj eq
        cases read.symm.trans unreadable
    | cons first before =>
        obtain ⟨rfl, rfl⟩ := List.cons.inj eq
        rw [split] at less
        exact ⟨before, other, after, rfl, ⟨error, unreadable⟩, by omega⟩
  · rintro ⟨before, other, after, rfl, unreadable, less⟩
    refine ⟨cell :: before, other, after, rfl, unreadable, ?_⟩
    rw [split]
    omega

/-- Less is blocked when less is needed. -/
theorem IsBlocked.mono {more : Nat} (blocked : image.IsBlocked needed cells)
    (le : needed ≤ more) : image.IsBlocked more cells := by
  obtain ⟨before, cell, after, eq, unreadable, less⟩ := blocked
  exact ⟨before, cell, after, eq, unreadable, Nat.lt_of_lt_of_le less le⟩

end HiveImage

namespace BigData

/-- The cells that a segment list names for a header. -/
def segmentCells (header : BigData) (list : ByteArray) : List UInt32 :=
  (List.range header.segmentCount.toNat).map fun i => u32At list (4 * i)

theorem length_segmentCells (header : BigData) (list : ByteArray) :
    (header.segmentCells list).length = header.segmentCount.toNat := by
  rw [segmentCells, List.length_map, List.length_range]

variable {image : HiveImage} {header : BigData} {length : Nat} {payload result : ByteArray}

section Loop

variable {list : ByteView} {count i : Nat}

/-- The loop ends when the payload has the length that is asked for. -/
theorem appendSegments_of_le (enough : length ≤ payload.size) :
    appendSegments image list length count i payload = .ok payload := by
  cases count with
  | zero => rfl
  | succ count => rw [appendSegments, if_pos enough]

/-- The loop fails at a cell that cannot be read. -/
theorem appendSegments_of_error {error : HiveError} (missing : payload.size < length)
    (unreadable : image.readCell (list.u32At (4 * i)) = .error error) :
    appendSegments image list length (count + 1) i payload = .error error := by
  rw [appendSegments, if_neg (Nat.not_le.mpr missing),
    HiveImage.readCell_eq_error_iff.mp unreadable]

/-- The loop appends the missing bytes from the part of a cell. -/
theorem appendSegments_of_readCell {body : ByteArray} (missing : payload.size < length)
    (read : image.readCell (list.u32At (4 * i)) = .ok body) :
    appendSegments image list length (count + 1) i payload =
      appendSegments image list length count (i + 1)
        (payload ++ (image.segmentPart (list.u32At (4 * i))).extract 0
          (length - payload.size)) := by
  obtain ⟨segment, found, rfl⟩ := HiveImage.readCell_eq_ok_iff.mp read
  have appended : (segment.part 0 (min segmentLimit (length - payload.size))).content =
      (image.segmentPart (list.u32At (4 * i))).extract 0 (length - payload.size) := by
    rw [ByteView.content_part, HiveImage.segmentPart_of_readCell read,
      ByteArray.extract_extract, Nat.zero_add, Nat.zero_add, Nat.min_comm]
  rw [appendSegments, if_neg (Nat.not_le.mpr missing), found]
  simp only [appended]

/-- With so many cells left from index `i` on, the loop appends the missing bytes from their parts,
unless they are blocked. -/
theorem appendSegments_eq_ok_iff :
    appendSegments image list length count i payload = .ok result ↔
      ¬ image.IsBlocked (length - payload.size)
          ((List.range' i count).map fun k => list.u32At (4 * k)) ∧
        result = payload ++ (image.segmentParts
          ((List.range' i count).map fun k => list.u32At (4 * k))).extract 0
            (length - payload.size) := by
  induction count generalizing i payload with
  | zero =>
      have none : (image.segmentParts []).extract 0 (length - payload.size) = ByteArray.empty :=
        ByteArray.extract_eq_empty_iff.mpr (Nat.le_of_eq (Nat.min_zero _))
      rw [appendSegments, List.range'_zero, List.map_nil, none, ByteArray.append_empty]
      simp only [HiveImage.not_isBlocked_nil, not_false_eq_true, true_and, Except.ok.injEq]
      exact eq_comm
  | succ count ih =>
      rw [List.range'_succ, List.map_cons]
      by_cases enough : length ≤ payload.size
      · rw [appendSegments_of_le enough, Nat.sub_eq_zero_of_le enough, ByteArray.extract_same,
          ByteArray.append_empty]
        simp only [HiveImage.not_isBlocked_zero, not_false_eq_true, true_and, Except.ok.injEq]
        exact eq_comm
      · have missing := Nat.lt_of_not_le enough
        cases read : image.readCell (list.u32At (4 * i)) with
        | error error =>
            have blocked (rest : List UInt32) :
                image.IsBlocked (length - payload.size) (list.u32At (4 * i) :: rest) :=
              HiveImage.isBlocked_of_error read (Nat.sub_pos_of_lt missing)
            rw [appendSegments_of_error missing read]
            simp only [blocked, not_true_eq_false, false_and, reduceCtorEq]
        | ok body =>
            have left : length - (payload ++ (image.segmentPart (list.u32At (4 * i))).extract 0
                (length - payload.size)).size =
                  length - payload.size - (image.segmentPart (list.u32At (4 * i))).size := by
              rw [ByteArray.size_append, ByteArray.size_extract]
              omega
            rw [appendSegments_of_readCell missing read, ih, left,
              HiveImage.isBlocked_cons_iff read, HiveImage.extract_segmentParts_cons,
              ByteArray.append_assoc]

end Loop

/-- A payload is assembled exactly if the segment list can be read, has room for all segments, and
no cell in the way is blocked. It is then the beginning of what all parts make up. -/
theorem assemble_eq_ok_iff : header.assemble image length = .ok payload ↔
    ∃ list, image.readCell header.segmentList = .ok list ∧
      4 * header.segmentCount.toNat ≤ list.size ∧
      ¬ image.IsBlocked length (header.segmentCells list) ∧
      payload = (image.segmentParts (header.segmentCells list)).extract 0 length := by
  rw [assemble, HiveImage.readCell]
  cases image.cellBody header.segmentList with
  | error error => simp [Except.map]
  | ok view =>
      have cells : (List.range' 0 header.segmentCount.toNat).map (fun k => view.u32At (4 * k)) =
          header.segmentCells view.content := by
        simp only [segmentCells, List.range_eq_range', ByteView.u32At_content]
      simp only [Except.map, Except.ok.injEq, exists_eq_left', ByteView.size_content]
      split
      · rename_i short
        simp only [reduceCtorEq, false_iff]
        rintro ⟨room, -⟩
        omega
      · rename_i room
        rw [appendSegments_eq_ok_iff, cells, ByteArray.size_empty, Nat.sub_zero,
          ByteArray.empty_append]
        exact (and_iff_right (by omega)).symm

/-- What is assembled is no longer than what was asked for, and than the segments can be. -/
theorem size_le_of_assemble (assembled : header.assemble image length = .ok payload) :
    payload.size ≤ min length (header.segmentCount.toNat * segmentLimit) := by
  obtain ⟨list, -, -, -, rfl⟩ := assemble_eq_ok_iff.mp assembled
  have parts : (image.segmentParts (header.segmentCells list)).size ≤
      (header.segmentCells list).length * segmentLimit := HiveImage.size_segmentParts_le
  rw [length_segmentCells] at parts
  rw [ByteArray.size_extract]
  omega

/-- A shorter payload is the beginning of a longer one. -/
theorem assemble_of_le {shorter : Nat} (le : shorter ≤ length)
    (assembled : header.assemble image length = .ok payload) :
    header.assemble image shorter = .ok (payload.extract 0 shorter) := by
  obtain ⟨list, read, room, free, rfl⟩ := assemble_eq_ok_iff.mp assembled
  refine assemble_eq_ok_iff.mpr ⟨list, read, room, fun blocked => free (blocked.mono le), ?_⟩
  rw [ByteArray.extract_extract, Nat.zero_add, Nat.zero_add, Nat.min_eq_left le]

/-- Nothing is assembled exactly if the segment list cannot be read, has no room for all segments,
or names a cell that is blocked. -/
theorem assemble_eq_error_iff : (∃ error, header.assemble image length = .error error) ↔
    (∃ error, image.readCell header.segmentList = .error error) ∨
      ∃ list, image.readCell header.segmentList = .ok list ∧
        (list.size < 4 * header.segmentCount.toNat ∨
          image.IsBlocked length (header.segmentCells list)) := by
  have failed : (∃ error, header.assemble image length = .error error) ↔
      ∀ payload, header.assemble image length ≠ .ok payload := by
    cases header.assemble image length <;> simp
  simp only [failed, ne_eq, assemble_eq_ok_iff]
  cases image.readCell header.segmentList with
  | error error => simp
  | ok list =>
      simp only [Except.ok.injEq, exists_eq_left', reduceCtorEq, exists_false, false_or, not_and]
      constructor
      · intro none
        by_cases short : list.size < 4 * header.segmentCount.toNat
        · exact .inl short
        · exact .inr (Classical.byContradiction fun free =>
            none _ (Nat.le_of_not_lt short) free rfl)
      · rintro (short | blocked) payload room free
        · omega
        · exact absurd blocked free

end BigData

end RegistryHive
