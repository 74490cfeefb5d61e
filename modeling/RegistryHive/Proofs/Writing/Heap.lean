import Mathlib.Logic.Function.Basic
import RegistryHive.Proofs.Writing.HiveWriter

/-!
# The cells that a writer has written

A heap says for every offset which cell stands there: its body up to the end of
the cell, and whether the body may still be patched. `Represents` relates the
bytes of a writer to a heap. Two facts carry everything else: a cell that is
appended is new to the heap (`Represents.alloc`), and a patch changes one body
and no other (`Represents.patch`). No later proof looks at the bytes of a bin.
-/

namespace RegistryHive

/-- What stands somewhere after an update is new, or it stood there before. -/
theorem update_some_cases {α β : Type} [DecidableEq α] {entries : α → Option β} {here there : α}
    {new entry : β} (h : Function.update entries here (some new) there = some entry) :
    (there = here ∧ entry = new) ∨ (there ≠ here ∧ entries there = some entry) := by
  by_cases same : there = here
  · subst same
    rw [Function.update_self] at h
    exact .inl ⟨rfl, (Option.some.inj h).symm⟩
  · rw [Function.update_of_ne same] at h
    exact .inr ⟨same, h⟩

namespace HiveWriter

/-- The body of a cell together with the zeros up to the end of the cell. -/
def paddedBody (body : ByteArray) : ByteArray := growTo body (cellSpace body.size - 4)

/-- The bytes of an allocated cell. -/
def cellBytes (body : ByteArray) : ByteArray :=
  u32Bytes (0 - UInt32.ofNat (4 + body.size)) ++ body

@[simp] theorem size_cellBytes (body : ByteArray) : (cellBytes body).size = 4 + body.size := by
  rw [cellBytes, ByteArray.size_append, size_u32Bytes]

theorem size_paddedBody (body : ByteArray) :
    4 + (paddedBody body).size = cellSpace body.size := by
  rw [paddedBody, size_growTo, cellSpace]
  omega

theorem size_le_size_paddedBody (body : ByteArray) : body.size ≤ (paddedBody body).size := by
  rw [paddedBody, size_growTo]
  omega

/-- A cell is appended together with its padding. -/
theorem bins_alloc (writer : HiveWriter) (body : ByteArray) :
    (writer.alloc body).writer.bins = writer.bins ++ cellBytes (paddedBody body) := by
  have space := size_paddedBody body
  have room := size_le_size_paddedBody body
  change growTo (writer.bins ++ u32Bytes (0 - UInt32.ofNat (cellSpace body.size)) ++ body)
    (writer.bins.size + cellSpace body.size) = _
  rw [← space, cellBytes, ← ByteArray.append_assoc]
  refine bytes_ext ?_ fun i _ => ?_
  · simp only [size_growTo, ByteArray.size_append, size_u32Bytes]
    omega
  · rw [byteAt_growTo, byteAt_append, byteAt_append _ (HiveWriter.paddedBody body)]
    split
    · rfl
    · rw [HiveWriter.paddedBody, byteAt_growTo]

theorem size_bins_alloc (writer : HiveWriter) (body : ByteArray) :
    (writer.alloc body).writer.bins.size = writer.bins.size + cellSpace body.size := by
  rw [bins_alloc, ByteArray.size_append, size_cellBytes, size_paddedBody]

theorem toNat_offset_alloc {writer : HiveWriter} (small : writer.bins.size < 2 ^ 32)
    (body : ByteArray) : (writer.alloc body).offset.toNat = writer.bins.size := by
  change (UInt32.ofNat writer.bins.size).toNat = _
  rw [UInt32.toNat_ofNat', Nat.mod_eq_of_lt small]

end HiveWriter

/-- Padding leaves every part of a body in its place. -/
theorem HoldsAt.paddedBody {body part : ByteArray} {start : Nat} (h : HoldsAt body start part) :
    HoldsAt (HiveWriter.paddedBody body) start part := h.growTo _

/-- A patch inside the body of a cell leaves the cell with the patched body. -/
theorem HoldsAt.patch_cellBytes {bins body bytes : ByteArray} {start field : Nat}
    (h : HoldsAt bins start (HiveWriter.cellBytes body)) (fits : field + bytes.size ≤ body.size) :
    HoldsAt (overwrite bins (start + 4 + field) bytes) start
      (HiveWriter.cellBytes (overwrite body field bytes)) := by
  have size_eq : (overwrite body field bytes).size = body.size := by
    rw [size_overwrite]
    omega
  have inside := h.inside
  rw [HiveWriter.size_cellBytes] at inside
  constructor
  · rw [HiveWriter.size_cellBytes, size_eq, size_overwrite]
    omega
  · intro i hi
    rw [HiveWriter.size_cellBytes, size_eq] at hi
    have old := h.byteAt_eq i (by rw [HiveWriter.size_cellBytes]; omega)
    rw [HiveWriter.cellBytes, byteAt_append, size_u32Bytes] at old
    rw [byteAt_overwrite, HiveWriter.cellBytes, size_eq, byteAt_append, size_u32Bytes,
      byteAt_overwrite]
    by_cases patched : 4 + field ≤ i ∧ i < 4 + field + bytes.size
    · rw [if_pos (by omega), if_neg (by omega), if_pos (by omega)]
      congr 1
      omega
    · rw [if_neg (by omega), old]
      split
      · rfl
      · rw [if_neg (by omega)]

/-- A cell in a heap. -/
inductive StoredCell
  /-- The body stays as it is. -/
  | fixed (body : ByteArray)
  /-- The body may be patched. -/
  | patchable (body : ByteArray)

/-- The body of a cell, up to the end of the cell. -/
def StoredCell.body : StoredCell → ByteArray
  | fixed body | patchable body => body

/-- The cells at offsets. -/
abbrev CellHeap := UInt32 → Option StoredCell

/-- The cells of a heap stand in the bin of a writer, one after the other, behind the header of
the bin. -/
structure Represents (writer : HiveWriter) (heap : CellHeap) : Prop where
  header_le : HiveWriter.binHeaderSize ≤ writer.bins.size
  holds : ∀ {cell stored}, heap cell = some stored →
    HoldsAt writer.bins cell.toNat (HiveWriter.cellBytes stored.body)
  behind : ∀ {cell stored}, heap cell = some stored → HiveWriter.binHeaderSize ≤ cell.toNat
  apart : ∀ {cell stored other stored'}, heap cell = some stored → heap other = some stored' →
    cell.toNat < other.toNat → cell.toNat + (4 + stored.body.size) ≤ other.toNat

/-- Every cell of the first heap that cannot be patched stands in the second one. -/
def CellHeap.Keeps (heap later : CellHeap) : Prop :=
  ∀ {cell body}, heap cell = some (.fixed body) → later cell = some (.fixed body)

/-- Every cell of the first heap stands in the second one. -/
def CellHeap.Extends (heap later : CellHeap) : Prop :=
  ∀ {cell stored}, heap cell = some stored → later cell = some stored

namespace Represents

open HiveWriter

variable {writer : HiveWriter} {heap : CellHeap}

theorem start : Represents .start fun _ => none where
  header_le := by
    rw [HiveWriter.start, size_overwrite, size_zeros]
    omega
  holds h := by cases h
  behind h := by cases h
  apart h := by cases h

/-- A cell ends inside the bin. -/
theorem end_le (represents : Represents writer heap) {cell : UInt32} {stored : StoredCell}
    (h : heap cell = some stored) : cell.toNat + (4 + stored.body.size) ≤ writer.bins.size := by
  have inside := (represents.holds h).inside
  rwa [size_cellBytes] at inside

/-- No cell stands at the offset of the next one. -/
theorem fresh (represents : Represents writer heap) (small : writer.bins.size < 2 ^ 32)
    (body : ByteArray) : heap (writer.alloc body).offset = none := by
  cases taken : heap (writer.alloc body).offset with
  | none => rfl
  | some stored =>
      have ends := represents.end_le taken
      rw [toNat_offset_alloc small] at ends
      omega

/-- A cell that is appended joins the heap. -/
theorem alloc (represents : Represents writer heap) (small : writer.bins.size < 2 ^ 32)
    {body : ByteArray} {stored : StoredCell} (same : stored.body = paddedBody body) :
    Represents (writer.alloc body).writer
      (Function.update heap (writer.alloc body).offset (some stored)) := by
  have position := toNat_offset_alloc small body
  have header_le := represents.header_le
  refine ⟨?_, ?_, ?_, ?_⟩
  · rw [size_bins_alloc]
    omega
  · intro cell stored' h
    rw [bins_alloc]
    obtain ⟨rfl, rfl⟩ | ⟨-, stood⟩ := update_some_cases h
    · rw [position, same]
      exact holdsAt_append writer.bins _
    · exact (represents.holds stood).append _
  · intro cell stored' h
    obtain ⟨rfl, rfl⟩ | ⟨-, stood⟩ := update_some_cases h
    · rw [position]
      exact header_le
    · exact represents.behind stood
  · intro cell stored₁ other stored₂ h h' less
    -- The new cell comes after all others, so it cannot be the earlier of two.
    obtain ⟨rfl, rfl⟩ | ⟨-, stood⟩ := update_some_cases h
    · obtain ⟨rfl, rfl⟩ | ⟨-, stood'⟩ := update_some_cases h'
      · exact absurd less (Nat.lt_irrefl _)
      · have ends := represents.end_le stood'
        rw [position] at less
        omega
    · obtain ⟨rfl, rfl⟩ | ⟨-, stood'⟩ := update_some_cases h'
      · rw [position]
        exact represents.end_le stood
      · exact represents.apart stood stood' less

theorem extends_alloc (represents : Represents writer heap) (small : writer.bins.size < 2 ^ 32)
    (body : ByteArray) (stored : StoredCell) :
    heap.Extends (Function.update heap (writer.alloc body).offset (some stored)) := by
  intro cell stored' h
  by_cases new : cell = (writer.alloc body).offset
  · rw [new, represents.fresh small] at h
    cases h
  · rwa [Function.update_of_ne new]

/-- A patch leaves the other cells as they are. -/
theorem holdsAt_patch_of_ne (represents : Represents writer heap) {cell other : UInt32}
    {body : ByteArray} {stored : StoredCell} (h : heap cell = some (.patchable body))
    (h' : heap other = some stored) (different : other ≠ cell) {field : Nat} {bytes : ByteArray}
    (fits : field + bytes.size ≤ body.size) :
    HoldsAt (writer.patch cell field bytes).bins other.toNat (cellBytes stored.body) := by
  apply (represents.holds h').overwrite_of_disjoint
  rw [size_cellBytes]
  -- A cell before the patched one ends before it, and one after it begins after it.
  rcases Nat.lt_or_gt_of_ne fun same => different (UInt32.toNat_inj.mp same) with less | less
  · have before := represents.apart h' h less
    omega
  · have after := represents.apart h h' less
    simp only [StoredCell.body] at after
    omega

/-- A patch changes the body of one cell. -/
theorem patch (represents : Represents writer heap) {cell : UInt32} {body : ByteArray}
    (h : heap cell = some (.patchable body)) (field : Nat) (bytes : ByteArray)
    (fits : field + bytes.size ≤ body.size) :
    Represents (writer.patch cell field bytes)
      (Function.update heap cell (some (.patchable (overwrite body field bytes)))) := by
  have size_eq : (overwrite body field bytes).size = body.size := by
    rw [size_overwrite]
    omega
  refine ⟨?_, ?_, ?_, ?_⟩
  · have := represents.header_le
    change _ ≤ (overwrite writer.bins (cell.toNat + 4 + field) bytes).size
    rw [size_overwrite]
    omega
  · intro other stored h'
    obtain ⟨rfl, rfl⟩ | ⟨different, stood⟩ := update_some_cases h'
    · exact (represents.holds h).patch_cellBytes fits
    · exact represents.holdsAt_patch_of_ne h stood different fits
  · intro other stored h'
    obtain ⟨rfl, rfl⟩ | ⟨-, stood⟩ := update_some_cases h'
    · exact represents.behind h
    · exact represents.behind stood
  · intro first stored₁ second stored₂ h₁ h₂ less
    obtain ⟨rfl, rfl⟩ | ⟨-, stood₁⟩ := update_some_cases h₁
    · obtain ⟨rfl, rfl⟩ | ⟨-, stood₂⟩ := update_some_cases h₂
      · exact absurd less (Nat.lt_irrefl _)
      · have after := represents.apart h stood₂ less
        simp only [StoredCell.body] at after ⊢
        omega
    · obtain ⟨rfl, rfl⟩ | ⟨-, stood₂⟩ := update_some_cases h₂
      · exact represents.apart stood₁ h less
      · exact represents.apart stood₁ stood₂ less

theorem keeps_patch {cell : UInt32} {body : ByteArray} (h : heap cell = some (.patchable body))
    (stored : StoredCell) : heap.Keeps (Function.update heap cell (some stored)) := by
  intro other body' h'
  have different : other ≠ cell := by
    rintro rfl
    rw [h] at h'
    cases h'
  rwa [Function.update_of_ne different]

end Represents

end RegistryHive
