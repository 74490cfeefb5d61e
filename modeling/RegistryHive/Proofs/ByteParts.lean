import Mathlib.Algebra.GroupWithZero.Nat
import RegistryHive.Bytes

/-!
# Byte strings inside byte strings

`HoldsAt bytes start part` says that `part` stands in `bytes` from position
`start` on. Everything that is written into a hive file is found again through
this relation: it is kept by appending and by writing elsewhere, it composes, and
a number that was written least byte first is read back.
-/

namespace RegistryHive

theorem byteAt_toByteArray (bytes : List UInt8) (i : Nat) :
    byteAt bytes.toByteArray i = bytes.getD i 0 := by
  by_cases h : i < bytes.length
  · rw [byteAt_of_lt (by simpa using h), List.getElem_toByteArray]
    simp [h]
  · rw [byteAt_of_le (by simpa using h)]
    simp [Nat.le_of_not_lt h]

/-- The byte string `part` stands in `bytes` from position `start` on. -/
structure HoldsAt (bytes : ByteArray) (start : Nat) (part : ByteArray) : Prop where
  inside : start + part.size ≤ bytes.size
  byteAt_eq : ∀ i, i < part.size → byteAt bytes (start + i) = byteAt part i

namespace HoldsAt

variable {bytes part : ByteArray} {start : Nat}

/-- A part of a part is a part. -/
theorem trans {inner : ByteArray} {offset : Nat} (h : HoldsAt bytes start part)
    (h' : HoldsAt part offset inner) : HoldsAt bytes (start + offset) inner := by
  have inside := h.inside
  have inside' := h'.inside
  constructor
  · omega
  · intro i hi
    rw [Nat.add_assoc, h.byteAt_eq _ (by omega), h'.byteAt_eq _ hi]

theorem append (h : HoldsAt bytes start part) (rest : ByteArray) :
    HoldsAt (bytes ++ rest) start part := by
  have inside := h.inside
  constructor
  · rw [ByteArray.size_append]
    omega
  · intro i hi
    rw [byteAt_append, if_pos (by omega), h.byteAt_eq i hi]

/-- What is written elsewhere leaves a part in its place. -/
theorem overwrite_of_disjoint (h : HoldsAt bytes start part) {position : Nat} {patch : ByteArray}
    (disjoint : start + part.size ≤ position ∨ position + patch.size ≤ start) :
    HoldsAt (overwrite bytes position patch) start part := by
  have inside := h.inside
  constructor
  · rw [size_overwrite]
    omega
  · intro i hi
    rw [byteAt_overwrite, if_neg (by omega), h.byteAt_eq i hi]

/-- A part is what is cut out at its place. -/
theorem extract_eq (h : HoldsAt bytes start part) :
    bytes.extract start (start + part.size) = part := by
  have inside := h.inside
  have size_eq : (bytes.extract start (start + part.size)).size = part.size := by
    rw [ByteArray.size_extract]; omega
  apply bytes_ext size_eq
  intro i hi
  rw [size_eq] at hi
  rw [byteAt_extract, if_pos (by omega), h.byteAt_eq i hi]

end HoldsAt

theorem holdsAt_self (bytes : ByteArray) : HoldsAt bytes 0 bytes :=
  ⟨by omega, fun i _ => by rw [Nat.zero_add]⟩

theorem holdsAt_empty {bytes : ByteArray} {start : Nat} (inside : start ≤ bytes.size) :
    HoldsAt bytes start ByteArray.empty :=
  ⟨inside, fun i hi => absurd hi (Nat.not_lt_zero i)⟩

/-- What is appended stands after what was there. -/
theorem holdsAt_append (bytes part : ByteArray) : HoldsAt (bytes ++ part) bytes.size part := by
  constructor
  · exact Nat.le_of_eq ByteArray.size_append.symm
  · intro i _
    rw [byteAt_append, if_neg (by omega), Nat.add_sub_cancel_left]

/-- Where a string stands that is put together from two parts, the parts stand one after the
other. -/
theorem HoldsAt.split {bytes part rest : ByteArray} {start : Nat}
    (h : HoldsAt bytes start (part ++ rest)) :
    HoldsAt bytes start part ∧ HoldsAt bytes (start + part.size) rest :=
  ⟨h.trans ((holdsAt_self part).append rest), h.trans (holdsAt_append part rest)⟩

/-- Parts that stand one after the other stand there together. -/
theorem HoldsAt.join {bytes part rest : ByteArray} {start size : Nat} (h : HoldsAt bytes start part)
    (size_eq : part.size = size) (h' : HoldsAt bytes (start + size) rest) :
    HoldsAt bytes start (part ++ rest) := by
  have inside := h'.inside
  constructor
  · rw [ByteArray.size_append]
    omega
  · intro i hi
    rw [ByteArray.size_append] at hi
    rw [byteAt_append]
    split
    · exact h.byteAt_eq i (by assumption)
    · have behind := h'.byteAt_eq (i - size) (by omega)
      rw [← size_eq, Nat.add_assoc, Nat.add_sub_cancel' (by omega)] at behind
      exact behind

/-- What is cut out of a byte string stands where it was cut out. -/
theorem holdsAt_extract {bytes : ByteArray} {start size : Nat}
    (inside : start + size ≤ bytes.size) :
    HoldsAt bytes start (bytes.extract start (start + size)) := by
  constructor
  · rw [ByteArray.size_extract]
    omega
  · intro i hi
    rw [ByteArray.size_extract] at hi
    rw [byteAt_extract, if_pos (by omega)]

/-- What stands in the bytes before a cut are the parts that end there. -/
theorem holdsAt_extract_zero_iff {bytes part : ByteArray} {start stop : Nat} :
    HoldsAt (bytes.extract 0 stop) start part ↔
      HoldsAt bytes start part ∧ start + part.size ≤ stop := by
  have size_eq : (bytes.extract 0 stop).size = min stop bytes.size := ByteArray.size_extract
  have front : HoldsAt bytes 0 (bytes.extract 0 stop) := by
    constructor
    · omega
    · intro i hi
      rw [byteAt_extract, if_pos (by omega)]
  constructor
  · intro stands
    have moved := front.trans stands
    have ends := stands.inside
    rw [Nat.zero_add] at moved
    exact ⟨moved, by omega⟩
  · rintro ⟨stands, ends⟩
    have inside := stands.inside
    constructor
    · omega
    · intro i hi
      rw [byteAt_extract, Nat.zero_add, if_pos (by omega), stands.byteAt_eq i hi]

/-- What is written stands where it was written. -/
theorem holdsAt_overwrite (bytes : ByteArray) (start : Nat) (patch : ByteArray) :
    HoldsAt (overwrite bytes start patch) start patch := by
  constructor
  · rw [size_overwrite]
    omega
  · intro i hi
    rw [byteAt_overwrite, if_pos (by omega), Nat.add_sub_cancel_left]

/-- Writing what stands there already changes nothing. -/
theorem HoldsAt.overwrite_eq {bytes part : ByteArray} {start : Nat} (h : HoldsAt bytes start part) :
    overwrite bytes start part = bytes := by
  have inside := h.inside
  apply bytes_ext
  · rw [size_overwrite]
    omega
  · intro i _
    rw [byteAt_overwrite]
    split
    · rename_i covered
      have here := h.byteAt_eq (i - start) (by omega)
      rw [Nat.add_sub_cancel' covered.1] at here
      exact here.symm
    · rfl

/-- Patches that do not overlap can be laid in either order. -/
theorem overwrite_comm (bytes : ByteArray) {start start' : Nat} {patch patch' : ByteArray}
    (disjoint : start + patch.size ≤ start' ∨ start' + patch'.size ≤ start) :
    overwrite (overwrite bytes start patch) start' patch' =
      overwrite (overwrite bytes start' patch') start patch := by
  apply bytes_ext
  · simp only [size_overwrite]
    omega
  · intro i _
    simp only [byteAt_overwrite]
    by_cases first : start ≤ i ∧ i < start + patch.size
    · rw [if_pos first, if_pos first, if_neg (by omega)]
    · rw [if_neg first, if_neg first]

/-- A number that was written least byte first is read back, cut to the width. -/
theorem HoldsAt.littleEndian_eq {bytes : ByteArray} {start width value : Nat}
    (h : HoldsAt bytes start (leBytes width value).toByteArray) :
    littleEndian bytes start width = value % 256 ^ width := by
  induction width generalizing start value with
  | zero => simp [littleEndian, Nat.mod_one]
  | succ width ih =>
      have size_eq (width value : Nat) : (leBytes width value).toByteArray.size = width := by simp
      have inside := h.inside
      rw [size_eq] at inside
      have head : byteAt bytes start = UInt8.ofNat value := by
        have := h.byteAt_eq 0 (by rw [size_eq]; omega)
        rwa [byteAt_toByteArray] at this
      have tail : HoldsAt bytes (start + 1) (leBytes width (value / 256)).toByteArray := by
        constructor
        · rw [size_eq]
          omega
        · intro i hi
          rw [size_eq] at hi
          have := h.byteAt_eq (i + 1) (by rw [size_eq]; omega)
          rw [byteAt_toByteArray] at this ⊢
          rw [Nat.add_assoc, Nat.add_comm 1 i, this]
          rfl
      calc
        littleEndian bytes start (width + 1)
            = (UInt8.ofNat value).toNat + 256 * littleEndian bytes (start + 1) width := by
              rw [littleEndian, head]
        _ = value % 256 + 256 * (value / 256 % 256 ^ width) := by
              rw [ih tail, UInt8.toNat_ofNat']
        _ = value % 256 ^ (width + 1) := by
              rw [Nat.pow_succ, Nat.mul_comm (256 ^ width), Nat.mod_mul]

/-- The bytes of a number that was read are those it was read from. -/
theorem byteAt_leBytes_littleEndian (bytes : ByteArray) {start width i : Nat}
    (h : i < width) :
    byteAt (leBytes width (littleEndian bytes start width)).toByteArray i =
      byteAt bytes (start + i) := by
  rw [byteAt_toByteArray]
  induction width generalizing start i with
  | zero => exact absurd h (Nat.not_lt_zero i)
  | succ width ih =>
      have byte := (byteAt bytes start).toNat_lt
      rw [littleEndian, leBytes]
      cases i with
      | zero =>
          rw [List.getD_cons_zero]
          apply UInt8.toNat_inj.mp
          rw [UInt8.toNat_ofNat', Nat.add_zero start]
          omega
      | succ i =>
          have rest : (leBytes width (littleEndian bytes (start + 1) width)).getD i 0 =
              byteAt bytes (start + 1 + i) := ih (by omega)
          rw [List.getD_cons_succ, ← Nat.add_assoc, Nat.add_right_comm, ← rest]
          congr 2
          omega

theorem byteAt_u32Bytes_u32At (bytes : ByteArray) {start i : Nat} (h : i < 4) :
    byteAt (u32Bytes (u32At bytes start)) i = byteAt bytes (start + i) := by
  rw [u32Bytes, toNat_u32At]
  exact byteAt_leBytes_littleEndian bytes h

/-- The bytes of a number stand where it is read. -/
theorem holdsAt_u16At {bytes : ByteArray} {start : Nat} (inside : start + 2 ≤ bytes.size) :
    HoldsAt bytes start (u16Bytes (u16At bytes start)) := by
  constructor
  · rwa [size_u16Bytes]
  · intro i hi
    rw [size_u16Bytes] at hi
    rw [u16Bytes, toNat_u16At]
    exact (byteAt_leBytes_littleEndian bytes hi).symm

theorem holdsAt_u32At {bytes : ByteArray} {start : Nat} (inside : start + 4 ≤ bytes.size) :
    HoldsAt bytes start (u32Bytes (u32At bytes start)) := by
  constructor
  · rwa [size_u32Bytes]
  · intro i hi
    rw [size_u32Bytes] at hi
    exact (byteAt_u32Bytes_u32At bytes hi).symm

theorem holdsAt_u64At {bytes : ByteArray} {start : Nat} (inside : start + 8 ≤ bytes.size) :
    HoldsAt bytes start (u64Bytes (u64At bytes start)) := by
  constructor
  · rwa [size_u64Bytes]
  · intro i hi
    rw [size_u64Bytes] at hi
    rw [u64Bytes, toNat_u64At]
    exact (byteAt_leBytes_littleEndian bytes hi).symm

theorem HoldsAt.u16At_eq {bytes : ByteArray} {start : Nat} {value : UInt16}
    (h : HoldsAt bytes start (u16Bytes value)) : u16At bytes start = value := by
  apply UInt16.toNat_inj.mp
  rw [toNat_u16At, h.littleEndian_eq]
  exact Nat.mod_eq_of_lt value.toNat_lt

theorem HoldsAt.u32At_eq {bytes : ByteArray} {start : Nat} {value : UInt32}
    (h : HoldsAt bytes start (u32Bytes value)) : u32At bytes start = value := by
  apply UInt32.toNat_inj.mp
  rw [toNat_u32At, h.littleEndian_eq]
  exact Nat.mod_eq_of_lt value.toNat_lt

theorem HoldsAt.u64At_eq {bytes : ByteArray} {start : Nat} {value : UInt64}
    (h : HoldsAt bytes start (u64Bytes value)) : u64At bytes start = value := by
  apply UInt64.toNat_inj.mp
  rw [toNat_u64At, h.littleEndian_eq]
  exact Nat.mod_eq_of_lt value.toNat_lt

/-- Lengthening leaves a part in its place. -/
theorem HoldsAt.growTo {bytes part : ByteArray} {start : Nat} (h : HoldsAt bytes start part)
    (size : Nat) : HoldsAt (growTo bytes size) start part := by
  have inside := h.inside
  constructor
  · rw [size_growTo]
    omega
  · intro i hi
    rw [byteAt_growTo, h.byteAt_eq i hi]

/-- Byte strings one after the other. -/
def joined : List ByteArray → ByteArray
  | [] => ByteArray.empty
  | part :: rest => part ++ joined rest

section Joined

variable {parts : List ByteArray} {width : Nat}

theorem size_joined (uniform : ∀ part ∈ parts, part.size = width) :
    (joined parts).size = width * parts.length := by
  induction parts with
  | nil => rfl
  | cons part rest ih =>
      have first := uniform part List.mem_cons_self
      have others := ih fun other member => uniform other (List.mem_cons_of_mem part member)
      rw [joined, ByteArray.size_append, first, others, List.length_cons, Nat.mul_succ]
      omega

theorem joined_append (parts later : List ByteArray) :
    joined (parts ++ later) = joined parts ++ joined later := by
  induction parts with
  | nil => exact ByteArray.empty_append.symm
  | cons part rest ih =>
      change part ++ joined (rest ++ later) = part ++ joined rest ++ joined later
      rw [ih, ByteArray.append_assoc]

/-- A part stands behind all parts that come before it. -/
theorem holdsAt_joined_split (before : List ByteArray) (part : ByteArray)
    (after : List ByteArray) :
    HoldsAt (joined (before ++ part :: after)) (joined before).size part := by
  rw [joined_append, joined]
  exact (holdsAt_append (joined before) _).trans ((holdsAt_self part).append _)

/-- Appending what belongs to each item joins it to what was there. -/
theorem foldl_append_eq {α : Type} (content : α → ByteArray) (items : List α)
    (done : ByteArray) :
    items.foldl (fun done item => done ++ content item) done =
      done ++ joined (items.map content) := by
  induction items generalizing done with
  | nil => exact ByteArray.append_empty.symm
  | cons item rest ih =>
      rw [List.foldl_cons, ih, List.map_cons, joined, ByteArray.append_assoc]

/-- Parts of one width stand one after the other if each stands at its index times the width. -/
theorem holdsAt_joined_of_getElem {bytes : ByteArray} {start : Nat}
    (uniform : ∀ part ∈ parts, part.size = width) (inside : start ≤ bytes.size)
    (each : ∀ i, (h : i < parts.length) → HoldsAt bytes (start + width * i) parts[i]) :
    HoldsAt bytes start (joined parts) := by
  induction parts generalizing start with
  | nil => exact holdsAt_empty inside
  | cons part rest ih =>
      have size := uniform part List.mem_cons_self
      have first := each 0 (Nat.succ_pos _)
      have behind := first.inside
      rw [List.getElem_cons_zero, size, Nat.mul_zero, Nat.add_zero] at behind
      refine first.join size (ih
        (fun other member => uniform other (List.mem_cons_of_mem part member)) behind
        fun i hi => ?_)
      have later := each (i + 1) (Nat.succ_lt_succ hi)
      rwa [Nat.mul_succ, Nat.add_comm (width * i), ← Nat.add_assoc] at later

/-- Among parts of one width, a part stands at its index times the width. -/
theorem holdsAt_joined (uniform : ∀ part ∈ parts, part.size = width) (i : Nat)
    (h : i < parts.length) : HoldsAt (joined parts) (width * i) parts[i] := by
  induction parts generalizing i with
  | nil => exact absurd h (Nat.not_lt_zero i)
  | cons part rest ih =>
      have first := uniform part List.mem_cons_self
      cases i with
      | zero => exact (holdsAt_self part).append (joined rest)
      | succ i =>
          have others := ih (fun other member => uniform other (List.mem_cons_of_mem part member)) i
            (Nat.lt_of_succ_lt_succ h)
          have moved := (holdsAt_append part (joined rest)).trans others
          rwa [first, ← Nat.mul_one width, Nat.mul_assoc, Nat.one_mul, ← Nat.mul_add,
            Nat.add_comm 1 i] at moved

end Joined

/-- Parts laid over a byte string, each from its own position on. -/
def writeParts (bytes : ByteArray) (parts : List (Nat × ByteArray)) : ByteArray :=
  parts.foldl (fun written part => overwrite written part.1 part.2) bytes

section WriteParts

variable {bytes : ByteArray} {parts : List (Nat × ByteArray)}

/-- Parts that fit leave the length as it is. -/
theorem size_writeParts (fit : ∀ part ∈ parts, part.1 + part.2.size ≤ bytes.size) :
    (writeParts bytes parts).size = bytes.size := by
  induction parts generalizing bytes with
  | nil => rfl
  | cons part rest ih =>
      have first := fit part List.mem_cons_self
      have same : (overwrite bytes part.1 part.2).size = bytes.size := by
        rw [size_overwrite]
        omega
      change (writeParts (overwrite bytes part.1 part.2) rest).size = _
      rw [ih, same]
      intro other member
      rw [same]
      exact fit other (List.mem_cons_of_mem part member)

theorem HoldsAt.writeParts {part : ByteArray} {start : Nat} (h : HoldsAt bytes start part)
    (disjoint : ∀ other ∈ parts, start + part.size ≤ other.1 ∨ other.1 + other.2.size ≤ start) :
    HoldsAt (writeParts bytes parts) start part := by
  induction parts generalizing bytes with
  | nil => exact h
  | cons other rest ih =>
      have first := disjoint other List.mem_cons_self
      exact ih (h.overwrite_of_disjoint first) fun next member =>
        disjoint next (List.mem_cons_of_mem other member)

/-- Parts of which no two overlap all stand where they were written. -/
theorem holdsAt_writeParts_of_disjoint
    (disjoint : parts.Pairwise fun a b => a.1 + a.2.size ≤ b.1 ∨ b.1 + b.2.size ≤ a.1)
    {part : Nat × ByteArray} (member : part ∈ parts) :
    HoldsAt (writeParts bytes parts) part.1 part.2 := by
  induction parts generalizing bytes with
  | nil => exact absurd member List.not_mem_nil
  | cons first rest ih =>
      obtain ⟨apart, others⟩ := List.pairwise_cons.mp disjoint
      rcases List.mem_cons.mp member with rfl | later
      · exact (holdsAt_overwrite bytes part.1 part.2).writeParts apart
      · exact ih others later

/-- Parts that are given in order, one ending before the next begins, all stand where they were
written. -/
theorem holdsAt_writeParts (ordered : parts.Pairwise fun a b => a.1 + a.2.size ≤ b.1)
    {part : Nat × ByteArray} (member : part ∈ parts) :
    HoldsAt (writeParts bytes parts) part.1 part.2 :=
  holdsAt_writeParts_of_disjoint (ordered.imp fun before => .inl before) member

/-- A byte that no part covers stays as it was. -/
theorem byteAt_writeParts {i : Nat}
    (outside : ∀ part ∈ parts, i < part.1 ∨ part.1 + part.2.size ≤ i) :
    byteAt (writeParts bytes parts) i = byteAt bytes i := by
  induction parts generalizing bytes with
  | nil => rfl
  | cons part rest ih =>
      have first := outside part List.mem_cons_self
      change byteAt (writeParts (overwrite bytes part.1 part.2) rest) i = _
      rw [ih fun other member => outside other (List.mem_cons_of_mem part member),
        byteAt_overwrite, if_neg (by omega)]

end WriteParts

/-- Parts that stand in a byte string, each from its own position on. -/
def HoldsParts (bytes : ByteArray) (parts : List (Nat × ByteArray)) : Prop :=
  ∀ part ∈ parts, HoldsAt bytes part.1 part.2

section HoldsParts

variable {bytes part : ByteArray} {start : Nat} {parts : List (Nat × ByteArray)}

@[simp] theorem holdsParts_nil : HoldsParts bytes [] := by
  intro part member
  exact absurd member List.not_mem_nil

@[simp] theorem holdsParts_cons :
    HoldsParts bytes ((start, part) :: parts) ↔ HoldsAt bytes start part ∧ HoldsParts bytes parts :=
  List.forall_mem_cons

theorem HoldsParts.append (h : HoldsParts bytes parts) (rest : ByteArray) :
    HoldsParts (bytes ++ rest) parts :=
  fun part member => (h part member).append rest

end HoldsParts

end RegistryHive
