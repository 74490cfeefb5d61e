import RegistryHive.Proofs.Writing.Bodies

/-!
# The space of written cells

A call to a writer appends cells, whose space depends only on what is written, or
it patches the cell of a key. So the length of a bin after a call is known before
it (`size_value` and its like), and no call makes a bin shorter (`size_le_value`
and its like).
-/

namespace RegistryHive

namespace HiveWriter

/-- The space of a key cell. -/
def keySpace (name : String) : Nat := cellSpace (0x4C + name.toUTF8.size)

/-- The space of a list with a number of slots. -/
def listSpace (shape : ListShape) (count : Nat) : Nat := cellSpace (4 + shape.slotSize * count)

/-- The space of a long payload: its segments, their list and its header. -/
def bigDataSpace (payload : ByteArray) : Nat :=
  ((segments payload).map fun part => cellSpace part.size).sum +
    cellSpace (4 * (segments payload).length) + cellSpace 8

/-- The space of a payload outside its value node. -/
def payloadSpace (payload : ByteArray) : Nat :=
  if payload.size ≤ 4 then 0
  else if segmentLimit < payload.size then bigDataSpace payload
  else cellSpace payload.size

/-- The space of a value and its payload. -/
def valueSpace (value : WrittenValue) : Nat :=
  payloadSpace value.payload + cellSpace (0x14 + value.name.toUTF8.size)

theorem listSpace_mono (shape : ListShape) {few many : Nat} (h : few ≤ many) :
    listSpace shape few ≤ listSpace shape many := by
  have slots := Nat.mul_le_mul_left shape.slotSize h
  rw [listSpace, listSpace, cellSpace, cellSpace]
  omega

/-- The ways in which a payload is written. -/
theorem payload_cases (writer : HiveWriter) (payload : ByteArray) :
    (payload.size ≤ 4 ∧ writer.payload payload = (inlineFields payload, writer)) ∨
      (4 < payload.size ∧ payload.size ≤ segmentLimit ∧
        writer.payload payload =
          ({ size := UInt32.ofNat payload.size, location := (writer.alloc payload).offset },
            (writer.alloc payload).writer)) ∨
      (segmentLimit < payload.size ∧
        writer.payload payload =
          ({ size := UInt32.ofNat payload.size, location := (writer.bigData payload).offset },
            (writer.bigData payload).writer)) := by
  by_cases short : payload.size ≤ 4
  · exact .inl ⟨short, if_pos short⟩
  · right
    have apart : writer.payload payload = _ := if_neg short
    by_cases long : segmentLimit < payload.size
    · rw [if_pos long] at apart
      exact .inr ⟨long, apart⟩
    · rw [if_neg long] at apart
      exact .inl ⟨Nat.lt_of_not_le short, Nat.le_of_not_lt long, apart⟩

theorem size_start : start.bins.size = binHeaderSize := by
  rw [start, size_overwrite, size_zeros]
  rfl

section Sizes

variable (writer : HiveWriter)

theorem size_alloc_keyBody (flags : UInt16) (name : String) :
    (writer.alloc (keyBody flags name.toUTF8)).writer.bins.size =
      writer.bins.size + keySpace name := by
  rw [size_bins_alloc, size_keyBody, keySpace]

theorem size_key (name : String) :
    (writer.key name).writer.bins.size = writer.bins.size + keySpace name :=
  size_alloc_keyBody writer 0x0020 name

theorem size_rootKey (name : String) :
    (writer.rootKey name).writer.bins.size = writer.bins.size + keySpace name :=
  size_alloc_keyBody writer 0x0024 name

/-- The fields of a new key stand inside the bin. -/
theorem offset_alloc_keyBody_le (flags : UInt16) (name : String) :
    (writer.alloc (keyBody flags name.toUTF8)).offset.toNat + 0x50 ≤
      (writer.alloc (keyBody flags name.toUTF8)).writer.bins.size := by
  have position : (writer.alloc (keyBody flags name.toUTF8)).offset.toNat =
      writer.bins.size % 2 ^ 32 := UInt32.toNat_ofNat'
  have wrapped := Nat.mod_le writer.bins.size (2 ^ 32)
  rw [size_alloc_keyBody, keySpace, cellSpace]
  omega

theorem offset_rootKey_le (name : String) :
    (writer.rootKey name).offset.toNat + 0x50 ≤ (writer.rootKey name).writer.bins.size :=
  offset_alloc_keyBody_le writer 0x0024 name

theorem size_list (shape : ListShape) (offsets : List UInt32) :
    (writer.list shape offsets).writer.bins.size =
      writer.bins.size + listSpace shape offsets.length := by
  change (writer.alloc _).writer.bins.size = _
  rw [size_bins_alloc, size_listBody, listSpace]

theorem length_allocAll (bodies : List ByteArray) :
    (writer.allocAll bodies).1.length = bodies.length := by
  induction bodies generalizing writer with
  | nil => rfl
  | cons body rest ih => exact congrArg (· + 1) (ih _)

theorem size_allocAll (bodies : List ByteArray) :
    (writer.allocAll bodies).2.bins.size =
      writer.bins.size + (bodies.map fun body => cellSpace body.size).sum := by
  induction bodies generalizing writer with
  | nil => rfl
  | cons body rest ih =>
      change ((writer.alloc body).writer.allocAll rest).2.bins.size = _
      rw [ih, size_bins_alloc, List.map_cons, List.sum_cons, Nat.add_assoc]

theorem size_bigData (payload : ByteArray) :
    (writer.bigData payload).writer.bins.size = writer.bins.size + bigDataSpace payload := by
  simp only [bigData]
  rw [size_bins_alloc, size_bins_alloc, size_allocAll, size_bigDataBody, size_offsetsBody,
    length_allocAll, bigDataSpace]
  omega

theorem size_payload (payload : ByteArray) :
    (writer.payload payload).2.bins.size = writer.bins.size + payloadSpace payload := by
  rw [payloadSpace]
  obtain ⟨short, written⟩ | ⟨long, fits, written⟩ | ⟨long, written⟩ :=
    payload_cases writer payload
  · rw [written, if_pos short, Nat.add_zero]
  · rw [written, if_neg (by omega), if_neg (by omega), size_bins_alloc]
  · have apart : ¬ payload.size ≤ 4 := by
      rw [segmentLimit] at long
      omega
    rw [written, if_neg apart, if_pos long, size_bigData]

theorem size_value (value : WrittenValue) :
    (writer.value value).writer.bins.size = writer.bins.size + valueSpace value := by
  change ((writer.payload _).2.alloc _).writer.bins.size = _
  rw [size_bins_alloc, size_payload, size_valueBody, valueSpace, Nat.add_assoc]

/-- Two patches of a key leave the length of the bin as it is. -/
theorem size_patch_key {writer : HiveWriter} {cell : UInt32} {first second : Nat}
    (inside : cell.toNat + 0x50 ≤ writer.bins.size) (value value' : UInt32)
    (fits : first ≤ 0x48) (fits' : second ≤ 0x48) :
    ((writer.patch cell first (u32Bytes value)).patch cell second (u32Bytes value')).bins.size =
      writer.bins.size := by
  change (overwrite (overwrite _ _ _) _ _).size = _
  rw [size_overwrite, size_overwrite, size_u32Bytes, size_u32Bytes]
  omega

theorem size_lt_alloc (body : ByteArray) :
    writer.bins.size < (writer.alloc body).writer.bins.size := by
  rw [size_bins_alloc, cellSpace]
  omega

theorem size_le_alloc (body : ByteArray) :
    writer.bins.size ≤ (writer.alloc body).writer.bins.size :=
  Nat.le_of_lt (size_lt_alloc writer body)

theorem size_le_allocAll (bodies : List ByteArray) :
    writer.bins.size ≤ (writer.allocAll bodies).2.bins.size := by
  rw [size_allocAll]
  exact Nat.le_add_right _ _

theorem size_le_payload (payload : ByteArray) :
    writer.bins.size ≤ (writer.payload payload).2.bins.size := by
  rw [size_payload]
  exact Nat.le_add_right _ _

theorem size_le_value (value : WrittenValue) :
    writer.bins.size ≤ (writer.value value).writer.bins.size := by
  rw [size_value]
  exact Nat.le_add_right _ _

theorem size_le_patch (cell : UInt32) (field : Nat) (bytes : ByteArray) :
    writer.bins.size ≤ (writer.patch cell field bytes).bins.size := by
  change _ ≤ (overwrite _ _ _).size
  rw [size_overwrite]
  omega

theorem size_le_setSubkeys (key list count : UInt32) :
    writer.bins.size ≤ (writer.setSubkeys key list count).bins.size :=
  Nat.le_trans (size_le_patch _ _ _ _) (size_le_patch _ _ _ _)

theorem size_le_setValues (key : UInt32) (values : List UInt32) :
    writer.bins.size ≤ (writer.setValues key values).bins.size :=
  Nat.le_trans (size_le_alloc writer _)
    (Nat.le_trans (size_le_patch _ _ _ _) (size_le_patch _ _ _ _))

end Sizes

end HiveWriter

end RegistryHive
