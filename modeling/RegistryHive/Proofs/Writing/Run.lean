import Mathlib.Data.List.Forall2
import RegistryHive.Proofs.Writing.Space

/-!
# Runs of a writer

A run is any sequence of calls to a writer; only a cell that was written as a key
may have lists hung under it. Beside the bytes, a run keeps what was asked to be
written at each offset. `Run.represents` is the invariant of all runs: the bytes
are those of a heap in which every such request stands as a cell or, for a long
payload, as several of them.

Every call either appends cells, which leaves all cells in their places, or
patches the cell of one key. A bin that is small at the end was small all along,
so no offset wraps around.
-/

namespace RegistryHive

open HiveWriter

/-- What was asked to be written at an offset. -/
inductive Content
  | key (record : KeyRecord)
  | list (shape : ListShape) (offsets : List UInt32)
  | value (value : WrittenValue)
  | valueList (offsets : List UInt32)

/-- What was asked to be written at all offsets. -/
abbrev Contents := UInt32 → Option Content

/-- A writer can be brought to a state by calls that write these contents. -/
inductive HiveWriter.Run : HiveWriter → Contents → Prop
  | start : Run .start fun _ => none
  | key {writer : HiveWriter} {contents : Contents} (before : Run writer contents)
      (name : String) :
      Run (writer.key name).writer
        (Function.update contents (writer.key name).offset (some (.key (.new name))))
  | rootKey {writer : HiveWriter} {contents : Contents} (before : Run writer contents)
      (name : String) :
      Run (writer.rootKey name).writer
        (Function.update contents (writer.rootKey name).offset (some (.key (.new name))))
  | list {writer : HiveWriter} {contents : Contents} (before : Run writer contents)
      (shape : ListShape) (offsets : List UInt32) :
      Run (writer.list shape offsets).writer
        (Function.update contents (writer.list shape offsets).offset
          (some (.list shape offsets)))
  | setSubkeys {writer : HiveWriter} {contents : Contents} (before : Run writer contents)
      {key : UInt32} {record : KeyRecord} (written : contents key = some (.key record))
      (list count : UInt32) :
      Run (writer.setSubkeys key list count)
        (Function.update contents key
          (some (.key { record with subkeyCount := count, subkeyList := list })))
  | value {writer : HiveWriter} {contents : Contents} (before : Run writer contents)
      (value : WrittenValue) :
      Run (writer.value value).writer
        (Function.update contents (writer.value value).offset (some (.value value)))
  | setValues {writer : HiveWriter} {contents : Contents} (before : Run writer contents)
      {key : UInt32} {record : KeyRecord} (written : contents key = some (.key record))
      (values : List UInt32) :
      Run (writer.setValues key values)
        (Function.update
          (Function.update contents (writer.alloc (offsetsBody values)).offset
            (some (.valueList values)))
          key
          (some (.key { record with
            valueCount := UInt32.ofNat values.length
            valueList := (writer.alloc (offsetsBody values)).offset })))

/-- A payload can be found from the fields of its value node. -/
inductive PayloadStored (heap : CellHeap) (payload : ByteArray) : PayloadFields → Prop
  /-- It stands in the value node. -/
  | inline (short : payload.size ≤ 4) : PayloadStored heap payload (inlineFields payload)
  /-- It stands in one cell. -/
  | single {cell : UInt32} (long : 4 < payload.size) (fits : payload.size ≤ segmentLimit)
      (stored : heap cell = some (.fixed (paddedBody payload))) :
      PayloadStored heap payload { size := UInt32.ofNat payload.size, location := cell }
  /-- It is cut into segments. -/
  | segmented {cell list : UInt32} {offsets : List UInt32} (long : segmentLimit < payload.size)
      (header : heap cell = some (.fixed (paddedBody (bigDataBody offsets.length list))))
      (listed : heap list = some (.fixed (paddedBody (offsetsBody offsets))))
      (parts : List.Forall₂ (fun offset part => heap offset = some (.fixed (paddedBody part)))
        offsets (segments payload)) :
      PayloadStored heap payload { size := UInt32.ofNat payload.size, location := cell }

/-- What was asked to be written at an offset stands in a heap. -/
def Content.StoredIn (heap : CellHeap) (cell : UInt32) : Content → Prop
  | .key record => ∃ body, heap cell = some (.patchable body) ∧ record.InBody body
  | .list shape offsets => heap cell = some (.fixed (paddedBody (listBody shape offsets)))
  | .value written => ∃ fields,
      heap cell =
        some (.fixed (paddedBody (valueBody written.name.toUTF8 written.code fields))) ∧
      PayloadStored heap written.payload fields
  | .valueList offsets => heap cell = some (.fixed (paddedBody (offsetsBody offsets)))

namespace CellHeap

variable {heap later last : CellHeap}

theorem Extends.refl (heap : CellHeap) : heap.Extends heap := fun h => h

theorem Extends.trans (first : heap.Extends later) (second : later.Extends last) :
    heap.Extends last := fun h => second (first h)

theorem Extends.keeps (h : heap.Extends later) : heap.Keeps later := fun stored => h stored

end CellHeap

theorem PayloadStored.keeps {heap later : CellHeap} {payload : ByteArray} {fields : PayloadFields}
    (stored : PayloadStored heap payload fields) (keeps : heap.Keeps later) :
    PayloadStored later payload fields := by
  cases stored with
  | inline short => exact .inline short
  | single long fits stored => exact .single long fits (keeps stored)
  | segmented long header listed parts =>
      exact .segmented long (keeps header) (keeps listed)
        (parts.imp fun _ _ stored => keeps stored)

namespace Content.StoredIn

variable {heap later : CellHeap} {cell : UInt32} {content : Content}

/-- What stands in a heap still stands in a heap that keeps its fixed cells and the cell that
the content was asked for. -/
theorem keeps (stored : content.StoredIn heap cell) (keeps : heap.Keeps later)
    (same : ∀ {body}, heap cell = some (.patchable body) → later cell = some (.patchable body)) :
    content.StoredIn later cell := by
  cases content with
  | key record =>
      obtain ⟨body, here, inBody⟩ := stored
      exact ⟨body, same here, inBody⟩
  | list shape offsets => exact keeps stored
  | value value =>
      obtain ⟨fields, here, payload⟩ := stored
      exact ⟨fields, keeps here, payload.keeps keeps⟩
  | valueList offsets => exact keeps stored

theorem extend (stored : content.StoredIn heap cell) (h : heap.Extends later) :
    content.StoredIn later cell :=
  stored.keeps h.keeps h

end Content.StoredIn

namespace Represents

variable {writer : HiveWriter} {heap : CellHeap}

/-- Appending a cell extends the heap. -/
theorem exists_alloc (represents : Represents writer heap) {body : ByteArray} (stored : StoredCell)
    (same : stored.body = paddedBody body)
    (small : (writer.alloc body).writer.bins.size < 2 ^ 31) :
    ∃ later, Represents (writer.alloc body).writer later ∧ heap.Extends later ∧
      later (writer.alloc body).offset = some stored := by
  have small' : writer.bins.size < 2 ^ 32 := by
    have := size_le_alloc writer body
    omega
  exact ⟨_, represents.alloc small' same, represents.extends_alloc small' body stored,
    Function.update_self _ _ _⟩

theorem exists_allocAll (represents : Represents writer heap) (bodies : List ByteArray)
    (small : (writer.allocAll bodies).2.bins.size < 2 ^ 31) :
    ∃ later, Represents (writer.allocAll bodies).2 later ∧ heap.Extends later ∧
      List.Forall₂ (fun offset body => later offset = some (.fixed (paddedBody body)))
        (writer.allocAll bodies).1 bodies := by
  induction bodies generalizing writer heap with
  | nil => exact ⟨heap, represents, CellHeap.Extends.refl heap, .nil⟩
  | cons body rest ih =>
      have small' : (writer.alloc body).writer.bins.size < 2 ^ 31 :=
        Nat.lt_of_le_of_lt (size_le_allocAll _ rest) small
      obtain ⟨middle, first, grown, here⟩ :=
        represents.exists_alloc (.fixed (paddedBody body)) rfl small'
      obtain ⟨later, others, grown', there⟩ := ih first small
      exact ⟨later, others, grown.trans grown', .cons (grown' here) there⟩

theorem exists_bigData (represents : Represents writer heap) {payload : ByteArray}
    (long : segmentLimit < payload.size)
    (small : (writer.bigData payload).writer.bins.size < 2 ^ 31) :
    ∃ later, Represents (writer.bigData payload).writer later ∧ heap.Extends later ∧
      PayloadStored later payload
        { size := UInt32.ofNat payload.size, location := (writer.bigData payload).offset } := by
  have small₂ : ((writer.allocAll (segments payload)).2.alloc
      (offsetsBody (writer.allocAll (segments payload)).1)).writer.bins.size < 2 ^ 31 :=
    Nat.lt_of_le_of_lt (size_le_alloc _ _) small
  have small₁ : (writer.allocAll (segments payload)).2.bins.size < 2 ^ 31 :=
    Nat.lt_of_le_of_lt (size_le_alloc _ _) small₂
  obtain ⟨heap₁, represents₁, grown₁, parts⟩ := represents.exists_allocAll _ small₁
  obtain ⟨heap₂, represents₂, grown₂, listed⟩ :=
    represents₁.exists_alloc (.fixed (paddedBody (offsetsBody _))) rfl small₂
  obtain ⟨heap₃, represents₃, grown₃, header⟩ :=
    represents₂.exists_alloc (.fixed (paddedBody (bigDataBody _ _))) rfl small
  refine ⟨heap₃, represents₃, grown₁.trans (grown₂.trans grown₃),
    .segmented long header (grown₃ listed) ?_⟩
  exact parts.imp fun _ _ stored => grown₃ (grown₂ stored)

theorem exists_payload (represents : Represents writer heap) (payload : ByteArray)
    (small : (writer.payload payload).2.bins.size < 2 ^ 31) :
    ∃ later, Represents (writer.payload payload).2 later ∧ heap.Extends later ∧
      PayloadStored later payload (writer.payload payload).1 := by
  obtain ⟨short, written⟩ | ⟨long, fits, written⟩ | ⟨long, written⟩ :=
    payload_cases writer payload
  · rw [written]
    exact ⟨heap, represents, CellHeap.Extends.refl heap, .inline short⟩
  · rw [written] at small ⊢
    obtain ⟨later, represents', grown, stored⟩ :=
      represents.exists_alloc (.fixed (paddedBody payload)) rfl small
    exact ⟨later, represents', grown, .single long fits stored⟩
  · rw [written] at small ⊢
    exact represents.exists_bigData long small

theorem exists_value (represents : Represents writer heap) (value : WrittenValue)
    (small : (writer.value value).writer.bins.size < 2 ^ 31) :
    ∃ later, Represents (writer.value value).writer later ∧ heap.Extends later ∧
      (Content.value value).StoredIn later (writer.value value).offset := by
  have small₁ : (writer.payload value.payload).2.bins.size < 2 ^ 31 :=
    Nat.lt_of_le_of_lt (size_le_alloc _ _) small
  obtain ⟨heap₁, represents₁, grown₁, payload⟩ := represents.exists_payload _ small₁
  obtain ⟨heap₂, represents₂, grown₂, node⟩ :=
    represents₁.exists_alloc (.fixed (paddedBody (valueBody _ _ _))) rfl small
  exact ⟨heap₂, represents₂, grown₁.trans grown₂, _, node, payload.keeps grown₂.keeps⟩

/-- Two patches of a key change its body and no other cell. -/
theorem patch_key (represents : Represents writer heap) {key : UInt32} {record : KeyRecord}
    {body : ByteArray} (stored : heap key = some (.patchable body)) (inBody : record.InBody body)
    (first second : Nat) (value value' : UInt32) (fits : first ≤ 0x48) (fits' : second ≤ 0x48) :
    ∃ later, Represents
        ((writer.patch key first (u32Bytes value)).patch key second (u32Bytes value')) later ∧
      heap.Keeps later ∧ (∀ cell, cell ≠ key → later cell = heap cell) ∧
      later key = some (.patchable
        (overwrite (overwrite body first (u32Bytes value)) second (u32Bytes value'))) := by
  have size_le := inBody.size_le
  have represents₁ := represents.patch stored first (u32Bytes value)
    (by rw [size_u32Bytes]; omega)
  have represents₂ := represents₁.patch (Function.update_self _ _ _) second (u32Bytes value')
    (by rw [size_overwrite, size_u32Bytes]; omega)
  rw [Function.update_idem] at represents₂
  exact ⟨_, represents₂, keeps_patch stored _, fun cell other => Function.update_of_ne other _ _,
    Function.update_self _ _ _⟩

end Represents

namespace HiveWriter

/-- What was asked to be written stands in a heap that the writer represents. -/
structure Stores (writer : HiveWriter) (contents : Contents) (heap : CellHeap) : Prop where
  represents : Represents writer heap
  stored : ∀ {cell content}, contents cell = some content → content.StoredIn heap cell

section Stores

variable {writer later : HiveWriter} {contents : Contents} {heap grown : CellHeap}

/-- A call that appends cells adds one content and leaves the others in their places. -/
theorem Stores.extend (stores : Stores writer contents heap) (represents : Represents later grown)
    (extend : heap.Extends grown) {offset : UInt32} {content : Content}
    (here : content.StoredIn grown offset) :
    Stores later (Function.update contents offset (some content)) grown where
  represents := represents
  stored := by
    intro cell content' h
    obtain ⟨rfl, rfl⟩ | ⟨-, h⟩ := update_some_cases h
    · exact here
    · exact (stores.stored h).extend extend

/-- A call that patches a key replaces the content of this key and leaves the others. -/
theorem Stores.patch (stores : Stores writer contents heap) {key : UInt32}
    (represents : Represents later grown) (keeps : heap.Keeps grown)
    (same : ∀ cell, cell ≠ key → grown cell = heap cell) {content : Content}
    (here : content.StoredIn grown key) :
    Stores later (Function.update contents key (some content)) grown where
  represents := represents
  stored := by
    intro cell content' h
    obtain ⟨rfl, rfl⟩ | ⟨different, h⟩ := update_some_cases h
    · exact here
    · apply (stores.stored h).keeps keeps
      intro body stored
      rwa [same cell different]

end Stores

/-- In every run everything that was asked to be written stands in the bin. -/
theorem Run.stores {writer : HiveWriter} {contents : Contents} (run : Run writer contents)
    (small : writer.bins.size < 2 ^ 31) : ∃ heap, Stores writer contents heap := by
  induction run with
  | start => exact ⟨fun _ => none, .start, fun h => by cases h⟩
  | key before name ih =>
      obtain ⟨heap, stores⟩ := ih (Nat.lt_of_le_of_lt (size_le_alloc _ _) small)
      obtain ⟨grown, represents, extend, here⟩ :=
        stores.represents.exists_alloc (.patchable (paddedBody (keyBody _ _))) rfl small
      exact ⟨grown, stores.extend represents extend
        ⟨_, here, KeyRecord.inBody_new (by decide) name⟩⟩
  | rootKey before name ih =>
      obtain ⟨heap, stores⟩ := ih (Nat.lt_of_le_of_lt (size_le_alloc _ _) small)
      obtain ⟨grown, represents, extend, here⟩ :=
        stores.represents.exists_alloc (.patchable (paddedBody (keyBody _ _))) rfl small
      -- The root offset is no part of the bin.
      have represents' : Represents (HiveWriter.rootKey _ name).writer grown :=
        ⟨represents.header_le, represents.holds, represents.behind, represents.apart⟩
      exact ⟨grown, stores.extend represents' extend
        ⟨_, here, KeyRecord.inBody_new (by decide) name⟩⟩
  | list before shape offsets ih =>
      obtain ⟨heap, stores⟩ := ih (Nat.lt_of_le_of_lt (size_le_alloc _ _) small)
      obtain ⟨grown, represents, extend, here⟩ :=
        stores.represents.exists_alloc (.fixed (paddedBody (listBody _ _))) rfl small
      exact ⟨grown, stores.extend represents extend here⟩
  | setSubkeys before written list count ih =>
      obtain ⟨heap, stores⟩ := ih (Nat.lt_of_le_of_lt (size_le_setSubkeys _ _ _ _) small)
      obtain ⟨body, stored, inBody⟩ := stores.stored written
      obtain ⟨grown, represents, keeps, same, here⟩ :=
        stores.represents.patch_key stored inBody 0x14 0x1C count list (by omega) (by omega)
      exact ⟨grown, stores.patch represents keeps same ⟨_, here, inBody.setSubkeys list count⟩⟩
  | value before value ih =>
      obtain ⟨heap, stores⟩ := ih (Nat.lt_of_le_of_lt (size_le_value _ _) small)
      obtain ⟨grown, represents, extend, here⟩ := stores.represents.exists_value value small
      exact ⟨grown, stores.extend represents extend here⟩
  | setValues before written values ih =>
      obtain ⟨heap, stores⟩ := ih (Nat.lt_of_le_of_lt (size_le_setValues _ _ _) small)
      obtain ⟨middle, represents, extend, here⟩ :=
        stores.represents.exists_alloc (.fixed (paddedBody (offsetsBody values))) rfl
          (Nat.lt_of_le_of_lt
            (Nat.le_trans (size_le_patch _ _ _ _) (size_le_patch _ _ _ _)) small)
      have list : (Content.valueList values).StoredIn middle _ := here
      have listed := stores.extend represents extend list
      obtain ⟨body, stored, inBody⟩ := stores.stored written
      obtain ⟨grown, represents', keeps, same, here'⟩ :=
        represents.patch_key (extend stored) inBody 0x24 0x28 (UInt32.ofNat values.length) _
          (by omega) (by omega)
      exact ⟨grown, listed.patch represents' keeps same ⟨_, here', inBody.setValues _ _⟩⟩

end HiveWriter

end RegistryHive
