import RegistryHive.Bytes

/-!
# Views of byte strings

Structures in a hive are read where they lie: a `ByteView` is a stretch of a
byte string that is looked at without being copied. `ByteView.content` copies
it. The main statements say that every observation of a view is that of its
content, so two views with one content cannot be told apart by reading them.
-/

namespace RegistryHive

/-- A stretch of a byte string. -/
structure ByteView where
  /-- The byte string that is looked at. -/
  bytes : ByteArray
  /-- The position of the first byte of the view. -/
  start : Nat
  /-- The number of bytes of the view. -/
  size : Nat
  /-- The view lies inside the byte string. -/
  fits : start + size ≤ bytes.size

namespace ByteView

/-- A whole byte string. -/
def ofBytes (bytes : ByteArray) : ByteView :=
  { bytes := bytes, start := 0, size := bytes.size, fits := by omega }

instance : Coe ByteArray ByteView := ⟨ofBytes⟩

/-- The bytes of the view on their own. -/
def content (view : ByteView) : ByteArray :=
  view.bytes.extract view.start (view.start + view.size)

/-- Byte `i` of the view, zero past its end. -/
def byteAt (view : ByteView) (i : Nat) : UInt8 :=
  if h : i < view.size then
    have inside : view.start + i < view.bytes.size := by have := view.fits; omega
    view.bytes[view.start + i]
  else 0

/-- The bytes of the view, in order. -/
def toList (view : ByteView) : List UInt8 := (List.range view.size).map view.byteAt

/-- The 16-bit word at a position. -/
def u16At (view : ByteView) (i : Nat) : UInt16 :=
  word16 (view.byteAt i) (view.byteAt (i + 1))

/-- The 32-bit word at a position. -/
def u32At (view : ByteView) (i : Nat) : UInt32 :=
  word32 (view.byteAt i) (view.byteAt (i + 1)) (view.byteAt (i + 2)) (view.byteAt (i + 3))

/-- The 64-bit word at a position. -/
def u64At (view : ByteView) (i : Nat) : UInt64 :=
  word64 (view.u32At i) (view.u32At (i + 4))

/-- The part of the view from one position up to another, as far as the view reaches. -/
def part (view : ByteView) (first last : Nat) : ByteView where
  bytes := view.bytes
  start := view.start + min first view.size
  size := min last view.size - min first view.size
  fits := by have := view.fits; omega

@[simp] theorem size_ofBytes (bytes : ByteArray) : (ofBytes bytes).size = bytes.size := rfl

@[simp] theorem size_content (view : ByteView) : view.content.size = view.size := by
  have := view.fits
  rw [content, ByteArray.size_extract]
  omega

@[simp] theorem size_part (view : ByteView) (first last : Nat) :
    (view.part first last).size = min last view.size - first := by
  simp only [part]
  omega

@[simp] theorem length_toList (view : ByteView) : view.toList.length = view.size := by
  simp [toList]

theorem getElem_toList (view : ByteView) (i : Nat) (h : i < view.toList.length) :
    view.toList[i] = view.byteAt i := by
  simp [toList]

/-- A byte of a view is that byte of its content. -/
@[simp] theorem byteAt_content (view : ByteView) (i : Nat) :
    RegistryHive.byteAt view.content i = view.byteAt i := by
  have fits := view.fits
  rw [content, byteAt_extract, byteAt]
  by_cases h : i < view.size
  · rw [if_pos (by omega), dif_pos h, RegistryHive.byteAt_of_lt (by omega)]
  · rw [if_neg (by omega), dif_neg h]

@[simp] theorem byteAt_ofBytes (bytes : ByteArray) (i : Nat) :
    (ofBytes bytes).byteAt i = RegistryHive.byteAt bytes i := by
  simp [byteAt, RegistryHive.byteAt, ofBytes]

theorem byteAt_of_lt {view : ByteView} {i : Nat} (h : i < view.size) :
    view.byteAt i = RegistryHive.byteAt view.bytes (view.start + i) := by
  have := view.fits
  rw [byteAt, dif_pos h, RegistryHive.byteAt_of_lt (by omega)]

theorem byteAt_of_le {view : ByteView} {i : Nat} (h : view.size ≤ i) :
    view.byteAt i = 0 := by
  rw [byteAt, dif_neg (by omega)]

theorem byteAt_part (view : ByteView) (first last i : Nat) :
    (view.part first last).byteAt i =
      if first + i < last then view.byteAt (first + i) else 0 := by
  by_cases inside : first + i < min last view.size
  · have position : (view.part first last).start + i = view.start + (first + i) := by
      simp only [part]
      omega
    rw [byteAt_of_lt (by rw [size_part]; omega), if_pos (by omega), byteAt_of_lt (by omega),
      position]
    rfl
  · rw [byteAt_of_le (by rw [size_part]; omega)]
    split
    · rw [byteAt_of_le (by omega)]
    · rfl

@[simp] theorem u16At_content (view : ByteView) (i : Nat) :
    RegistryHive.u16At view.content i = view.u16At i := by
  simp [RegistryHive.u16At, u16At]

@[simp] theorem u32At_content (view : ByteView) (i : Nat) :
    RegistryHive.u32At view.content i = view.u32At i := by
  simp [RegistryHive.u32At, u32At]

@[simp] theorem u64At_content (view : ByteView) (i : Nat) :
    RegistryHive.u64At view.content i = view.u64At i := by
  simp [RegistryHive.u64At, u64At]

@[simp] theorem content_ofBytes (bytes : ByteArray) : (ofBytes bytes).content = bytes :=
  bytes_ext (by simp) fun i _ => by simp

/-- A part of a view has that part of the content. -/
theorem content_part (view : ByteView) (first last : Nat) :
    (view.part first last).content = view.content.extract first last := by
  refine bytes_ext (by simp) fun i hi => ?_
  rw [size_content, size_part] at hi
  rw [byteAt_content, byteAt_part, byteAt_extract, size_content, byteAt_content,
    if_pos (by omega), if_pos (by omega)]

end ByteView

end RegistryHive
