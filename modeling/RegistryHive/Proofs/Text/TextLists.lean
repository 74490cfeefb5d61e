import RegistryHive.Proofs.Text.Utf16
import RegistryHive.ValueData

/-!
# Payloads that hold a list of texts

A list of texts is stored as its texts with a zero unit behind each one, and one more zero unit at
the end. It is read in a single pass over the units, and what comes out can be said without the
pass (`splitTexts_eq`): the units before the first two zero units in a row are cut at their zero
units, and every piece that is not empty is a text. So a list is read back, whatever stands behind
it and also if its last zero units are missing (`decode_multiString`). The list of no texts is the
exception: it is stored as a single zero unit, which ends nothing, so that a text behind it is taken
for its own (`single_zero_ends_nothing`).
-/

namespace RegistryHive

/-- The units before the first two zero units in a row. -/
def beforeDoubleZero : List UInt16 → List UInt16
  | [] => []
  | unit :: rest =>
    if unit = 0 ∧ rest.head? = some 0 then [] else unit :: beforeDoubleZero rest

/-- The pieces between zero units that are not empty. -/
def pieces (units : List UInt16) : List (List UInt16) :=
  (units.splitOn 0).filter fun piece => !piece.isEmpty

/-- The text that is stored in the bytes of a piece. -/
def textOf (piece : List UInt16) : String := Utf16.decode (Utf16.bytesOf piece)

section Pieces

variable {unit : UInt16} {piece rest : List UInt16}

@[simp] theorem pieces_nil : pieces [] = [] := rfl

/-- Units are cut at a zero unit. -/
theorem pieces_append_zero (units rest : List UInt16) :
    pieces (units ++ 0 :: rest) = pieces units ++ pieces rest := by
  rw [pieces, List.splitOn_append_cons_self, List.filter_append]
  rfl

/-- Units other than zero are one piece. -/
theorem pieces_of_nonzero (nonzero : 0 ∉ piece) (nonempty : piece ≠ []) :
    pieces piece = [piece] := by
  rw [pieces, List.splitOn_eq_singleton nonzero]
  simp [nonempty]

theorem beforeDoubleZero_cons (nonzero : unit ≠ 0) :
    beforeDoubleZero (unit :: rest) = unit :: beforeDoubleZero rest :=
  if_neg fun double => nonzero double.1

theorem beforeDoubleZero_append (nonzero : 0 ∉ piece) :
    beforeDoubleZero (piece ++ rest) = piece ++ beforeDoubleZero rest := by
  induction piece with
  | nil => rfl
  | cons unit later ih =>
      have first : unit ≠ 0 := fun zero => nonzero (zero ▸ List.mem_cons_self)
      have others : 0 ∉ later := fun member => nonzero (List.mem_cons_of_mem unit member)
      rw [List.cons_append, beforeDoubleZero_cons first, ih others]
      rfl

theorem textOf_eq (nonzero : 0 ∉ piece) : textOf piece = Utf16.decodeUnits piece := by
  have whole : piece.takeWhile (fun unit => decide (unit ≠ 0)) = piece := by
    refine List.takeWhile_eq_self_iff.mpr fun unit member => decide_eq_true ?_
    exact fun zero => nonzero (zero ▸ member)
  rw [textOf, Utf16.decode_eq, Utf16.units_bytesOf, whole]

end Pieces

/-- The units that still belong to a list where a zero unit stands in front of them: none behind
another zero unit. -/
def behindZero (units : List UInt16) : List UInt16 :=
  if units.head? = some 0 then [] else beforeDoubleZero units

theorem behindZero_of_head {units : List UInt16} (single : units.head? ≠ some 0) :
    behindZero units = beforeDoubleZero units := if_neg single

/-- A zero unit ends the piece in front of it. -/
theorem pieces_beforeDoubleZero_zero (piece rest : List UInt16) :
    pieces (piece ++ beforeDoubleZero (0 :: rest)) = pieces piece ++ pieces (behindZero rest) := by
  rw [beforeDoubleZero, behindZero]
  split
  · rename_i double
    rw [if_pos double.2, pieces_nil, List.append_nil, List.append_nil]
  · rename_i single
    rw [if_neg fun zero => single ⟨rfl, zero⟩, pieces_append_zero]

section Pass

variable {found : List String} {segment : List UInt16}

/-- The texts found so far, with the current segment as one more text unless it is empty. -/
theorem reverse_addText (nonzero : 0 ∉ segment) :
    (gatherTexts.addText segment found).reverse =
      found.reverse ++ (pieces segment.reverse).map textOf := by
  have nonzero' : 0 ∉ segment.reverse := fun member => nonzero (List.mem_reverse.mp member)
  rw [gatherTexts.addText]
  split
  · rename_i empty
    rw [List.isEmpty_iff.mp empty]
    exact (List.append_nil _).symm
  · rename_i some
    have nonempty : segment.reverse ≠ [] := by simpa using some
    rw [pieces_of_nonzero nonzero' nonempty, List.map_singleton, textOf_eq nonzero',
      List.reverse_cons]

/-- The pass finds the texts in the current segment and the units that still belong to the list. -/
theorem gatherTexts_eq (nonzero : 0 ∉ segment) {afterZero : Bool}
    (fresh : afterZero = true → segment = []) (units : List UInt16) :
    gatherTexts found segment afterZero units =
      found.reverse ++ (pieces (segment.reverse ++
        if afterZero then behindZero units else beforeDoubleZero units)).map textOf := by
  fun_induction gatherTexts found segment afterZero units with
  | case1 found segment afterZero =>
      have none : (if afterZero then behindZero [] else beforeDoubleZero []) = [] := by
        cases afterZero <;> rfl
      rw [none, List.append_nil, reverse_addText nonzero]
  | case2 found segment rest =>
      rw [fresh rfl]
      exact (List.append_nil _).symm
  | case3 found segment afterZero rest notAfterZero ih =>
      have rest_eq := ih List.not_mem_nil fun _ => rfl
      rw [if_pos rfl, List.reverse_nil, List.nil_append] at rest_eq
      rw [if_neg notAfterZero, rest_eq, reverse_addText nonzero, pieces_beforeDoubleZero_zero,
        List.map_append, List.append_assoc]
  | case4 found segment afterZero unit rest nonzeroUnit ih =>
      have nonzero' : 0 ∉ unit :: segment := by
        simpa [eq_comm] using ⟨nonzeroUnit, nonzero⟩
      have units_eq : (if afterZero then behindZero (unit :: rest)
          else beforeDoubleZero (unit :: rest)) = unit :: beforeDoubleZero rest := by
        rw [behindZero_of_head (by simpa using nonzeroUnit), ite_self,
          beforeDoubleZero_cons nonzeroUnit]
      rw [ih nonzero' (fun absurd => by cases absurd), units_eq, List.reverse_cons,
        List.append_assoc]
      rfl

/-- The texts of a payload are the pieces of the units before the first two zero units in a row. -/
theorem splitTexts_eq (bytes : ByteArray) :
    splitTexts bytes = (pieces (beforeDoubleZero (Utf16.units bytes))).map textOf :=
  gatherTexts_eq List.not_mem_nil (fun absurd => by cases absurd) (Utf16.units bytes)

end Pass

/-- A text of a list: it is not empty and holds no zero character. -/
structure IsListed (text : String) : Prop where
  nonempty : text ≠ ""
  nonzero : ∀ c ∈ text.toList, 0 < c.toNat

namespace IsListed

variable {text : String}

theorem zero_not_mem (listed : IsListed text) : 0 ∉ Utf16.encodeUnits text :=
  fun member => Utf16.ne_zero_of_mem_encodeUnits listed.nonzero 0 member rfl

theorem encodeUnits_ne_nil (listed : IsListed text) : Utf16.encodeUnits text ≠ [] := by
  intro none
  apply listed.nonempty
  rw [← Utf16.decodeUnits_encodeUnits text, none]
  rfl

theorem textOf_eq (listed : IsListed text) : textOf (Utf16.encodeUnits text) = text := by
  rw [RegistryHive.textOf_eq listed.zero_not_mem, Utf16.decodeUnits_encodeUnits]

end IsListed

/-- The units of texts, with a zero unit behind each text. -/
def listUnits (texts : List String) : List UInt16 :=
  texts.flatMap fun text => Utf16.encodeUnits text ++ [0]

/-- The bytes of texts, with a zero unit behind each text. -/
def encodeTexts (texts : List String) : ByteArray :=
  joined (texts.map fun text => Utf16.encode text ++ u16Bytes 0)

theorem encodeTexts_eq (texts : List String) :
    encodeTexts texts = Utf16.bytesOf (listUnits texts) := by
  induction texts with
  | nil => rfl
  | cons text rest ih =>
      have units_eq : listUnits (text :: rest) =
          Utf16.encodeUnits text ++ [0] ++ listUnits rest := rfl
      rw [units_eq, Utf16.bytesOf_append, Utf16.bytesOf_append, Utf16.bytesOf_singleton,
        ← Utf16.encode_eq, ← ih]
      rfl

section Lists

variable {texts : List String}

theorem listUnits_cons_append (text : String) (texts : List String) (rest : List UInt16) :
    listUnits (text :: texts) ++ rest =
      Utf16.encodeUnits text ++ 0 :: (listUnits texts ++ rest) := by
  simp [listUnits]

/-- A text in front of a zero unit is a piece of its own. -/
theorem IsListed.pieces_eq {text : String} (listed : IsListed text) (rest : List UInt16) :
    pieces (beforeDoubleZero (Utf16.encodeUnits text ++ 0 :: rest)) =
      Utf16.encodeUnits text :: pieces (behindZero rest) := by
  rw [beforeDoubleZero_append listed.zero_not_mem, pieces_beforeDoubleZero_zero,
    pieces_of_nonzero listed.zero_not_mem listed.encodeUnits_ne_nil, List.singleton_append]

theorem IsListed.head?_ne {text : String} (listed : IsListed text) (rest : List UInt16) :
    (Utf16.encodeUnits text ++ rest).head? ≠ some 0 := by
  obtain ⟨unit, later, units⟩ := List.exists_cons_of_ne_nil listed.encodeUnits_ne_nil
  intro zero
  rw [units, List.cons_append, List.head?_cons] at zero
  apply listed.zero_not_mem
  rw [units, Option.some.inj zero]
  exact List.mem_cons_self

/-- Behind a zero unit, every text of a list is a piece of its own. -/
theorem pieces_behindZero_listUnits (listed : ∀ text ∈ texts, IsListed text) (rest : List UInt16) :
    pieces (behindZero (listUnits texts ++ rest)) =
      texts.map Utf16.encodeUnits ++ pieces (behindZero rest) := by
  induction texts with
  | nil => rfl
  | cons text later ih =>
      have first := listed text List.mem_cons_self
      have others := ih fun other member => listed other (List.mem_cons_of_mem text member)
      rw [listUnits_cons_append, behindZero_of_head (first.head?_ne _), first.pieces_eq, others]
      rfl

/-- Every text of a list is a piece of its own, also if the list begins without a zero unit. -/
theorem pieces_beforeDoubleZero_listUnits (listed : ∀ text ∈ texts, IsListed text)
    {rest : List UInt16} (single : texts = [] → rest.head? ≠ some 0) :
    pieces (beforeDoubleZero (listUnits texts ++ rest)) =
      texts.map Utf16.encodeUnits ++ pieces (behindZero rest) := by
  rw [← pieces_behindZero_listUnits listed, behindZero_of_head]
  cases texts with
  | nil => exact single rfl
  | cons text later =>
      rw [listUnits_cons_append]
      exact (listed text List.mem_cons_self).head?_ne _

theorem map_textOf_encodeUnits (listed : ∀ text ∈ texts, IsListed text) :
    (texts.map Utf16.encodeUnits).map textOf = texts := by
  rw [List.map_map]
  exact (List.map_congr_left fun text member => (listed text member).textOf_eq).trans
    (List.map_id _)

end Lists

section Payloads

variable {texts : List String} (listed : ∀ text ∈ texts, IsListed text)

include listed

/-- A list is read back, whatever stands behind its last zero unit. The list of no texts is none if
a text may begin there. -/
theorem splitTexts_terminated {tail : ByteArray}
    (ended : texts = [] → ∀ unit, (Utf16.units tail).head? = some unit → unit = 0) :
    splitTexts (encodeTexts texts ++ u16Bytes 0 ++ tail) = texts := by
  have content : ByteView.content (encodeTexts texts ++ u16Bytes 0 ++ tail) =
      Utf16.bytesOf (listUnits texts ++ [0]) ++ tail := by
    rw [ByteView.content_ofBytes, encodeTexts_eq, Utf16.bytesOf_append, Utf16.bytesOf_singleton]
  have pieces_eq : pieces (beforeDoubleZero (listUnits texts ++ 0 :: Utf16.units tail)) =
      texts.map Utf16.encodeUnits := by
    cases texts with
    | nil =>
        have none : behindZero (Utf16.units tail) = [] := by
          cases units_eq : Utf16.units tail with
          | nil => rfl
          | cons unit later =>
              have zero := ended rfl unit (by rw [units_eq, List.head?_cons])
              exact if_pos (congrArg some zero)
        have single := pieces_beforeDoubleZero_zero [] (Utf16.units tail)
        rw [none] at single
        exact single
    | cons text later =>
        rw [pieces_beforeDoubleZero_listUnits listed (fun absurd => by cases absurd)]
        exact List.append_nil _
  rw [splitTexts_eq, Utf16.units_of_content_eq_append content, List.append_assoc,
    List.singleton_append, pieces_eq, map_textOf_encodeUnits listed]

/-- A list is read back if the zero unit at its end is missing. -/
theorem splitTexts_encodeTexts : splitTexts (encodeTexts texts) = texts := by
  have nothing : texts = [] → ([] : List UInt16).head? ≠ some 0 := fun _ absurd => by cases absurd
  have pieces_eq := pieces_beforeDoubleZero_listUnits listed nothing
  rw [List.append_nil] at pieces_eq
  rw [splitTexts_eq, encodeTexts_eq, Utf16.units_bytesOf, pieces_eq]
  exact (congrArg _ (List.append_nil _)).trans (map_textOf_encodeUnits listed)

/-- A list is read back if the zero unit behind its last text is missing too. -/
theorem splitTexts_unterminated {last : String} (lastListed : IsListed last) :
    splitTexts (encodeTexts texts ++ Utf16.encode last) = texts ++ [last] := by
  have bytes_eq : encodeTexts texts ++ Utf16.encode last =
      Utf16.bytesOf (listUnits texts ++ Utf16.encodeUnits last) := by
    rw [encodeTexts_eq, Utf16.encode_eq, Utf16.bytesOf_append]
  have head := lastListed.head?_ne []
  rw [List.append_nil] at head
  have piece : pieces (behindZero (Utf16.encodeUnits last)) = [Utf16.encodeUnits last] := by
    have whole : beforeDoubleZero (Utf16.encodeUnits last ++ []) = Utf16.encodeUnits last ++ [] :=
      beforeDoubleZero_append lastListed.zero_not_mem
    rw [List.append_nil] at whole
    rw [behindZero_of_head head, whole,
      pieces_of_nonzero lastListed.zero_not_mem lastListed.encodeUnits_ne_nil]
  rw [splitTexts_eq, bytes_eq, Utf16.units_bytesOf,
    pieces_beforeDoubleZero_listUnits listed (fun _ => head), piece, List.map_append,
    map_textOf_encodeUnits listed, List.map_singleton, lastListed.textOf_eq]

end Payloads

namespace ValueData

/-- A list of texts is the pieces of the units before the first two zero units in a row. A list
that was written is read back: whatever stands behind its last zero unit, as long as no other text
begins there if it is the list of no texts, and also without its last zero units. -/
theorem decode_multiString (bytes : ByteArray) :
    decode bytes .multiString =
        .multiString ((pieces (beforeDoubleZero (Utf16.units bytes))).map textOf) ∧
      ∀ texts : List String, (∀ text ∈ texts, IsListed text) →
        (∀ tail : ByteArray,
          (texts = [] → ∀ unit, (Utf16.units tail).head? = some unit → unit = 0) →
          decode (encodeTexts texts ++ u16Bytes 0 ++ tail) .multiString = .multiString texts) ∧
        decode (encodeTexts texts) .multiString = .multiString texts ∧
        ∀ last, IsListed last →
          decode (encodeTexts texts ++ Utf16.encode last) .multiString =
            .multiString (texts ++ [last]) := by
  refine ⟨congrArg multiString (splitTexts_eq bytes), fun texts listed => ⟨fun tail ended => ?_,
    ?_, fun last lastListed => ?_⟩⟩
  · exact congrArg multiString (splitTexts_terminated listed ended)
  · exact congrArg multiString (splitTexts_encodeTexts listed)
  · exact congrArg multiString (splitTexts_unterminated listed lastListed)

/-- Two texts are read back, before further units and an odd byte, and without the last zero
units. -/
theorem decode_multiString_two :
    (∀ text ∈ ["First", "a😀"], IsListed text) ∧
      decode (encodeTexts ["First", "a😀"] ++ u16Bytes 0 ++ [0x62, 0, 0, 0, 0x63].toByteArray)
        .multiString = .multiString ["First", "a😀"] ∧
      decode (encodeTexts ["First", "a😀"] ++ Utf16.encode "b") .multiString =
        .multiString ["First", "a😀", "b"] := by
  have listed : ∀ text ∈ ["First", "a😀"], IsListed text := by
    intro text member
    rcases List.mem_cons.mp member with rfl | member
    · exact ⟨by decide, by simp⟩
    · obtain rfl := List.mem_singleton.mp member
      exact ⟨by decide, by simp⟩
  obtain ⟨-, read⟩ := decode_multiString ByteArray.empty
  obtain ⟨terminated, -, unterminated⟩ := read _ listed
  have some : ["First", "a😀"] ≠ [] := List.cons_ne_nil _ _
  exact ⟨listed, terminated _ (fun none => absurd none some),
    unterminated "b" ⟨by decide, by simp⟩⟩

/-- The list of no texts is one zero unit, behind which a text is read. -/
theorem single_zero_ends_nothing :
    (∀ text ∈ ([] : List String), IsListed text) ∧
      decode (encodeTexts [] ++ u16Bytes 0 ++ Utf16.encode "a") .multiString =
        .multiString ["a"] ∧
      decode (encodeTexts [] ++ u16Bytes 0 ++ Utf16.encode "a") .multiString ≠
        .multiString [] := by
  have units_eq : Utf16.units (encodeTexts [] ++ u16Bytes 0 ++ Utf16.encode "a") = [0, 0x61] := by
    decide
  have read : decode (encodeTexts [] ++ u16Bytes 0 ++ Utf16.encode "a") .multiString =
      .multiString ["a"] := by
    rw [decode, splitTexts_eq, units_eq]
    decide
  refine ⟨fun text member => absurd member List.not_mem_nil, read, ?_⟩
  rw [read]
  decide

end ValueData

end RegistryHive
