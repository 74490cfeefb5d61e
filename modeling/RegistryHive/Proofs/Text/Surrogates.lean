import RegistryHive.Proofs.Text.Utf16

/-!
# What decoding UTF-16 keeps

Whether a surrogate is part of a pair is seen from the two units beside it. Decoding goes through
the units from left to right and takes two at a time where they are a pair, and yet it drops
exactly the surrogates that stand alone in this sense (`encodeUnits_decodeUnits`): two halves that
stand apart never come together, because only units that are alone are dropped between them. So
the text that is read is the only one whose units are those of the bytes without the lonely
surrogates, and a decoder that refuses lonely surrogates agrees with it on all bytes that it
accepts (`decode_exact`).
-/

namespace RegistryHive.Utf16

/-- The unit is a surrogate that is not part of a pair, as the units before and after it show. -/
def isUnpaired (before : Option UInt16) (unit : UInt16) (after : Option UInt16) : Bool :=
  isLeading unit && !after.any isTrailing || isTrailing unit && !before.any isLeading

/-- The units without unpaired surrogates, where `before` is the unit in front of them. -/
def pairedBehind (before : Option UInt16) : List UInt16 → List UInt16
  | [] => []
  | unit :: rest =>
    if isUnpaired before unit rest.head? then pairedBehind (some unit) rest
    else unit :: pairedBehind (some unit) rest

/-- The units without unpaired surrogates. -/
def paired (units : List UInt16) : List UInt16 := pairedBehind none units

section Units

variable {before after : Option UInt16} {unit next : UInt16} {rest : List UInt16}

theorem isTrailing_of_isLeading (leading : isLeading unit = true) : isTrailing unit = false := by
  rw [Bool.eq_false_iff, Ne, isTrailing_iff]
  rw [isLeading_iff] at leading
  omega

theorem isLeading_of_isTrailing (trailing : isTrailing unit = true) : isLeading unit = false := by
  rw [Bool.eq_false_iff, Ne, isLeading_iff]
  rw [isTrailing_iff] at trailing
  omega

theorem isUnpaired_of_isLeading (leading : isLeading unit = true) :
    isUnpaired before unit after = !after.any isTrailing := by
  rw [isUnpaired, leading, isTrailing_of_isLeading leading, Bool.true_and, Bool.false_and,
    Bool.or_false]

theorem isUnpaired_of_isTrailing (trailing : isTrailing unit = true) :
    isUnpaired before unit after = !before.any isLeading := by
  rw [isUnpaired, trailing, isLeading_of_isTrailing trailing, Bool.true_and, Bool.false_and,
    Bool.false_or]

theorem isUnpaired_of_plain (leading : isLeading unit = false)
    (trailing : isTrailing unit = false) :
    isUnpaired before unit after = false := by
  rw [isUnpaired, leading, trailing]
  rfl

/-- A surrogate is unpaired that does not end the pair before it and does not begin one. -/
theorem isUnpaired_of_surrogate (apart : before.any isLeading = true → isTrailing unit = false)
    (noPair : isLeading unit = true → after.any isTrailing = false)
    (surrogate : isLeading unit = true ∨ isTrailing unit = true) :
    isUnpaired before unit after = true := by
  rcases surrogate with leading | trailing
  · rw [isUnpaired_of_isLeading leading, noPair leading]
    rfl
  · have free : before.any isLeading = false := by
      rw [Bool.eq_false_iff]
      intro begun
      rw [apart begun] at trailing
      cases trailing
    rw [isUnpaired_of_isTrailing trailing, free]
    rfl

theorem pairedBehind_of_unpaired (alone : isUnpaired before unit rest.head? = true) :
    pairedBehind before (unit :: rest) = pairedBehind (some unit) rest := if_pos alone

theorem pairedBehind_of_not_unpaired (kept : isUnpaired before unit rest.head? = false) :
    pairedBehind before (unit :: rest) = unit :: pairedBehind (some unit) rest := by
  rw [pairedBehind, kept]
  rfl

theorem toNat_ofNat_of_valid {n : Nat} (valid : n.isValidChar) : (Char.ofNat n).toNat = n := by
  rw [Char.ofNat, dif_pos valid]
  rfl

/-- The unit of a character that takes one unit. -/
theorem encodeChar_ofNat (leading : isLeading unit = false) (trailing : isTrailing unit = false) :
    encodeChar (Char.ofNat unit.toNat) = [unit] := by
  have small := unit.toNat_lt
  have valid : unit.toNat.isValidChar := by
    rw [Bool.eq_false_iff, Ne, isLeading_iff] at leading
    rw [Bool.eq_false_iff, Ne, isTrailing_iff] at trailing
    unfold Nat.isValidChar
    omega
  have code : (Char.ofNat unit.toNat).toNat = unit.toNat := toNat_ofNat_of_valid valid
  rw [encodeChar_of_lt (by omega), code, UInt16.ofNat_toNat]

/-- The units of a pair are the units of the character that they stand for. -/
theorem encodeChar_pairChar (leading : isLeading unit = true) (trailing : isTrailing next = true) :
    encodeChar (pairChar unit next) = [unit, next] := by
  rw [isLeading_iff] at leading
  rw [isTrailing_iff] at trailing
  have valid : (0x10000 + (unit.toNat - 0xD800) * 0x400 + (next.toNat - 0xDC00)).isValidChar := by
    unfold Nat.isValidChar
    omega
  have code : (pairChar unit next).toNat =
      0x10000 + (unit.toNat - 0xD800) * 0x400 + (next.toNat - 0xDC00) :=
    toNat_ofNat_of_valid valid
  have high : 0xD800 + ((pairChar unit next).toNat - 0x10000) / 0x400 = unit.toNat := by omega
  have low : 0xDC00 + ((pairChar unit next).toNat - 0x10000) % 0x400 = next.toNat := by omega
  rw [encodeChar_of_le (by omega), high, low, UInt16.ofNat_toNat, UInt16.ofNat_toNat]

theorem encodeUnits_push (text : String) (c : Char) :
    encodeUnits (text.push c) = encodeUnits text ++ encodeChar c := by
  simp [encodeUnits, String.toList_push]

end Units

/-- The units of the text that units are decoded to, behind those of the text that was there. A
leading surrogate in front of them, which the decoder has passed over, is not followed by the other
half of a pair. -/
theorem encodeUnits_decodeOnto (text : String) (units : List UInt16) {before : Option UInt16}
    (apart : before.any isLeading = true → units.head?.any isTrailing = false) :
    encodeUnits (decodeOnto text units) = encodeUnits text ++ pairedBehind before units := by
  fun_induction decodeOnto text units generalizing before with
  | case1 text => exact (List.append_nil _).symm
  | case2 text unit surrogate =>
      have alone : isUnpaired before unit none = true :=
        isUnpaired_of_surrogate apart (fun _ => rfl) (Bool.or_eq_true _ _ ▸ surrogate)
      rw [pairedBehind_of_unpaired alone]
      exact (List.append_nil _).symm
  | case3 text unit plain =>
      obtain ⟨leading, trailing⟩ := Bool.or_eq_false_iff.mp (Bool.eq_false_iff.mpr plain)
      rw [encodeUnits_push, encodeChar_ofNat leading trailing,
        pairedBehind_of_not_unpaired (isUnpaired_of_plain leading trailing)]
      rfl
  | case4 text unit next rest pair ih =>
      obtain ⟨leading, trailing⟩ := (Bool.and_eq_true _ _).mp pair
      have first : isUnpaired before unit (next :: rest).head? = false := by
        rw [isUnpaired_of_isLeading leading, List.head?_cons, Option.any_some, trailing]
        rfl
      have second : isUnpaired (some unit) next rest.head? = false := by
        rw [isUnpaired_of_isTrailing trailing, Option.any_some, leading]
        rfl
      have later : (some next).any isLeading = true → rest.head?.any isTrailing = false := by
        rw [Option.any_some, isLeading_of_isTrailing trailing]
        exact fun absurd => by cases absurd
      rw [ih later, encodeUnits_push, encodeChar_pairChar leading trailing,
        pairedBehind_of_not_unpaired first, pairedBehind_of_not_unpaired second, List.append_assoc]
      rfl
  | case5 text unit next rest noPair surrogate ih =>
      -- What was dropped is in front of the next unit now, which does not end a pair with it.
      have later : (some unit).any isLeading = true →
          (next :: rest).head?.any isTrailing = false := by
        intro leading
        rw [Option.any_some] at leading
        rw [List.head?_cons, Option.any_some, Bool.eq_false_iff]
        intro trailing
        rw [leading, trailing] at noPair
        exact noPair rfl
      have alone := isUnpaired_of_surrogate apart later (Bool.or_eq_true _ _ ▸ surrogate)
      rw [ih later, pairedBehind_of_unpaired alone]
  | case6 text unit next rest noPair plain ih =>
      obtain ⟨leading, trailing⟩ := Bool.or_eq_false_iff.mp (Bool.eq_false_iff.mpr plain)
      have later : (some unit).any isLeading = true →
          (next :: rest).head?.any isTrailing = false := by
        rw [Option.any_some, leading]
        exact fun absurd => by cases absurd
      rw [ih later, encodeUnits_push, encodeChar_ofNat leading trailing,
        pairedBehind_of_not_unpaired (isUnpaired_of_plain leading trailing), List.append_assoc]
      rfl

/-- The units of the text that units are decoded to are the units without unpaired surrogates. -/
theorem encodeUnits_decodeUnits (units : List UInt16) :
    encodeUnits (decodeUnits units) = paired units := by
  have alone : (none : Option UInt16).any isLeading = true → units.head?.any isTrailing = false :=
    fun absurd => by cases absurd
  exact encodeUnits_decodeOnto "" units alone

/-- Units that are no surrogates are kept, all of them. -/
theorem count_pairedBehind {unit : UInt16} (leading : isLeading unit = false)
    (trailing : isTrailing unit = false) (before : Option UInt16) (units : List UInt16) :
    (pairedBehind before units).count unit = units.count unit := by
  induction units generalizing before with
  | nil => rfl
  | cons other rest ih =>
      cases alone : isUnpaired before other rest.head? with
      | false => rw [pairedBehind_of_not_unpaired alone, List.count_cons, List.count_cons, ih]
      | true =>
          have different : other ≠ unit := by
            rintro rfl
            rw [isUnpaired_of_plain leading trailing] at alone
            cases alone
          rw [pairedBehind_of_unpaired alone, List.count_cons_of_ne different, ih]

section Counted

variable {c : Char} (small : c.toNat < 0x10000)

include small

theorem count_encodeChar (d : Char) :
    (encodeChar d).count (UInt16.ofNat c.toNat) = if d = c then 1 else 0 := by
  split
  · rename_i same
    rw [same, encodeChar_of_lt small, List.count_singleton_self]
  · rename_i different
    apply List.count_eq_zero_of_not_mem
    intro member
    by_cases small' : d.toNat < 0x10000
    · rw [encodeChar_of_lt small', List.mem_singleton] at member
      have code := congrArg UInt16.toNat member
      rw [toNat_ofNat small, toNat_ofNat small'] at code
      exact different (Char.toNat_inj.mp code.symm)
    · obtain ⟨first, second, units, leading, trailing, -⟩ := exists_pair (Nat.le_of_not_lt small')
      rw [units, List.mem_cons, List.mem_singleton] at member
      rcases member with rfl | rfl
      · rw [isLeading_ofNat small] at leading
        cases leading
      · rw [isTrailing_ofNat small] at trailing
        cases trailing

/-- A character that takes one unit stands in a text as often as its unit in the units. -/
theorem count_encodeUnits (text : String) :
    (encodeUnits text).count (UInt16.ofNat c.toNat) = text.toList.count c := by
  rw [encodeUnits]
  induction text.toList with
  | nil => rfl
  | cons d rest ih =>
      rw [List.flatMap_cons, List.count_append, ih, count_encodeChar small, List.count_cons,
        Nat.add_comm]
      simp only [beq_iff_eq]

end Counted

/-- The units of the text at the start of a view. -/
def textUnits (view : ByteView) : List UInt16 := (units view).takeWhile (· ≠ 0)

/-- The bytes of the text at the start of a view. -/
def textBytes (view : ByteView) : ByteArray :=
  (view.part 0 (2 * (textUnits view).length)).content

theorem textBytes_eq (view : ByteView) : textBytes view = bytesOf (textUnits view) := by
  have front : textUnits view <+: units view := List.takeWhile_prefix _
  have stands : HoldsAt view.content 0 (bytesOf (textUnits view)) := by
    refine holdsAt_joined_of_getElem (size_of_mem_map_u16Bytes _) (Nat.zero_le _) fun i hi => ?_
    rw [List.length_map] at hi
    have inside : i < (units view).length := Nat.lt_of_lt_of_le hi front.length_le
    have unit : (textUnits view)[i] = u16At view.content (2 * i) := by
      rw [front.getElem hi, ByteView.u16At_content]
      simp only [units_eq, List.getElem_map, List.getElem_range]
    rw [List.getElem_map, unit, Nat.zero_add]
    rw [length_units] at inside
    apply holdsAt_u16At
    rw [ByteView.size_content]
    omega
  have cut := stands.extract_eq
  rwa [Nat.zero_add, size_bytesOf, ← ByteView.content_part] at cut

/-- The units of the bytes of a text are its units. -/
theorem units_textBytes (view : ByteView) : units (textBytes view) = textUnits view := by
  rw [textBytes_eq, units_bytesOf]

/-- A decoder of whole texts that accepts the bytes of every text, and no others. -/
def IsStrict (strict : ByteArray → Option String) : Prop :=
  ∀ bytes text, strict bytes = some text ↔ encode text = bytes

/-- The text at the start of a view as it is read with a strict decoder. Only bytes that the decoder
refuses are decoded unit by unit. -/
def decodeWith (strict : ByteArray → Option String) (view : ByteView) : String :=
  match strict (textBytes view) with
  | some text => text
  | none => decodeUnits (units (textBytes view))

section Strict

variable {strict : ByteArray → Option String} (isStrict : IsStrict strict)

include isStrict

/-- What a strict decoder accepts is decoded to the same text unit by unit. -/
theorem decodeUnits_of_strict {bytes : ByteArray} {text : String}
    (accepted : strict bytes = some text) : decodeUnits (units bytes) = text := by
  have encoded := (isStrict bytes text).mp accepted
  rw [← encoded, encode_eq, units_bytesOf, decodeUnits_encodeUnits]

theorem decodeWith_eq (view : ByteView) : decodeWith strict view = decode view := by
  have slow : decodeUnits (units (textBytes view)) = decode view := by
    rw [units_textBytes, decode_eq]
    rfl
  rw [decodeWith]
  split
  · rename_i text accepted
    rw [← slow, decodeUnits_of_strict isStrict accepted]
  · exact slow

end Strict

/-- What stands behind a text and a zero unit does not belong to the text. -/
theorem decode_before_zero {text : String} (nonzero : ∀ c ∈ text.toList, 0 < c.toNat)
    (tail : ByteArray) : decode (encode text ++ u16Bytes 0 ++ tail) = text := by
  have content : ByteView.content (encode text ++ u16Bytes 0 ++ tail) =
      bytesOf (encodeUnits text ++ [0]) ++ tail := by
    rw [ByteView.content_ofBytes, encode_eq, bytesOf_append, bytesOf_singleton]
  have ended : (encodeUnits text ++ 0 :: units tail).takeWhile (fun unit => decide (unit ≠ 0)) =
      encodeUnits text := by
    rw [List.takeWhile_append_of_pos fun unit member =>
      decide_eq_true (ne_zero_of_mem_encodeUnits nonzero unit member)]
    exact List.append_nil _
  rw [decode_eq, units_of_content_eq_append content, List.append_assoc, List.singleton_append,
    ended, decodeUnits_encodeUnits]

/-- An odd byte behind a text does not belong to it. -/
theorem decode_before_odd {text : String} (nonzero : ∀ c ∈ text.toList, 0 < c.toNat)
    (byte : UInt8) : decode (encode text ++ [byte].toByteArray) = text := by
  have content : ByteView.content (encode text ++ [byte].toByteArray) =
      bytesOf (encodeUnits text) ++ [byte].toByteArray := by
    rw [ByteView.content_ofBytes, encode_eq]
  have odd : [byte].toByteArray.size < 2 := by
    rw [List.size_toByteArray, List.length_singleton]
    decide
  rw [decode_eq, units_of_content_eq content odd, takeWhile_encodeUnits nonzero,
    decodeUnits_encodeUnits]

/-- The text that is read is the one text whose units are those before the first zero unit without
the unpaired surrogates. Reading with a strict decoder first gives the same, and so do both ways
where the decoder accepts the bytes. Every character that takes one unit stands in the text as often
as in the units. A text without the zero character is read back from its bytes, whatever stands
behind a zero unit, and in front of an odd byte. -/
theorem decode_exact (view : ByteView) :
    (∀ text, encodeUnits text = paired (textUnits view) ↔ text = decode view) ∧
    (∀ strict, IsStrict strict → decodeWith strict view = decode view ∧
      ∀ bytes text, strict bytes = some text → decodeUnits (units bytes) = text) ∧
    (∀ c : Char, c.toNat < 0x10000 →
      (decode view).toList.count c = (textUnits view).count (UInt16.ofNat c.toNat)) ∧
    ∀ text : String, (∀ c ∈ text.toList, 0 < c.toNat) →
      (∀ tail : ByteArray, decode (encode text ++ u16Bytes 0 ++ tail) = text) ∧
      ∀ byte : UInt8, decode (encode text ++ [byte].toByteArray) = text := by
  have units_eq : encodeUnits (decode view) = paired (textUnits view) := by
    rw [decode_eq]
    exact encodeUnits_decodeUnits _
  refine ⟨fun text => ⟨fun same => ?_, fun same => same ▸ units_eq⟩, fun strict isStrict => ?_,
    fun c small => ?_, fun text nonzero => ?_⟩
  · rw [← decodeUnits_encodeUnits text, same, ← units_eq, decodeUnits_encodeUnits]
  · exact ⟨decodeWith_eq isStrict view, fun bytes text => decodeUnits_of_strict isStrict⟩
  · rw [← count_encodeUnits small, units_eq]
    exact count_pairedBehind (isLeading_ofNat small) (isTrailing_ofNat small) none _
  · exact ⟨decode_before_zero nonzero, decode_before_odd nonzero⟩

/-- A strict decoder: bytes that a text is decoded from and encoded to. -/
def decodeStrictly (bytes : ByteArray) : Option String :=
  if encode (decodeUnits (units bytes)) = bytes then some (decodeUnits (units bytes)) else none

theorem isStrict_decodeStrictly : IsStrict decodeStrictly := by
  intro bytes text
  rw [decodeStrictly]
  constructor
  · intro accepted
    split at accepted
    · rename_i same
      rw [← Option.some.inj accepted, same]
    · cases accepted
  · intro encoded
    have decoded : decodeUnits (units bytes) = text := by
      rw [← encoded, encode_eq, units_bytesOf, decodeUnits_encodeUnits]
    rw [decoded, if_pos encoded]

/-- A leading surrogate before a pair, a trailing one behind it and a mark of byte order. Both
lonely surrogates go, the pair and the mark stay. -/
theorem decode_exact_beside_pair :
    let bytes := bytesOf [0x61, 0xD83D, 0xD83D, 0xDE00, 0xDE00, 0xFEFF, 0, 0x62] ++
      [0x41].toByteArray
    textUnits bytes = [0x61, 0xD83D, 0xD83D, 0xDE00, 0xDE00, 0xFEFF] ∧
      paired (textUnits bytes) = [0x61, 0xD83D, 0xDE00, 0xFEFF] ∧
      decode bytes = "a😀\uFEFF" ∧ IsStrict decodeStrictly ∧
      decodeStrictly (textBytes bytes) = none ∧ decodeWith decodeStrictly bytes = "a😀\uFEFF" ∧
      (decode bytes).toList.count (Char.ofNat 0xFEFF) = 1 ∧
      decode (encode "a😀" ++ u16Bytes 0 ++ bytes) = "a😀" := by
  intro bytes
  have whole : textUnits bytes = [0x61, 0xD83D, 0xD83D, 0xDE00, 0xDE00, 0xFEFF] := by
    decide
  have kept : paired (textUnits bytes) = [0x61, 0xD83D, 0xDE00, 0xFEFF] := by
    rw [whole]
    decide
  obtain ⟨only, strict, counted, back⟩ := decode_exact bytes
  have read : decode bytes = "a😀\uFEFF" := by
    symm
    apply (only _).mp
    rw [kept]
    decide
  refine ⟨whole, kept, read, isStrict_decodeStrictly, ?_, ?_, ?_, ?_⟩
  · decide
  · rw [(strict _ isStrict_decodeStrictly).1, read]
  · rw [counted (Char.ofNat 0xFEFF) (by decide), whole]
    decide
  · exact (back "a😀" (by simp)).1 bytes

end RegistryHive.Utf16
