/-!
# Texts in the order of their bytes

Texts are compared character by character. In UTF-8 a character has the more
bytes the greater its number is, and the first byte tells how many there are, so
the bytes of two texts come in the same order as the texts (`utf8Bytes_lt`).
-/

namespace RegistryHive.Text

/-- The bytes of a text in UTF-8. -/
def utf8Bytes (text : String) : List UInt8 := text.toUTF8.data.toList

/-- The bytes of a text are those of its characters. -/
theorem utf8Bytes_eq (text : String) :
    utf8Bytes text = text.toList.flatMap String.utf8EncodeChar := by
  rw [utf8Bytes, String.toUTF8_eq_toByteArray, ← String.utf8Encode_toList, List.utf8Encode,
    List.data_toByteArray]

/-- A lesser character has lesser bytes, whatever stands behind the characters. -/
theorem utf8EncodeChar_append_lt {c d : Char} (lt : c < d) (rest rest' : List UInt8) :
    String.utf8EncodeChar c ++ rest < String.utf8EncodeChar d ++ rest' := by
  have codes : c.val.toNat < d.val.toNat := UInt32.lt_iff_toNat_lt.mp lt
  have last : d.val.toNat < 1114112 := d.valid.elim (fun low => by omega) (·.2)
  -- Four bytes are compared in halves; the others are few enough as they are.
  have halves : c.val.toNat / 4096 < d.val.toNat / 4096 ∨
      c.val.toNat / 4096 = d.val.toNat / 4096 := by omega
  simp only [String.utf8EncodeChar]
  rcases halves with high | low
  -- One case for each number of bytes that the two characters have.
  all_goals
    repeat' split
    all_goals
      simp only [List.cons_append, List.nil_append, List.cons_lt_cons_iff, UInt8.lt_iff_toNat_lt,
        ← UInt8.toNat_inj, UInt8.toNat_ofNat']
      omega

theorem flatMap_utf8EncodeChar_lt {chars chars' : List Char} (lt : chars < chars') :
    chars.flatMap String.utf8EncodeChar < chars'.flatMap String.utf8EncodeChar := by
  -- The texts agree up to a place where one ends or has the lesser character.
  induction lt with
  | @nil d rest =>
      rw [List.flatMap_nil, List.flatMap_cons]
      cases encoded : String.utf8EncodeChar d with
      | nil => exact absurd encoded String.utf8EncodeChar_ne_nil
      | cons byte bytes => exact List.nil_lt_cons _ _
  | cons _ ih => exact List.append_left_lt ih
  | rel first => exact utf8EncodeChar_append_lt first _ _

/-- Lesser texts have lesser bytes. -/
theorem utf8Bytes_lt {a b : String} (lt : a < b) : utf8Bytes a < utf8Bytes b := by
  rw [utf8Bytes_eq, utf8Bytes_eq]
  exact flatMap_utf8EncodeChar_lt lt

end RegistryHive.Text
