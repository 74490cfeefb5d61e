import RegistryHive.Text.CaseIgnorable
import RegistryHive.Text.CaseRun
import RegistryHive.Text.Cased

/-!
# Lower case

`lowerCase` replaces every letter of a text by its small counterpart. Two
letters do not follow the plain table. A capital I with a dot becomes a small i
and a combining dot. A capital sigma becomes a final sigma where it ends a word,
that is when the nearest character before it that is not case-ignorable is a
cased letter and the nearest such character after it is not.

Names are compared through `lowerCase`: `SameName a b` holds when the two texts
agree in lower case.
-/

namespace RegistryHive.Text

/-- The small counterpart of a character outside of any context. -/
def lowerForms (c : Char) : List Char :=
  if c.toNat < 0x80 then [c.toLower]
  else if c = 'İ' then ['i', '\u0307']
  else
    match caseRun? c with
    | some run => [run.lower c]
    | none => [c]

/-- The first character that is not case-ignorable is a cased letter. -/
def meetsCased (text : List Char) : Bool :=
  match text.dropWhile caseIgnorable.contains with
  | [] => false
  | c :: _ => cased.contains c

/-- The small counterpart of a character between the text before it, nearest character first,
and the text after it. -/
def lowerInContext (before : List Char) (c : Char) (after : List Char) : List Char :=
  if c = 'Σ' then
    if meetsCased before && !meetsCased after then ['ς'] else ['σ']
  else lowerForms c

/-- Goes through a text from left to right. The text already passed stands in `before`, nearest
character first, and its lower case in `done`. -/
def lowerOnto (done : String) (before : List Char) : List Char → String
  | [] => done
  | c :: after =>
    lowerOnto ((lowerInContext before c after).foldl String.push done) (c :: before) after

/-- The character has a one-byte code. -/
def isAscii (c : Char) : Bool := c.toNat < 0x80

/-- The text in lower case. Context plays no part where all characters have one-byte codes. -/
def lowerCase (text : String) : String :=
  if text.all isAscii then text.map Char.toLower else lowerOnto "" [] text.toList

private theorem lowerInContext_of_isAscii {c : Char} (h : isAscii c = true)
    (before after : List Char) : lowerInContext before c after = [c.toLower] := by
  have small : c.toNat < 0x80 := by simpa [isAscii] using h
  have notSigma : c ≠ 'Σ' := by rintro rfl; exact absurd small (by decide)
  rw [lowerInContext, if_neg notSigma, lowerForms, if_pos small]

private theorem lowerOnto_of_isAscii {text : List Char} (h : text.all isAscii = true)
    (done : String) (before : List Char) :
    lowerOnto done before text = done ++ String.ofList (text.map Char.toLower) := by
  induction text generalizing done before with
  | nil => simp [lowerOnto]
  | cons c rest ih =>
    rw [List.all_cons, Bool.and_eq_true] at h
    rw [lowerOnto, lowerInContext_of_isAscii h.1, ih h.2]
    apply String.toList_inj.mp
    simp

/-- A text is put into lower case character by character in its context. -/
theorem lowerCase_eq (text : String) : lowerCase text = lowerOnto "" [] text.toList := by
  rw [lowerCase]
  split
  · rename_i ascii
    rw [String.all_bool_eq] at ascii
    rw [lowerOnto_of_isAscii ascii]
    apply String.toList_inj.mp
    simp
  · rfl

/-- Two names are the same name when they agree in lower case. -/
def SameName (a b : String) : Prop := lowerCase a = lowerCase b

instance (a b : String) : Decidable (SameName a b) :=
  inferInstanceAs (Decidable (lowerCase a = lowerCase b))

theorem SameName.refl (a : String) : SameName a a := rfl

theorem SameName.symm {a b : String} (h : SameName a b) : SameName b a := Eq.symm h

theorem SameName.trans {a b c : String} (h : SameName a b) (h' : SameName b c) : SameName a c :=
  Eq.trans h h'

end RegistryHive.Text
