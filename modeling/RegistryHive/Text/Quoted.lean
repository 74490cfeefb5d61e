import RegistryHive.Text.GraphemeExtending
import RegistryHive.Text.Hexadecimal
import RegistryHive.Text.Unprintable

/-!
# Quoted text

A quoted text stands between double quotes and shows every character in a form
that can be read on its own. Quotes and backslashes follow a backslash, the
usual control characters have a letter, and characters without a printed form,
or drawn together with the one before them, are written by their code point.
-/

namespace RegistryHive.Text

/-- A character by its code point, in hexadecimal between braces. -/
def codePointForm (c : Char) : List Char :=
  ['\\', 'u', '\x7b'] ++ Hexadecimal.digits c.toNat ++ ['\x7d']

/-- The form of a character inside a quoted text. -/
def quotedForm (c : Char) : List Char :=
  match c with
  | '"' => ['\\', '"']
  | '\\' => ['\\', '\\']
  | '\t' => ['\\', 't']
  | '\r' => ['\\', 'r']
  | '\n' => ['\\', 'n']
  | '\x00' => ['\\', '0']
  | c =>
    if graphemeExtending.contains c || unprintable.contains c then codePointForm c else [c]

/-- The text between double quotes, with every character in its quoted form. -/
def quoted (text : String) : String :=
  String.ofList ('"' :: text.toList.flatMap quotedForm ++ ['"'])

end RegistryHive.Text
