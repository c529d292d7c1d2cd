import ExLine.Text.Unprintable

/-!
Contract: the quoted form in which messages show a text.

Owns: `Quoted.render`, a text between double quotes in which every character
that cannot stand for itself is escaped.

Does not own: which characters cannot be shown (`ExLine.Text.Unprintable`).
-/

set_option autoImplicit false

namespace ExLine.Quoted

/-- The escape of a character by its code point in hexadecimal. -/
def escapeCode (char : Char) : List Char :=
  '\\' :: 'u' :: '\x7b' :: (Nat.toDigits 16 char.toNat ++ ['\x7d'])

/-- One character of a quoted text. Single quotes need no escape between
double quotes. -/
def renderChar (char : Char) : List Char :=
  match char with
  | '\x00' => ['\\', '0']
  | '\t' => ['\\', 't']
  | '\n' => ['\\', 'n']
  | '\r' => ['\\', 'r']
  | '"' => ['\\', '"']
  | '\\' => ['\\', '\\']
  | _ => if Unprintable.holds char then escapeCode char else [char]

/-- A text between double quotes. -/
def render (text : String) : String :=
  String.ofList ('"' :: (text.toList.flatMap renderChar ++ ['"']))

end ExLine.Quoted
