import SoundLang.Text.Unprintable
import SoundLang.Text.Extending

/-! # Quoted text

A text is shown in double quotes so that every character of it can be seen: quotes and backslashes get a
backslash, a few controls their letter, and characters that could not be seen on their own their number. -/

namespace SoundLang.Text

/-- Shown by its number: a character that cannot be seen, or that would merge with the one before it. -/
def isNumbered (c : Char) : Bool := isUnprintable c || isExtending c

/-- A number in base sixteen, in small letters. -/
def hexadecimal (n : Nat) : List Char := Nat.toDigits 16 n

/-- How a quoted text shows one character. -/
def quoteChar (c : Char) : List Char :=
  match c with
  | '"' => ['\\', '"']
  | '\\' => ['\\', '\\']
  | '\x00' => ['\\', '0']
  | '\t' => ['\\', 't']
  | '\r' => ['\\', 'r']
  | '\n' => ['\\', 'n']
  | c => if isNumbered c then ['\\', 'u', '\x7b'] ++ hexadecimal c.toNat ++ ['\x7d'] else [c]

/-- A text in quotes. -/
def quote (text : String) : String :=
  String.ofList ('"' :: text.toList.flatMap quoteChar ++ ['"'])

end SoundLang.Text
