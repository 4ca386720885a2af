import SoundLang.Number
import SoundLang.Symbol

/-! # Longest match

At a place that is not blank and opens neither a comment nor a string, the lexer takes the longest text that
has the form of a word, a number or a symbol.  Two forms of unfinished numbers, an exponent mark or a radix
mark without digits after it, compete in the same way, so that they are found as errors and not as a number
followed by a word. -/

namespace SoundLang

/-- The forms that compete for the longest match. -/
inductive Lexeme.Form where
  | word
  | number
  /-- A number with an exponent mark, perhaps a sign, and no digit. -/
  | incompleteExponent
  /-- A radix mark and no digit. -/
  | emptyRadix
  | symbol (symbol : Symbol)
deriving DecidableEq, Repr

/-- The longest match at some place: the text taken and its form. -/
structure Lexeme where
  text : List Char
  form : Lexeme.Form
deriving DecidableEq, Repr

namespace Lexeme

/-- Characters that a word starts with. -/
def isWordStart (c : Char) : Bool := c.isAlpha || c == '_' || c == '$'

/-- Characters that a word goes on with. -/
def isWordPart (c : Char) : Bool := isWordStart c || c.isDigit

/-- The word at the start of a text. -/
def word? : List Char → Option Lexeme
  | [] => none
  | c :: cs => if isWordStart c then some ⟨c :: cs.takeWhile isWordPart, .word⟩ else none

/-- The digits of a number, with a decimal point among or around them. -/
def mantissa (cs : List Char) : List Char :=
  let whole := cs.takeWhile Char.isDigit
  match cs.dropWhile Char.isDigit with
  | '.' :: rest =>
    let fraction := rest.takeWhile Char.isDigit
    if whole = [] ∧ fraction = [] then [] else whole ++ '.' :: fraction
  | _ => whole

/-- The sign at the start of a text. -/
def sign : List Char → List Char
  | c :: _ => if c = '+' ∨ c = '-' then [c] else []
  | [] => []

/-- A mantissa, and the exponent if its mark follows. -/
def decimal? (cs : List Char) : Option Lexeme :=
  let digits := mantissa cs
  if digits = [] then none
  else match cs.drop digits.length with
    | mark :: rest =>
      if mark = 'e' ∨ mark = 'E' then
        let sign := sign rest
        let exponent := (rest.drop sign.length).takeWhile Char.isDigit
        some ⟨digits ++ mark :: sign ++ exponent, if exponent = [] then .incompleteExponent else .number⟩
      else some ⟨digits, .number⟩
    | [] => some ⟨digits, .number⟩

/-- The number at the start of a text, finished or not. -/
def number? : List Char → Option Lexeme
  | '0' :: mark :: rest =>
    match Number.radix? mark with
    | some radix =>
      let digits := rest.takeWhile (Number.isDigit radix)
      some ⟨'0' :: mark :: digits, if digits = [] then .emptyRadix else .number⟩
    | none => decimal? ('0' :: mark :: rest)
  | cs => decimal? cs

/-- The longest symbol at the start of a text. -/
def symbol? (cs : List Char) : Option Lexeme :=
  ([4, 3, 2, 1].findSome? fun n => Symbol.ofChars? (cs.take n)).map fun s => ⟨s.chars, .symbol s⟩

/-- The longest match at the start of a text. -/
def longest? (cs : List Char) : Option Lexeme :=
  (word? cs).or ((number? cs).or (symbol? cs))

end Lexeme

end SoundLang
