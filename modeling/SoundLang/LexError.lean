import SoundLang.Diagnostic
import SoundLang.Token

/-! # Lexical errors

What can be wrong with a text before its tokens are put together, with the place of each error, its message
and its diagnostic. -/

namespace SoundLang

/-- The causes of a lexical error. -/
inductive LexError where
  /-- No token starts with the character. -/
  | unexpectedCharacter (character : Char) (span : Span)
  /-- The input ends in a comment.  `start` is the innermost open comment, `enclosing` are the comments
  around it, outermost first. -/
  | unterminatedComment (start : Pos) (enclosing : List Pos)
  /-- The input ends in a string. -/
  | unterminatedString (start : Pos)
  /-- An exponent mark without a digit after it. -/
  | incompleteExponent (text : String) (span : Span)
  /-- A radix mark without a digit after it. -/
  | emptyRadix (text : String) (span : Span)
  /-- The input could not be read. -/
  | unreadable (message : String)
deriving DecidableEq, Repr

/-- A token, or the lexical error that stands in its place. -/
abbrev Entry := Except LexError Token

namespace LexError

/-- The two characters that open the comment at a position. -/
def opener (p : Pos) : Span := .onLine p.line p.byte (p.byte + 2)

/-- The quote that opens the string at a position. -/
def openingQuote (p : Pos) : Span := .onLine p.line p.byte (p.byte + 1)

def code : LexError → Diagnostic.Code
  | unexpectedCharacter .. => .unexpectedCharacter
  | unterminatedComment .. => .unterminatedComment
  | unterminatedString .. => .unterminatedString
  | incompleteExponent .. => .incompleteExponent
  | emptyRadix .. => .emptyRadix
  | unreadable .. => .unreadableInput

/-- Where the error is, if it has a place. -/
def span? : LexError → Option Span
  | unexpectedCharacter _ span | incompleteExponent _ span | emptyRadix _ span => some span
  | unterminatedComment start _ => some (opener start)
  | unterminatedString start => some (openingQuote start)
  | unreadable _ => none

def message : LexError → String
  | unexpectedCharacter c span => s!"unexpected character `{c}` at {span.render}"
  | unterminatedComment start _ => s!"unterminated comment (started at {start.render})"
  | unterminatedString start => s!"unterminated string literal (started at {start.render})"
  | incompleteExponent text span => s!"incomplete scientific notation `{text}` at {span.render}"
  | emptyRadix text span => s!"number prefix `{text}` without digits at {span.render}"
  | unreadable message => s!"failed to read input: {message}"

/-- The digits that a radix mark asks for. -/
def radixDigits (text : String) : String :=
  if text = "0b" then "binary digits `0`-`1`"
  else if text = "0o" then "octal digits `0`-`7`"
  else "hexadecimal digits `0`-`9`, `a`-`f`"

def diagnostic (e : LexError) : Diagnostic :=
  let d : Diagnostic := { code := e.code, message := e.message }
  match e with
  | unexpectedCharacter _ span => d.mark span "no token starts with this character"
  | unterminatedComment start enclosing =>
    let d := (d.mark (opener start) "comment opened here is never closed").hint
      "close each `/*` with a matching `*/`"
    enclosing.reverse.foldl (fun d outer => d.relate (opener outer) "inside this comment") d
  | unterminatedString start =>
    (d.mark (openingQuote start) "string opened here is never closed").hint "add a closing `\"`"
  | incompleteExponent _ span =>
    (d.mark span "expected a digit after the exponent").note
      "an exponent is written like `1e3` or `2.5e-4`"
  | emptyRadix text span => d.mark span s!"expected {radixDigits text}"
  | unreadable _ => d

end LexError

end SoundLang
