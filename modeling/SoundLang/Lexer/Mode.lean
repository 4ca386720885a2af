import SoundLang.LexError
import SoundLang.Lexeme
import SoundLang.Text.Offset

/-! # Scanning a line

Lines are scanned one after the other.  What reaches over the end of a line is the `Mode`: the comments that
are still open, or the string that is being read.  A lexical error ends its line: the tokens before it stand,
the rest of the line is dropped.

Bytes are counted without a bound.  The scan of a line whose bytes do not all fit into a stored position goes another
way, and may have no end (`Lexer.scanWithin`). -/

namespace SoundLang

/-- What the scanner is inside of. -/
inductive Mode where
  | code
  /-- Inside comments: where the innermost one opened, and the others from the inside out. -/
  | comment (opener : Pos) (outer : List Pos)
  /-- Inside a string: where it opened, and its value so far. -/
  | string (start : Pos) (value : String)
deriving DecidableEq, Repr

namespace Mode

/-- Neither a comment nor a string is open. -/
def isCode : Mode → Bool
  | code => true
  | _ => false

/-- The error for what is still open at the end of the input. -/
def finish? : Mode → Option LexError
  | code => none
  | comment opener outer => some (.unterminatedComment opener outer.reverse)
  | string start _ => some (.unterminatedString start)

/-- The mode after the innermost comment has been closed. -/
def afterComment : List Pos → Mode
  | [] => code
  | opener :: outer => comment opener outer

end Mode

namespace Lexer

/-- Characters between tokens. -/
def isBlank (c : Char) : Bool :=
  c == ' ' || c == '\t' || c == '\n' || c == '\x0c' || c == '\r'

/-- The character that a backslash and `c` stand for in a string. -/
def unescape (c : Char) : Char :=
  match c with
  | 'n' => '\n'
  | 'r' => '\r'
  | 't' => '\t'
  | '0' => '\x00'
  | c => c

/-- The token or the error that a match stands for. -/
def entryOf (m : Lexeme) (span : Span) : Entry :=
  let text := String.ofList m.text
  match m.form with
  | .word => .ok ⟨.word text, span⟩
  | .number => .ok ⟨.number text, span⟩
  | .symbol s => .ok ⟨.symbol s, span⟩
  | .incompleteExponent => .error (.incompleteExponent text span)
  | .emptyRadix => .error (.emptyRadix text span)

/-- Scans a line whose positions can be stored from byte `byte` on, where `mode` holds.  Gives what was found and the
mode at the end of the line. -/
def scan (line byte : Nat) : Mode → List Char → List Entry × Mode
  | .code, [] => ([], .code)
  | .code, '/' :: '/' :: _ => ([], .code)
  | .code, '/' :: '*' :: cs => scan line (byte + 2) (.comment ⟨line, byte⟩ []) cs
  | .code, '"' :: cs => scan line (byte + 1) (.string ⟨line, byte⟩ "") cs
  | .code, c :: cs =>
    if isBlank c then scan line (byte + 1) .code cs
    else match Lexeme.longest? (c :: cs) with
      | none => ([.error (.unexpectedCharacter c (.onLine line byte (byte + c.utf8Size)))], .code)
      | some m =>
        let stop := byte + Text.size m.text
        match entryOf m (.onLine line byte stop) with
        | .error e => ([.error e], .code)
        | .ok t =>
          let (entries, mode) := scan line stop .code (cs.drop (m.text.length - 1))
          (.ok t :: entries, mode)
  | .comment opener outer, [] => ([], .comment opener outer)
  | .comment opener outer, '/' :: '*' :: cs =>
    scan line (byte + 2) (.comment ⟨line, byte⟩ (opener :: outer)) cs
  | .comment _ outer, '*' :: '/' :: cs => scan line (byte + 2) (.afterComment outer) cs
  | .comment opener outer, c :: cs => scan line (byte + c.utf8Size) (.comment opener outer) cs
  | .string start value, [] => ([], .string start (value.push '\n'))
  | .string start value, '"' :: cs =>
    let (entries, mode) := scan line (byte + 1) .code cs
    (.ok ⟨.string value, ⟨start, ⟨line, byte + 1⟩⟩⟩ :: entries, mode)
  | .string start value, ['\\'] => ([], .string start (value.push '\n'))
  | .string start value, '\\' :: c :: cs =>
    scan line (byte + 1 + c.utf8Size) (.string start (value.push (unescape c))) cs
  | .string start value, c :: cs => scan line (byte + c.utf8Size) (.string start (value.push c)) cs
termination_by _ cs => cs.length

end Lexer

end SoundLang
