import SoundLang.Text.Offset
import SoundLang.Source.Position

/-! # The log of lines read

A `Log` holds every line read so far, without line terminators, so a span that crosses lines stands for one
line break at each boundary.  `Log.excerpt` is the text that a span covers, `Log.column` the column of a
position counted in characters. -/

namespace SoundLang

/-- Every line read so far, in order and without line terminators. -/
structure Log where
  lines : Array String := #[]
deriving DecidableEq, Repr, Inhabited

namespace Log

/-- The number of lines. -/
def size (log : Log) : Nat := log.lines.size

def isEmpty (log : Log) : Bool := log.lines.isEmpty

/-- The line with the given index, counted from zero. -/
def line? (log : Log) (i : Nat) : Option String := log.lines[i]?

/-- The text without `c`, if it ends in `c`. -/
def dropLast (c : Char) (cs : List Char) : List Char :=
  if cs.getLast? = some c then cs.dropLast else cs

/-- A line without the line feed, and then without the carriage return, that it may end in. -/
def chomp (text : String) : String :=
  String.ofList (dropLast '\r' (dropLast '\n' text.toList))

/-- Appends a line, without its terminator. -/
def push (log : Log) (text : String) : Log := ⟨log.lines.push (chomp text)⟩

/-- The pieces of a text between its line feeds; a text that ends in one has an empty last piece. -/
def pieces (text : List Char) : List (List Char) :=
  text.foldr (fun c ps => if c = '\n' then [] :: ps else ps.modifyHead (c :: ·)) [[]]

/-- The lines of a whole text.  Each line feed, with a carriage return right before it, ends a line; what
follows the last one is a line if it is not empty. -/
def linesOf (text : List Char) : List (List Char) :=
  let ps := pieces text
  ps.dropLast.map (dropLast '\r') ++ (ps.getLast?.filter (!·.isEmpty)).toList

/-- The log of a whole text. -/
def ofText (text : String) : Log := ⟨((linesOf text.toList).map String.ofList).toArray⟩

/-- The column of a position in characters, counted from one.  Where the log has no such place the byte
offset stands in for the count. -/
def column (log : Log) (p : Pos) : Nat :=
  match log.line? p.line with
  | none => p.byte + 1
  | some text =>
    let byte := min p.byte text.utf8ByteSize
    match Text.split? byte text.toList with
    | some (before, _) => before.length + 1
    | none => byte + 1

/-- The part of the line `text` that belongs to a span, given where the span starts and ends if it does so
on this line. -/
def piece (text : String) (first : Nat) (last : Option Nat) : List Char :=
  let limit := text.utf8ByteSize
  (Text.slice? (min first limit) (min (last.getD limit) limit) text.toList).getD []

/-- The text a span covers, with a line feed at each line boundary.  Parts outside the log are left out. -/
def excerpt (log : Log) (s : Span) : String :=
  let count := s.stop.line + 1 - s.start.line
  let covered := ((log.lines.toList.drop s.start.line).take count).zipIdx s.start.line
  let texts := covered.map fun (text, i) =>
    piece text (if i = s.start.line then s.start.byte else 0)
      (if i = s.stop.line then some s.stop.byte else none)
  String.ofList (['\n'].intercalate texts)

end Log

end SoundLang
