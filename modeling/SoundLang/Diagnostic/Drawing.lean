import SoundLang.Diagnostic
import SoundLang.Source.Log

/-! # Drawing a diagnostic

A diagnostic is drawn for a terminal as a sequence of pieces of text, some with a style: the header, the place
of the error, the source lines that each label covers with marks under them, then notes and hints.  Only the
last step, `Piece.paint`, knows whether colours are shown, so colours can add nothing but their own escape
codes. -/

namespace SoundLang.Diagnostic

/-- When to show colours. -/
inductive Coloring where
  /-- Only on a terminal. -/
  | auto
  | always
  | never
deriving DecidableEq, Repr

/-- Whether colours are shown, given whether the output is a terminal. -/
def Coloring.shown (mode : Coloring) (terminal : Bool) : Bool :=
  match mode with
  | .auto => terminal
  | .always => true
  | .never => false

/-- The styles of a drawing. -/
inductive Style where
  | error
  | help
  | bold
  | aside
deriving DecidableEq, Repr

/-- The escape code that switches a style on. -/
def Style.code : Style → String
  | error => "\x1b[1;31m"
  | help => "\x1b[1;32m"
  | bold => "\x1b[1m"
  | aside => "\x1b[1;34m"

/-- The escape code that switches every style off. -/
def Style.reset : String := "\x1b[0m"

/-- A stretch of text in one style, or in none. -/
structure Piece where
  style : Option Style
  text : String
deriving DecidableEq, Repr

namespace Piece

/-- Text without a style. -/
def plain (text : String) : Piece := ⟨none, text⟩

/-- Text in a style. -/
def styled (style : Style) (text : String) : Piece := ⟨some style, text⟩

/-- The piece as written, with or without colours. -/
def paint (colors : Bool) (p : Piece) : String :=
  match p.style with
  | some style => if colors then style.code ++ p.text ++ Style.reset else p.text
  | none => p.text

end Piece

/-- A drawing as written, with or without colours. -/
def paint (colors : Bool) (pieces : List Piece) : String :=
  String.join (pieces.map (Piece.paint colors))

open Piece

/-- A label that covers more lines than this shows its first two and its last. -/
def longestLabel : Nat := 4

/-- A number of blanks. -/
def blanks (n : Nat) : String := String.ofList (List.replicate n ' ')

/-- A number, with blanks before it up to the width. -/
def padded (width n : Nat) : String :=
  let digits := toString n
  blanks (width - digits.length) ++ digits

/-- The bar at the left of the source lines, under a line number of the given width. -/
def gutter (width : Nat) : List Piece := [plain s!"{blanks width} ", styled .aside "|"]

/-- The style of a label's marks and message. -/
def Label.style (l : Label) : Style := if l.primary then .error else .aside

/-- A source line with its number. -/
def sourceLine (width line : Nat) (text : String) : List Piece :=
  [styled .aside s!"{padded width (line + 1)} |", plain s!" {text}\n"]

/-- Blanks as wide as the text before the marks; tabs are kept, so that the marks stand below their text. -/
def indent (before : List Char) : String :=
  String.ofList (before.map fun c => if c = '\t' then '\t' else ' ')

/-- The marks under the bytes from `first` to `last` of a line, at least one, with the label's message behind
them on the last line of the label. -/
def underline (width : Nat) (l : Label) (text : String) (first last : Nat) (closes : Bool) : List Piece :=
  let limit := text.utf8ByteSize
  let first := min first limit
  let last := max first (min last limit)
  let before := (Text.slice? 0 first text.toList).getD []
  let covered := (Text.slice? first last text.toList).getD []
  let mark := if l.primary then '^' else '-'
  let marks := String.ofList (List.replicate (max 1 covered.length) mark)
  let message := if closes && !l.message.isEmpty then [plain " ", styled l.style l.message] else []
  gutter width ++ [plain s!" {indent before}", styled l.style marks] ++ message ++ [plain "\n"]

/-- One line of a label: the source line, and the marks below it. -/
def labelLine (width : Nat) (l : Label) (line : Nat) (text : String) : List Piece :=
  let first := if line = l.span.start.line then l.span.start.byte else 0
  let last := if line = l.span.stop.line then l.span.stop.byte else text.utf8ByteSize
  sourceLine width line text ++ underline width l text first last (line == l.span.stop.line)

/-- The lines of a label that are in the log, from `line` on and `count` at most. -/
def labelLines (width : Nat) (l : Label) (log : Log) (line count : Nat) : List Piece :=
  (((log.lines.toList.drop line).take count).zipIdx line).flatMap fun (text, i) => labelLine width l i text

/-- The lines that a label covers; of a long label its first two and its last. -/
def snippet (width : Nat) (log : Log) (l : Label) : List Piece :=
  let first := l.span.start.line
  let last := l.span.stop.line
  if (log.line? first).isNone then
    [plain s!"{blanks width} = {l.span.render}: ", styled .aside l.message, plain "\n"]
  else if last - first + 1 > longestLabel then
    let head := labelLines width l log first 2
    if (log.line? (first + 1)).isNone then head
    else head ++ [plain s!"{blanks width}...\n"] ++ labelLines width l log last 1
  else labelLines width l log first (last + 1 - first)

/-- The width of the longest line number that a drawing shows. -/
def numberWidth (d : Diagnostic) : Nat :=
  ((d.labels.map fun l => (toString (l.span.stop.line + 1)).length).max?).getD 1

/-- The line and column of the error. -/
def locator (width : Nat) (log : Log) (s : Span) : List Piece :=
  [plain (blanks width), styled .aside "-->", plain s!" {s.start.line + 1}:{log.column s.start}\n"]

/-- The whole drawing of a diagnostic against the lines read so far. -/
def draw (d : Diagnostic) (log : Log) : List Piece :=
  let width := numberWidth d
  let header := [styled .error "error", styled .bold s!"[{d.code.render}]", plain s!": {d.message}\n"]
  let place := match d.primarySpan? with
    | some s => locator width log s
    | none => []
  let snippets := if d.labels.isEmpty then []
    else gutter width ++ [plain "\n"] ++ d.labels.flatMap (snippet width log)
  let notes := d.notes.flatMap fun n =>
    [plain s!"{blanks width} = ", styled .bold "note", plain s!": {n}\n"]
  let hints := d.hints.flatMap fun h =>
    [plain s!"{blanks width} = ", styled .help "help", plain s!": {h}\n"]
  header ++ place ++ snippets ++ notes ++ hints ++ [plain "\n"]

/-- The line that closes a failed run; nothing when there was no error. -/
def drawSummary (errors : Nat) : List Piece :=
  match errors with
  | 0 => []
  | 1 => [styled .error "error", plain ": aborting due to previous error\n"]
  | n => [styled .error "error", plain s!": aborting due to {n} previous errors\n"]

end SoundLang.Diagnostic
