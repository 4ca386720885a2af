import SoundLang.Diagnostic.Code
import SoundLang.Source.Position

/-! # Diagnostics

A diagnostic is an error for a reader: a code, a message, labelled spans of the source, notes, and hints how
to mend it.  `Diagnostic.render` writes it without quoting the source. -/

namespace SoundLang

/-- A span with a message.  A primary label marks where the error is, the others mark related places. -/
structure Diagnostic.Label where
  span : Span
  message : String
  primary : Bool
deriving DecidableEq, Repr

/-- An error report. -/
structure Diagnostic where
  code : Diagnostic.Code
  message : String
  labels : List Diagnostic.Label := []
  notes : List String := []
  hints : List String := []
deriving DecidableEq, Repr

namespace Diagnostic

/-- Adds a primary label. -/
def mark (d : Diagnostic) (span : Span) (message : String) : Diagnostic :=
  { d with labels := d.labels ++ [⟨span, message, true⟩] }

/-- Adds a label for a related place. -/
def relate (d : Diagnostic) (span : Span) (message : String) : Diagnostic :=
  { d with labels := d.labels ++ [⟨span, message, false⟩] }

/-- Adds a note. -/
def note (d : Diagnostic) (text : String) : Diagnostic := { d with notes := d.notes ++ [text] }

/-- Adds a hint. -/
def hint (d : Diagnostic) (text : String) : Diagnostic := { d with hints := d.hints ++ [text] }

/-- Where the error is: the span of the first primary label. -/
def primarySpan? (d : Diagnostic) : Option Span :=
  (d.labels.find? (·.primary)).map (·.span)

/-- The label on a line of its own, primary labels behind an arrow. -/
def Label.render (l : Label) : String :=
  let arrow := if l.primary then "-->" else "   "
  s!"\n  {arrow} {l.span.render}: {l.message}"

/-- The diagnostic as one block of text, without source lines. -/
def render (d : Diagnostic) : String :=
  s!"error [{d.code.render}]: {d.message}"
    ++ String.join (d.labels.map Label.render)
    ++ String.join (d.notes.map fun n => s!"\n  = note: {n}")
    ++ String.join (d.hints.map fun h => s!"\n  = help: {h}")

end Diagnostic

end SoundLang
