import SoundLang.Source.Log

/-! # What a reader delivers

An input is the list of answers that a line reader gives before it reports its end.  Each answer is a line, or
a failure, after which nothing more is read. -/

namespace SoundLang

/-- One answer of a line reader. -/
inductive Read where
  /-- A line, without its line feed. -/
  | line (text : String)
  | failed (message : String)
deriving DecidableEq, Repr

/-- The answers of a line reader, in order, up to its end. -/
abbrev Input := List Read

namespace Input

/-- The failure of a read that meets bytes which are no text. -/
def notText : String := "stream did not contain valid UTF-8"

/-- The parts between line feeds; a last part that is empty is no line. -/
def parts (bytes : List UInt8) : List (List UInt8) :=
  bytes.foldr (fun b ps => if b = 10 then [] :: ps else ps.modifyHead (b :: ·)) [[]]

/-- The answer to reading one line of bytes. -/
def readLine (bytes : List UInt8) : Read :=
  match String.fromUTF8? bytes.toByteArray with
  | some text => .line text
  | none => .failed notText

/-- The last answers of a reader: what follows the last line feed is a line if it is not empty, and is lost if
the read of it fails. -/
def ending (last : Option Read) (failure : Option String) : Input :=
  match failure with
  | some message => [.failed message]
  | none => last.toList

/-- An input of bytes, and the message with which the reader fails at its end if it does. -/
def ofBytes (bytes : List UInt8) (failure : Option String) : Input :=
  let ps := parts bytes
  ps.dropLast.map readLine ++ ending ((ps.getLast?.filter (!·.isEmpty)).map readLine) failure

/-- An input of text, and the message with which the reader fails at its end if it does. -/
def ofText (text : String) (failure : Option String) : Input :=
  let ps := Log.pieces text.toList
  let lines := ps.map fun p => Read.line (String.ofList p)
  lines.dropLast ++ ending ((ps.getLast?.filter (!·.isEmpty)).map fun p => .line (String.ofList p)) failure

end Input

end SoundLang
