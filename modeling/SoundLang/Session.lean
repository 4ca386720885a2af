import SoundLang.Diagnostic.Drawing
import SoundLang.Parse.Grammar
import SoundLang.Types.Lowering

/-! # Sessions

A session reads items from a lexer, lowers the annotations of each into its interner, and keeps the items that
pass.  A batch session stops at the first error and closes with a tally.  An interactive one reports each error
and goes on; what is left of a statement that could not be parsed is dropped.  What a session shows is the list
of its events.

A type that cannot be stored stops a session for good, and it returns nothing.  Here such a session is over like one
that has nothing left to read; `Session.Ending` tells the two apart. -/

namespace SoundLang

namespace Session

/-- How a session reacts to an error. -/
inductive Mode where
  /-- Reports it and goes on. -/
  | interactive
  /-- Reports it and stops. -/
  | batch
deriving DecidableEq, Repr

/-- What a session shows. -/
inductive Event where
  | prompt (prompt : Prompt)
  /-- An error, with the lines read when it was found. -/
  | report (diagnostic : Diagnostic) (log : Log)
  /-- The tally at the end. -/
  | tally (errors : Nat)

/-- The text of an event. -/
def Event.render (colors : Bool) : Event → String
  | prompt p => p.render
  | report d log => Diagnostic.paint colors (d.draw log)
  | tally errors => Diagnostic.paint colors (Diagnostic.drawSummary errors)

/-- The event invites to type, and reports nothing. -/
def Event.isPrompt : Event → Bool
  | prompt _ => true
  | _ => false

/-- How the reading of one item ends. -/
inductive Turn where
  | accepted (item : Item Span) (types : ItemTypes)
  | rejected (diagnostic : Diagnostic)
  /-- Nothing is left to read, or nothing more can be stored. -/
  | over

end Session

/-- A session between two items. -/
structure Session where
  mode : Session.Mode
  lexer : Lexer
  types : Interner

namespace Session

/-- The lexer after a syntax error: whoever types starts afresh. -/
def recover (mode : Mode) (lx : Lexer) : Lexer :=
  match mode with
  | .interactive => lx.discard
  | .batch => lx

/-- Reads the next item from a lexer that has at most `bound` entries to give. -/
def turn (bound : Nat) (s : Session) : Turn × Session :=
  match Grammar.readWithin bound Grammar.item s.lexer.beginStatement with
  | (.ok none, lx) => (.over, { s with lexer := lx })
  | (.error e, lx) => (.rejected e.diagnostic, { s with lexer := recover s.mode lx })
  | (.ok (some i), lx) =>
    match Lowering.lowerItem i s.types with
    | (.ok types, t) => (.accepted i types, { s with lexer := lx, types := t })
    | (.error (.error e), t) => (.rejected e.diagnostic, { s with lexer := lx, types := t })
    | (.error (.refused _), t) => (.over, { s with lexer := lx, types := t })

/-- The prompts shown since the last call, as events. -/
def takePrompts (s : Session) : List Event × Session :=
  let (prompts, lx) := s.lexer.takePrompts
  (prompts.map .prompt, { s with lexer := lx })

/-- What a session leaves behind. -/
structure Result where
  /-- The items that passed, with their types. -/
  accepted : List (Item Span × ItemTypes)
  /-- The number of errors reported. -/
  errors : Nat
  events : List Event
  final : Session

/-- Runs a session up to its end, `bound` turns at most. -/
def runWithin : Nat → Session → Result
  | 0, s => ⟨[], 0, [], s⟩
  | bound + 1, s =>
    let (turn, s) := s.turn (bound + 1)
    let (prompts, s) := s.takePrompts
    match turn with
    | .over => ⟨[], 0, prompts, s⟩
    | .accepted i types =>
      let r := runWithin bound s
      { r with accepted := (i, types) :: r.accepted, events := prompts ++ r.events }
    | .rejected d =>
      let report := .report d s.lexer.log
      match s.mode with
      | .batch => ⟨[], 1, prompts ++ [report], s⟩
      | .interactive =>
        let r := runWithin bound s
        { r with errors := r.errors + 1, events := prompts ++ report :: r.events }

/-- Runs a session up to its end. -/
def run (s : Session) : Result :=
  let r := runWithin (s.lexer.pending + 1) s
  match s.mode with
  | .interactive => r
  | .batch => { r with events := r.events ++ [.tally r.errors] }

/-- Everything a session shows, in one text. -/
def transcript (colors : Bool) (events : List Event) : String :=
  String.join (events.map (Event.render colors))

end Session

end SoundLang
