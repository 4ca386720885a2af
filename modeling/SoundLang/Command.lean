import SoundLang.Session
import SoundLang.Tree.Outline

/-! # Commands

What can be done with one source: list its tokens, outline its items, or run it as a batch session.  A command
gives the texts for the two output streams and tells whether anything was wrong. -/

namespace SoundLang.Command

/-- What a command writes, and how it ends. -/
structure Output where
  stdout : String
  stderr : String
  /-- An error was reported. -/
  failed : Bool
deriving DecidableEq, Repr

/-- The exit code of a program that runs the command. -/
def Output.exitCode (o : Output) : Nat := if o.failed then 1 else 0

/-- Why a command cannot do its work, apart from errors in the source. -/
inductive Failure where
  | missing (path : String)
  | denied (path : String)
  | notText (path : String)
  | unreadable (path message : String)
  | unwritable (message : String)
deriving DecidableEq, Repr

def Failure.message : Failure → String
  | missing path => s!"cannot find file '{path}'"
  | denied path => s!"permission denied reading '{path}'"
  | notText path => s!"'{path}' contains invalid UTF-8 data"
  | unreadable path message => s!"error reading '{path}': {message}"
  | unwritable message => s!"cannot write output: {message}"

/-- Writes to standard output, which may be broken; nothing is written to standard error then. -/
def write (broken : Option String) (o : Output) : Except Failure Output :=
  match broken with
  | some message => .error (.unwritable message)
  | none => .ok o

/-- An error and the tally of one. -/
def report (colors : Bool) (d : Diagnostic) (log : Log) : String :=
  Session.transcript colors [.report d log, .tally 1]

/-- The tokens up to the first lexical error, that error, and the lines read until then. -/
def tokensOf : Nat → Lexer → List Token × Option LexError × Lexer
  | 0, lx => ([], none, lx)
  | bound + 1, lx =>
    match lx.next with
    | (.ok none, lx) => ([], none, lx)
    | (.error e, lx) => ([], some e, lx)
    | (.ok (some t), lx) =>
      let (ts, e, lx) := tokensOf bound lx
      (t :: ts, e, lx)

/-- Lists the tokens of a source up to the first lexical error. -/
def listTokens (colors : Bool) (name source : String) : Output :=
  let lx : Lexer := { unread := .ofText source none }
  let (ts, error, lx) := tokensOf lx.pending lx
  { stdout := s!"Tokens for '{name}' ({ts.length} tokens):\n"
      ++ String.join (ts.map fun t => s!"  {t.listing}\n")
    stderr := (error.map fun e => report colors e.diagnostic lx.log).getD ""
    failed := error.isSome }

/-- Outlines the items of a source up to the first error. -/
def outlineItems (colors : Bool) (name source : String) : Output :=
  let p := Program.parse source
  { stdout := s!"Parse result for '{name}' ({p.items.length} items):\n"
      ++ String.join (p.items.map fun i => i.outline.render)
    stderr := (p.error.map fun e => report colors e.diagnostic p.log).getD ""
    failed := p.error.isSome }

/-- A batch session over a source, from the types that are always there. -/
def runBatch (source : String) : Session.Result :=
  Session.run { mode := .batch, lexer := { unread := .ofText source none }, types := .initial }

/-- Runs a source and shows what is wrong with it. -/
def runSource (colors : Bool) (source : String) : Output :=
  let r := runBatch source
  { stdout := "", stderr := Session.transcript colors r.events, failed := r.errors != 0 }

end SoundLang.Command
