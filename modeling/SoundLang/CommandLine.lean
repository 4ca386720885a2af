import SoundLang.Command

/-! # The command line

Without arguments statements are read from standard input as they are typed; a file name runs the file; `lex`
and `parse` show what a file is made of.  `Invocation.parse` reads the arguments and `run` carries them out,
given how files are read (`FileTree.read` is one way) and what standard input delivers. -/

namespace SoundLang.CommandLine

open Command

/-- What the program is asked to do. -/
inductive Action where
  | converse
  | showHelp
  | showVersion
  | listTokens (path : String)
  | outlineItems (path : String)
  | runFile (path : String)
  /-- A command without the file that it needs. -/
  | incomplete (command : String)
  | unknownOption (option : String)
deriving DecidableEq, Repr

/-- The arguments of the program, read. -/
structure Invocation where
  coloring : Diagnostic.Coloring
  action : Action
deriving DecidableEq, Repr

/-- The start of the option that sets the colours. -/
def colorOption : String := "--color="

/-- The colour mode that an argument sets, if it is the option for that. -/
def colorMode? (arg : String) : Option String :=
  if colorOption.toList.isPrefixOf arg.toList then
    some (String.ofList (arg.toList.drop colorOption.length))
  else none

/-- The colouring with the given name. -/
def coloring? (mode : String) : Option Diagnostic.Coloring :=
  if mode = "auto" then some .auto
  else if mode = "always" then some .always
  else if mode = "never" then some .never
  else none

/-- Takes the colour options out of the arguments.  The last one counts; an unknown mode stops at once. -/
def takeColoring (current : Diagnostic.Coloring) :
    List String → Except String (Diagnostic.Coloring × List String)
  | [] => .ok (current, [])
  | arg :: args =>
    match colorMode? arg with
    | some mode =>
      match coloring? mode with
      | some c => takeColoring c args
      | none => .error mode
    | none => do
      let (c, rest) ← takeColoring current args
      return (c, arg :: rest)

/-- What arguments without colour options ask for. -/
def Action.ofArgs : List String → Action
  | [] => .converse
  | arg :: rest =>
    if arg ∈ ["help", "--help", "-h"] then .showHelp
    else if arg ∈ ["version", "--version", "-V"] then .showVersion
    else if arg = "lex" then (rest.head?.map Action.listTokens).getD (.incomplete arg)
    else if arg = "parse" then (rest.head?.map Action.outlineItems).getD (.incomplete arg)
    else if arg.toList.head? = some '-' then .unknownOption arg
    else .runFile arg

/-- Reads the arguments; an unknown colour mode is handed back. -/
def Invocation.parse (args : List String) : Except String Invocation := do
  let (coloring, rest) ← takeColoring .auto args
  return ⟨coloring, .ofArgs rest⟩

/-- The name and the version of the program. -/
def version : String := "cryss 0.1.0-alpha.1\n"

/-- How to use the program. -/
def usage : String :=
  version ++ "\n" ++
  "Usage: cryss [options] [command] [file]\n" ++
  "\n" ++
  "Commands:\n" ++
  "  <file.cryss>        Lex, parse and type-annotate a file\n" ++
  "  lex <file.cryss>    Print the token stream\n" ++
  "  parse <file.cryss>  Print the syntax tree\n" ++
  "  help                Show this help message\n" ++
  "  version             Show version information\n" ++
  "\n" ++
  "With no file, statements are read interactively from stdin.\n" ++
  "\n" ++
  "Options:\n" ++
  "  --color=<mode>      Diagnostic colors: auto (default), always, never\n" ++
  "\n" ++
  "Environment:\n" ++
  "  RUST_LOG            Enable tracing (e.g. RUST_LOG=cryss_parse=debug)\n" ++
  "  CRYSS_LOG_TREE      Show tracing as an indented tree\n"

/-- An interactive session at its start. -/
def conversation (input : Input) : Session :=
  { mode := .interactive, lexer := { unread := input, prompting := .shown }, types := .initial }

/-- What an interactive session writes: prompts to standard output, errors to standard error.  At the end the
prompt of the shell gets a fresh line. -/
def converse (colors : Bool) (input : Input) : Output :=
  let events := (conversation input).run.events
  { stdout := Session.transcript colors (events.filter Session.Event.isPrompt) ++ "\n"
    stderr := Session.transcript colors (events.filter (!·.isPrompt))
    failed := false }

/-- A command on the text of a file. -/
def onFile (files : String → Except Failure String) (path : String) (command : String → Output) : Output :=
  match files path with
  | .ok source => command source
  | .error e => { stdout := "", stderr := e.message ++ "\n", failed := true }

/-- Carries out what the program is asked to do. -/
def Action.perform (colors : Bool) (files : String → Except Failure String) (input : Input) :
    Action → Output
  | .converse => CommandLine.converse colors input
  | .showHelp => { stdout := usage, stderr := "", failed := false }
  | .showVersion => { stdout := version, stderr := "", failed := false }
  | .listTokens path => onFile files path (Command.listTokens colors path)
  | .outlineItems path => onFile files path (Command.outlineItems colors path)
  | .runFile path => onFile files path (Command.runSource colors)
  | .incomplete command =>
    { stdout := "", stderr := s!"Usage: cryss {command} <file.cryss>\n", failed := true }
  | .unknownOption option => { stdout := usage, stderr := s!"Unknown option '{option}'\n\n", failed := true }

/-- What is written for an unknown colour mode. -/
def unknownMode (mode : String) : Output :=
  { stdout := "", failed := true
    stderr := s!"Unknown color mode '{mode}' (expected auto, always or never)\n" }

/-- Runs the program.  `terminal` tells whether standard error is a terminal. -/
def run (terminal : Bool) (files : String → Except Failure String) (input : Input) (args : List String) :
    Output :=
  match Invocation.parse args with
  | .ok i => i.action.perform (i.coloring.shown terminal) files input
  | .error mode => unknownMode mode

end SoundLang.CommandLine
