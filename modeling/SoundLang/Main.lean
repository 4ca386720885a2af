import SoundLang.CommandLine
import SoundLang.FileTree

/-! # The program

The outer layer: it reads the arguments, files and standard input, and writes what `CommandLine` says.  In an
interactive session a line is read only when the session has asked for it.  A turn that runs into the end of the
lines typed so far is tried again, from the same state, once another line has been typed. -/

namespace SoundLang.Main

open CommandLine

/-- One line of standard input, as the answer of a line reader; `none` at its end. -/
def readLine (input : IO.FS.Stream) : IO (Option Read) := do
  try
    let line ← input.getLine
    return if line.isEmpty then none else some (.line line)
  catch _ => return some (.failed Input.notText)

def showEvents (colors : Bool) (events : List Session.Event) : IO Unit := do
  for e in events do
    let stream ← if e.isPrompt then IO.getStdout else IO.getStderr
    stream.putStr (e.render colors)
    stream.flush

/-- Runs a session line by line.  `shown` is the number of events of the next turn that have been shown, and
`ended` tells whether the input has ended. -/
partial def converse (colors : Bool) (s : Session) (shown : Nat) (ended : Bool) : IO Unit := do
  let (turn, next) := s.turn (s.lexer.pending + 1)
  let (prompts, next) := next.takePrompts
  if next.lexer.ended && !ended then
    showEvents colors (prompts.drop shown)
    match ← readLine (← IO.getStdin) with
    | some r =>
      let ended := match r with
        | .line _ => false
        | .failed _ => true
      converse colors { s with lexer.unread := s.lexer.unread ++ [r] } prompts.length ended
    | none => converse colors s prompts.length true
  else
    showEvents colors (prompts.drop shown)
    match turn with
    | .over => return
    | .accepted .. => converse colors next 0 ended
    | .rejected d =>
      showEvents colors [.report d next.lexer.log]
      converse colors next 0 ended

/-- The number of a system error, which some calls deliver negated, and its text. -/
def systemError? : IO.Error → Option (Nat × String)
  | .alreadyExists _ number text | .invalidArgument _ number text | .permissionDenied _ number text
  | .resourceExhausted _ number text | .inappropriateType _ number text | .noSuchThing _ number text
  | .interrupted _ number text | .noFileOrDirectory _ number text
  | .otherError number text | .resourceBusy number text | .resourceVanished number text
  | .unsupportedOperation number text | .hardwareFault number text | .unsatisfiedConstraints number text
  | .illegalOperation number text | .protocolError number text | .timeExpired number text =>
    some ((min number (-number)).toNat, text)
  | _ => none

/-- The failure of a command whose file could not be read. -/
def failure (path : String) (e : IO.Error) : Command.Failure :=
  match e, systemError? e with
  | .permissionDenied .., _ => .denied path
  | e, none => .unreadable path (toString e)
  | _, some (number, text) =>
    match FileTree.Fault.ofNumber? number with
    | some fault => fault.failure path
    | none => .unreadable path s!"{text} (os error {number})"

/-- The text of a file, or why there is none. -/
def readFile (path : String) : IO (Except Command.Failure String) := do
  try
    let bytes ← IO.FS.readBinFile path
    match String.fromUTF8? bytes with
    | some text => return .ok text
    | none => return .error (.notText path)
  catch e => return .error (failure path e)

/-- The file that an action reads. -/
def path? : Action → Option String
  | .listTokens path | .outlineItems path | .runFile path => some path
  | _ => none

end SoundLang.Main

open SoundLang SoundLang.CommandLine in
/-- Runs the program on its arguments. -/
def main (args : List String) : IO UInt32 := do
  let terminal ← (← IO.getStderr).isTty
  match Invocation.parse args with
  | .ok ⟨coloring, .converse⟩ =>
    SoundLang.Main.converse (coloring.shown terminal) (conversation []) 0 false
    IO.println ""
    return 0
  | .ok ⟨_, action⟩ =>
    let contents ← match SoundLang.Main.path? action with
      | some path => SoundLang.Main.readFile path
      | none => pure (.ok "")
    let output := CommandLine.run terminal (fun _ => contents) [] args
    IO.print output.stdout
    IO.eprint output.stderr
    return output.exitCode.toUInt32
  | .error mode =>
    IO.eprint (unknownMode mode).stderr
    return 1
