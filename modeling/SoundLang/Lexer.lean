import SoundLang.Lexer.Mode
import SoundLang.Source.Input
import SoundLang.TokenSource

/-! # The lexer

A `Lexer` reads lines on demand, keeps them in its log, and serves tokens in source order.  A line is read only
while nothing is queued.  After the reader has ended or failed nothing is read again.  Before each read it may
show a prompt: one for the start of a statement, another for its further lines. -/

namespace SoundLang

/-- The invitations to type a line. -/
inductive Prompt where
  /-- A statement may start. -/
  | fresh
  /-- A statement goes on. -/
  | continued
deriving DecidableEq, Repr

def Prompt.render : Prompt → String
  | fresh => "> "
  | continued => "+ "

/-- What becomes of prompts. -/
inductive Prompting where
  /-- Nobody types: no prompts. -/
  | off
  | shown
  /-- Prompts cannot be written. -/
  | lost
deriving DecidableEq, Repr

/-- A reader of tokens. -/
structure Lexer where
  /-- What the line reader has still to deliver. -/
  unread : Input
  prompting : Prompting := .off
  /-- Every line read. -/
  log : Log := {}
  mode : Mode := .code
  /-- What was found on the last lines and has not been taken. -/
  queue : List Entry := []
  /-- The current statement has something on the lines read. -/
  continued : Bool := false
  /-- The reader has ended or failed. -/
  ended : Bool := false
  /-- The prompts shown, the last one first. -/
  prompts : List Prompt := []

namespace Lexer

/-- Shows the prompt for the next read. -/
def prompt (lx : Lexer) : Lexer :=
  match lx.prompting with
  | .shown => { lx with prompts := (if lx.continued then .continued else .fresh) :: lx.prompts }
  | .off | .lost => lx

/-- What the end of the reader leaves: the error for an open comment or string. -/
def finish (lx : Lexer) : Lexer :=
  let error := lx.mode.finish?
  { lx with
    ended := true
    mode := .code
    queue := lx.queue ++ (error.map Except.error).toList }

/-- Takes over one answer of the reader. -/
def accept (lx : Lexer) : Read → Lexer
  | .failed message =>
    { lx with ended := true, queue := lx.queue ++ [.error (.unreadable message)] }
  | .line text =>
    let line := Log.chomp text
    let (entries, mode) := scan lx.log.size 0 lx.mode line.toList
    { lx with
      log := ⟨lx.log.lines.push line⟩
      mode
      queue := lx.queue ++ entries
      continued := lx.continued || !entries.isEmpty || !mode.isCode }

/-- Reads what is left of the input, until something is queued or the reader has ended. -/
def fillFrom : Input → Lexer → Lexer
  | [], lx => { lx.prompt with unread := [] }.finish
  | r :: rest, lx =>
    let lx := { lx.prompt with unread := rest }.accept r
    if lx.queue.isEmpty && !lx.ended then fillFrom rest lx else lx

/-- Reads lines until something is queued or the reader has ended. -/
def fill (lx : Lexer) : Lexer :=
  if lx.queue.isEmpty && !lx.ended then fillFrom lx.unread lx else lx

/-- Looks at the next token. -/
def peek (lx : Lexer) : Except LexError (Option Token) × Lexer :=
  let lx := lx.fill
  (Entry.front lx.queue, lx)

/-- Takes the next token, or the error in its place. -/
def next (lx : Lexer) : Except LexError (Option Token) × Lexer :=
  let lx := lx.fill
  (Entry.front lx.queue, { lx with queue := lx.queue.tail })

/-- The next line read may start a statement. -/
def beginStatement (lx : Lexer) : Lexer := { lx with continued := false }

/-- Drops what is queued, and any open comment or string. -/
def discard (lx : Lexer) : Lexer := { lx with queue := [], mode := .code }

/-- The prompts shown since the last call. -/
def takePrompts (lx : Lexer) : List Prompt × Lexer :=
  (lx.prompts.reverse, { lx with prompts := [] })

/-- At least the number of entries that answers of the reader are good for.  A line has no more tokens than
bytes. -/
def promised : Input → Nat
  | [] => 0
  | .line text :: rest => text.utf8ByteSize + 2 + promised rest
  | .failed _ :: rest => 2 + promised rest

/-- At least the number of entries that can still be taken.  The end of the input leaves at most one error. -/
def pending (lx : Lexer) : Nat := lx.queue.length + (if lx.ended then 0 else 2) + promised lx.unread

instance : TokenSource Lexer := ⟨peek, next, pending⟩

end Lexer

/-- The tokens of a whole text, or its first lexical error. -/
def tokens (text : String) : Except LexError (List Token) :=
  let lx : Lexer := { unread := .ofText text none }
  (TokenSource.entries lx).mapM id

end SoundLang
