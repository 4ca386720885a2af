import SoundLang.Lexer

/-! # Scanning with stored positions

Where a token ends is stored (`Pos.stored`), and behind the token the scan goes on at the byte that is stored.  On a
line whose bytes all fit this is where the token ends.  On a longer line it may be a place before the token, which is
then found again, and so on for ever.  So a line is scanned here in steps, as many as are granted
(`Lexer.scanWithin`), and a lexer that has not come to the end of a line within them is stuck (`Lexer.Stepped`). -/

namespace SoundLang

namespace Lexer

/-- Scans the line `text`, in `steps` steps at most, from byte `byte` on, where `mode` holds and the characters given
stand.  Gives what was found and the mode at the end of the line, unless steps are wanting. -/
def scanWithin (line : Nat) (text : List Char) :
    (steps byte : Nat) → Mode → List Char → Option (List Entry × Mode)
  | 0, _, _, _ => none
  | _ + 1, _, .code, [] => some ([], .code)
  | _ + 1, _, .code, '/' :: '/' :: _ => some ([], .code)
  | steps + 1, byte, .code, '/' :: '*' :: cs =>
    scanWithin line text steps (byte + 2) (.comment (.stored line byte) []) cs
  | steps + 1, byte, .code, '"' :: cs =>
    scanWithin line text steps (byte + 1) (.string (.stored line byte) "") cs
  | steps + 1, byte, .code, c :: cs =>
    if isBlank c then scanWithin line text steps (byte + 1) .code cs
    else match Lexeme.longest? (c :: cs) with
      | none =>
        some ([.error (.unexpectedCharacter c ⟨.stored line byte, .stored line (byte + c.utf8Size)⟩)], .code)
      | some m =>
        match entryOf m ⟨.stored line byte, .stored line (byte + Text.size m.text)⟩ with
        | .error e => some ([.error e], .code)
        | .ok t =>
          -- not behind `m`, but where the stored span says that the token ends
          let stop := t.span.stop.byte
          (scanWithin line text steps stop .code (Text.behind stop text)).map fun (entries, mode) =>
            (.ok t :: entries, mode)
  | _ + 1, _, .comment opener outer, [] => some ([], .comment opener outer)
  | steps + 1, byte, .comment opener outer, '/' :: '*' :: cs =>
    scanWithin line text steps (byte + 2) (.comment (.stored line byte) (opener :: outer)) cs
  | steps + 1, byte, .comment _ outer, '*' :: '/' :: cs =>
    scanWithin line text steps (byte + 2) (.afterComment outer) cs
  | steps + 1, byte, .comment opener outer, c :: cs =>
    scanWithin line text steps (byte + c.utf8Size) (.comment opener outer) cs
  | _ + 1, _, .string start value, [] => some ([], .string start (value.push '\n'))
  | steps + 1, byte, .string start value, '"' :: cs =>
    (scanWithin line text steps (byte + 1) .code cs).map fun (entries, mode) =>
      (.ok ⟨.string value, ⟨start, .stored line (byte + 1)⟩⟩ :: entries, mode)
  | _ + 1, _, .string start value, ['\\'] => some ([], .string start (value.push '\n'))
  | steps + 1, byte, .string start value, '\\' :: c :: cs =>
    scanWithin line text steps (byte + 1 + c.utf8Size) (.string start (value.push (unescape c))) cs
  | steps + 1, byte, .string start value, c :: cs =>
    scanWithin line text steps (byte + c.utf8Size) (.string start (value.push c)) cs

/-- A lexer that stores positions, with the number of steps that the scan of a line may take. -/
structure Stepped where
  lexer : Lexer
  steps : Nat
  /-- The scan of a line has not come to its end. -/
  stuck : Bool := false

namespace Stepped

/-- Takes over one answer of the reader.  The line is looked up in the log by its stored number. -/
def accept (w : Stepped) : Read → Stepped
  | .failed message => { w with lexer := w.lexer.accept (.failed message) }
  | .line text =>
    let log := w.lexer.log.push text
    let line := min w.lexer.log.size Pos.widest
    let cs := ((log.line? line).getD "").toList
    match scanWithin line cs w.steps 0 w.lexer.mode cs with
    | none => { w with lexer := { w.lexer with log, queue := [], ended := true }, stuck := true }
    | some (entries, mode) =>
      { w with
        lexer := { w.lexer with
          log
          mode
          queue := w.lexer.queue ++ entries
          continued := w.lexer.continued || !entries.isEmpty || !mode.isCode } }

/-- Reads one answer of the reader, or its end. -/
def readLine (w : Stepped) : Stepped :=
  match w.lexer.unread with
  | [] => { w with lexer := { w.lexer.prompt with unread := [] }.finish }
  | r :: rest => { w with lexer := { w.lexer.prompt with unread := rest } }.accept r

/-- Reads what is left of the input, until something is queued or the reader has ended. -/
def fillFrom : Input → Stepped → Stepped
  | [], w => w.readLine
  | _ :: rest, w =>
    let w := w.readLine
    if w.lexer.queue.isEmpty && !w.lexer.ended then fillFrom rest w else w

/-- Reads lines until something is queued or the reader has ended. -/
def fill (w : Stepped) : Stepped :=
  if w.lexer.queue.isEmpty && !w.lexer.ended then fillFrom w.lexer.unread w else w

/-- Looks at the next token. -/
def peek (w : Stepped) : Except LexError (Option Token) × Stepped :=
  let w := w.fill
  (Entry.front w.lexer.queue, w)

/-- Takes the next token, or the error in its place. -/
def next (w : Stepped) : Except LexError (Option Token) × Stepped :=
  let w := w.fill
  (Entry.front w.lexer.queue, { w with lexer := { w.lexer with queue := w.lexer.queue.tail } })

instance : TokenSource Stepped := ⟨peek, next, fun w => w.lexer.pending⟩

end Stepped

end Lexer

end SoundLang
