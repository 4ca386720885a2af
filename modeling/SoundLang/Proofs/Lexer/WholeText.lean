import SoundLang.Proofs.Lexer.Match
import SoundLang.Proofs.Source.Place

/-! # Scanning lines and reading a whole text

`Lexer.lex` reads a whole text in one pass, line feeds included, with the place of each character at hand.  It is
the definition that `Lexer.scan` takes apart line by line: what is scanned from lines one after the other, with
the mode carried over from line to line and the error for what is open at the end, is what is read from the lines
joined by line feeds (`feedAll_eq_lex`).

A line of a text ends in a line feed or with the text (`LineEnd`); what is common to both ends is enough to see
that scanning a line reads the text up to there (`lex_append`). -/

namespace SoundLang

namespace Lexer

/-! ### Reading a text in one pass -/

/-- The part of a text before its first line feed. -/
def lineOf (cs : List Char) : List Char := cs.takeWhile (· != '\n')

/-- The first line feed of a text and what is behind it. -/
def afterLine (cs : List Char) : List Char := cs.dropWhile (· != '\n')

theorem length_afterLine_le (cs : List Char) : (afterLine cs).length ≤ cs.length :=
  (List.dropWhile_suffix _).length_le

/-- Reads a text from the place `p` on, in one pass.  An error is given once, and reading goes on at the next line
feed. -/
def lex (p : Pos) : Mode → List Char → List Entry
  | .code, [] => []
  | .code, '/' :: '/' :: cs => lex (p.advance ('/' :: '/' :: lineOf cs)) .code (afterLine cs)
  | .code, '/' :: '*' :: cs => lex (p.advance ['/', '*']) (.comment p []) cs
  | .code, '"' :: cs => lex (p.past '"') (.string p "") cs
  | .code, c :: cs =>
    if isBlank c then lex (p.past c) .code cs
    else match Lexeme.longest? (c :: cs) with
      | none =>
        .error (.unexpectedCharacter c ⟨p, p.past c⟩) ::
          lex (p.advance (c :: lineOf cs)) .code (afterLine cs)
      | some m =>
        match entryOf m ⟨p, p.advance m.text⟩ with
        | .error e => .error e :: lex (p.advance (c :: lineOf cs)) .code (afterLine cs)
        | .ok t => .ok t :: lex (p.advance m.text) .code (cs.drop (m.text.length - 1))
  | .comment opener outer, [] => [.error (.unterminatedComment opener outer.reverse)]
  | .comment opener outer, '/' :: '*' :: cs => lex (p.advance ['/', '*']) (.comment p (opener :: outer)) cs
  | .comment _ outer, '*' :: '/' :: cs => lex (p.advance ['*', '/']) (.afterComment outer) cs
  | .comment opener outer, c :: cs => lex (p.past c) (.comment opener outer) cs
  | .string start _, [] => [.error (.unterminatedString start)]
  | .string start value, '"' :: cs => .ok ⟨.string value, ⟨start, p.past '"'⟩⟩ :: lex (p.past '"') .code cs
  | .string start value, '\\' :: c :: cs =>
    lex (p.advance ['\\', c]) (.string start (value.push (unescape c))) cs
  | .string start value, c :: cs => lex (p.past c) (.string start (value.push c)) cs
termination_by _ cs => cs.length
decreasing_by
  all_goals simp only [List.length_cons, List.length_drop]
  all_goals have := length_afterLine_le cs
  all_goals omega

/-- Neither a comment nor a string opens with the character. -/
structure Unmarked (c : Char) (cs : List Char) : Prop where
  line : ∀ tail, c = '/' → cs = '/' :: tail → False
  block : ∀ tail, c = '/' → cs = '*' :: tail → False
  quote : c = '"' → False

section rules
variable {c : Char} {cs : List Char} (h : Unmarked c cs)
include h

/-! ### The rules of code -/

theorem scan_blank (line byte : Nat) (hb : isBlank c = true) :
    scan line byte .code (c :: cs) = scan line (byte + 1) .code cs := by
  rw [scan, if_pos hb]
  · exact h.line
  · exact h.block
  · exact h.quote

theorem scan_unexpected (line byte : Nat) (hb : isBlank c = false)
    (hm : Lexeme.longest? (c :: cs) = none) : scan line byte .code (c :: cs) =
      ([.error (.unexpectedCharacter c (.onLine line byte (byte + c.utf8Size)))], .code) := by
  rw [scan, if_neg (by simp [hb]), hm]
  · exact h.line
  · exact h.block
  · exact h.quote

theorem scan_malformed (line byte : Nat) {m : Lexeme} {e : LexError} (hb : isBlank c = false)
    (hm : Lexeme.longest? (c :: cs) = some m)
    (he : entryOf m (.onLine line byte (byte + Text.size m.text)) = .error e) :
    scan line byte .code (c :: cs) = ([.error e], .code) := by
  rw [scan, if_neg (by simp [hb]), hm]
  · simp only [he]
  · exact h.line
  · exact h.block
  · exact h.quote

theorem scan_token (line byte : Nat) {m : Lexeme} {t : Token} (hb : isBlank c = false)
    (hm : Lexeme.longest? (c :: cs) = some m)
    (ht : entryOf m (.onLine line byte (byte + Text.size m.text)) = .ok t) :
    scan line byte .code (c :: cs) =
      (.ok t :: (scan line (byte + Text.size m.text) .code (cs.drop (m.text.length - 1))).1,
        (scan line (byte + Text.size m.text) .code (cs.drop (m.text.length - 1))).2) := by
  rw [scan, if_neg (by simp [hb]), hm]
  · simp only [ht]
  · exact h.line
  · exact h.block
  · exact h.quote

variable (p : Pos)

theorem lex_blank (hb : isBlank c = true) : lex p .code (c :: cs) = lex (p.past c) .code cs := by
  rw [lex, if_pos hb]
  · exact h.line
  · exact h.block
  · exact h.quote

theorem lex_unexpected (hb : isBlank c = false) (hm : Lexeme.longest? (c :: cs) = none) :
    lex p .code (c :: cs) = .error (.unexpectedCharacter c ⟨p, p.past c⟩) ::
      lex (p.advance (c :: lineOf cs)) .code (afterLine cs) := by
  rw [lex, if_neg (by simp [hb]), hm]
  · exact h.line
  · exact h.block
  · exact h.quote

theorem lex_malformed {m : Lexeme} {e : LexError} (hb : isBlank c = false)
    (hm : Lexeme.longest? (c :: cs) = some m) (he : entryOf m ⟨p, p.advance m.text⟩ = .error e) :
    lex p .code (c :: cs) = .error e :: lex (p.advance (c :: lineOf cs)) .code (afterLine cs) := by
  rw [lex, if_neg (by simp [hb]), hm]
  · simp only [he]
  · exact h.line
  · exact h.block
  · exact h.quote

theorem lex_token {m : Lexeme} {t : Token} (hb : isBlank c = false)
    (hm : Lexeme.longest? (c :: cs) = some m) (ht : entryOf m ⟨p, p.advance m.text⟩ = .ok t) :
    lex p .code (c :: cs) = .ok t :: lex (p.advance m.text) .code (cs.drop (m.text.length - 1)) := by
  rw [lex, if_neg (by simp [hb]), hm]
  · simp only [ht]
  · exact h.line
  · exact h.block
  · exact h.quote

end rules

theorem utf8Size_of_isBlank {c : Char} (h : isBlank c = true) : c.utf8Size = 1 := by
  simp only [isBlank, Bool.or_eq_true, beq_iff_eq] at h
  obtain (((rfl | rfl) | rfl) | rfl) | rfl := h <;> rfl

end Lexer

/-- The error for what is open at the end of a text. -/
def Mode.ending (mode : Mode) : List Entry := (mode.finish?.map Except.error).toList

/-- The mode behind a line feed. -/
def Mode.lineBreak : Mode → Mode
  | .string start value => .string start (value.push '\n')
  | mode => mode

namespace Lexer

/-! ### The end of a line -/

/-- Behind a line of the text stands `rest`, and `after` is what is read from there on. -/
structure LineEnd (line : Nat) (rest : List Char) (after : Mode → List Entry) : Prop where
  boundary : rest = [] ∨ ∃ tail, rest = '\n' :: tail
  enter : ∀ p : Pos, p.line = line → ∀ mode, lex p mode rest = after mode.lineBreak
  /-- The string goes on where a backslash is the last character of the line. -/
  escaped : ∀ byte start value,
    lex ⟨line, byte⟩ (.string start value) ('\\' :: rest) = after (.string start (value.push '\n'))

/-- The last line ends with the text. -/
theorem lineEnd_nil (line : Nat) : LineEnd line [] Mode.ending where
  boundary := .inl rfl
  enter := by
    intro p _ mode
    cases mode <;> simp [lex, Mode.lineBreak, Mode.ending, Mode.finish?]
  escaped := by
    intro byte start value
    simp [lex, Mode.ending, Mode.finish?]

/-- Every other line ends in a line feed. -/
theorem lineEnd_newline (line : Nat) (tail : List Char) :
    LineEnd line ('\n' :: tail) fun mode => lex ⟨line + 1, 0⟩ mode tail where
  boundary := .inr ⟨tail, rfl⟩
  enter := by
    intro p hp mode
    subst hp
    cases mode <;> simp [lex, Mode.lineBreak, isBlank, Pos.past]
  escaped := by
    intro byte start value
    simp [lex, Pos.past, unescape]

/-- A match lies on its line. -/
theorem entryOf_advance {cs : List Char} {m : Lexeme} (hm : Lexeme.longest? cs = some m) (line byte : Nat) :
    entryOf m (.onLine line byte (byte + Text.size m.text)) =
      entryOf m ⟨⟨line, byte⟩, (⟨line, byte⟩ : Pos).advance m.text⟩ := by
  rw [Pos.advance_of_not_mem _ (Lexeme.newline_not_mem hm)]
  rfl

namespace LineEnd

variable {line : Nat} {rest : List Char} {after : Mode → List Entry}

theorem longest?_append (h : LineEnd line rest after) (cs : List Char) :
    Lexeme.longest? (cs ++ rest) = Lexeme.longest? cs := by
  obtain rfl | ⟨tail, rfl⟩ := h.boundary
  · rw [List.append_nil]
  · exact Lexeme.longest?_append rfl tail cs

theorem lineOf_append (h : LineEnd line rest after) {cs : List Char} (hcs : '\n' ∉ cs) :
    lineOf (cs ++ rest) = cs := by
  have hall : ∀ c ∈ cs, (c != '\n') = true := fun c hc => bne_iff_ne.mpr fun e => hcs (e ▸ hc)
  rw [lineOf, List.takeWhile_append_of_pos hall]
  obtain rfl | ⟨tail, rfl⟩ := h.boundary <;> simp

theorem afterLine_append (h : LineEnd line rest after) {cs : List Char} (hcs : '\n' ∉ cs) :
    afterLine (cs ++ rest) = rest := by
  have hall : ∀ c ∈ cs, (c != '\n') = true := fun c hc => bne_iff_ne.mpr fun e => hcs (e ▸ hc)
  rw [afterLine, List.dropWhile_append_of_pos hall]
  obtain rfl | ⟨tail, rfl⟩ := h.boundary <;> simp

/-- What is left of the line is skipped. -/
theorem skip (h : LineEnd line rest after) (byte : Nat) (ds : List Char) {cs : List Char} (hcs : '\n' ∉ cs)
    (hds : '\n' ∉ ds) :
    lex ((⟨line, byte⟩ : Pos).advance (ds ++ lineOf (cs ++ rest))) .code (afterLine (cs ++ rest)) =
      after .code := by
  rw [h.afterLine_append hcs, h.lineOf_append hcs, Pos.advance_of_not_mem _ (by simp [hcs, hds])]
  exact h.enter _ rfl .code

/-- The second character of a marker stands on the line. -/
theorem ne_cons (h : LineEnd line rest after) {d : Char} (hd : d ≠ '\n') {cs : List Char}
    (hcs : ∀ tail, cs = d :: tail → False) (tail : List Char) : cs ++ rest ≠ d :: tail := by
  cases cs with
  | nil =>
      obtain rfl | ⟨tail, rfl⟩ := h.boundary
      · simp
      · simp [hd.symm]
  | cons c cs =>
      intro he
      rw [List.cons_append, List.cons.injEq] at he
      exact hcs cs (by rw [he.1])

theorem unmarked (h : LineEnd line rest after) {c : Char} {cs : List Char} (hu : Unmarked c cs) :
    Unmarked c (cs ++ rest) where
  line := fun tail hc => h.ne_cons (by decide) (fun tail => hu.line tail hc) tail
  block := fun tail hc => h.ne_cons (by decide) (fun tail => hu.block tail hc) tail
  quote := hu.quote

section code
variable {c : Char} {cs : List Char} {m : Lexeme} (h : LineEnd line rest after) (hu : Unmarked c cs)
  (hb : isBlank c = false) (byte : Nat)
include h hu hb

theorem lex_token (hm : Lexeme.longest? (c :: cs) = some m) {t : Token}
    (ht : entryOf m (.onLine line byte (byte + Text.size m.text)) = .ok t) :
    lex ⟨line, byte⟩ .code (c :: (cs ++ rest)) =
      .ok t :: lex ⟨line, byte + Text.size m.text⟩ .code (cs.drop (m.text.length - 1) ++ rest) := by
  have hm' : Lexeme.longest? (c :: (cs ++ rest)) = some m := (h.longest?_append (c :: cs)).trans hm
  have hlen : m.text.length - 1 ≤ cs.length := by
    have := (Lexeme.append_of_longest? hm).2.length_le
    rw [List.length_cons] at this
    omega
  rw [Lexer.lex_token (h.unmarked hu) _ hb hm' (entryOf_advance hm line byte ▸ ht),
    Pos.advance_of_not_mem _ (Lexeme.newline_not_mem hm), List.drop_append_of_le_length hlen]

variable (hcs : '\n' ∉ c :: cs)
include hcs

theorem lex_unexpected (hm : Lexeme.longest? (c :: cs) = none) :
    lex ⟨line, byte⟩ .code (c :: (cs ++ rest)) =
      .error (.unexpectedCharacter c (.onLine line byte (byte + c.utf8Size))) :: after .code := by
  rw [List.mem_cons, not_or] at hcs
  have hm' : Lexeme.longest? (c :: (cs ++ rest)) = none := (h.longest?_append (c :: cs)).trans hm
  have hskip := h.skip byte [c] hcs.2 (by simpa using hcs.1)
  rw [List.singleton_append] at hskip
  rw [Lexer.lex_unexpected (h.unmarked hu) _ hb hm', hskip, Pos.past_of_ne _ (Ne.symm hcs.1)]
  rfl

theorem lex_malformed (hm : Lexeme.longest? (c :: cs) = some m) {e : LexError}
    (he : entryOf m (.onLine line byte (byte + Text.size m.text)) = .error e) :
    lex ⟨line, byte⟩ .code (c :: (cs ++ rest)) = .error e :: after .code := by
  rw [List.mem_cons, not_or] at hcs
  have hm' : Lexeme.longest? (c :: (cs ++ rest)) = some m := (h.longest?_append (c :: cs)).trans hm
  have hskip := h.skip byte [c] hcs.2 (by simpa using hcs.1)
  rw [List.singleton_append] at hskip
  rw [Lexer.lex_malformed (h.unmarked hu) _ hb hm' (entryOf_advance hm line byte ▸ he), hskip]

end code

end LineEnd

/-- Scanning a line reads the text up to its end. -/
theorem lex_append {line : Nat} {rest : List Char} {after : Mode → List Entry}
    (h : LineEnd line rest after) (byte : Nat) (mode : Mode) (cs : List Char) (hcs : '\n' ∉ cs) :
    lex ⟨line, byte⟩ mode (cs ++ rest) = (scan line byte mode cs).1 ++ after (scan line byte mode cs).2 := by
  induction byte, mode, cs using scan.induct line with
  | case1 byte =>
      rw [scan]
      exact h.enter _ rfl .code
  | case2 byte tail =>
      simp only [List.mem_cons, not_or] at hcs
      rw [List.cons_append, List.cons_append, lex, scan]
      exact h.skip byte ['/', '/'] hcs.2.2 (by decide)
  | case3 byte cs ih =>
      rw [List.cons_append, List.cons_append, lex, scan]
      exact ih fun hm => hcs (by simp [hm])
  | case4 byte cs ih =>
      rw [List.cons_append, lex, scan]
      exact ih fun hm => hcs (by simp [hm])
  | case5 byte c cs h1 h2 h3 hb ih =>
      have hu : Unmarked c cs := ⟨h1, h2, h3⟩
      simp only [List.mem_cons, not_or] at hcs
      rw [List.cons_append, lex_blank (h.unmarked hu) _ hb, scan_blank hu _ _ hb,
        Pos.past_of_ne _ (Ne.symm hcs.1), utf8Size_of_isBlank hb]
      exact ih hcs.2
  | case6 byte c cs h1 h2 h3 hb hm =>
      have hu : Unmarked c cs := ⟨h1, h2, h3⟩
      rw [Bool.not_eq_true] at hb
      rw [scan_unexpected hu _ _ hb hm]
      exact h.lex_unexpected hu hb byte hcs hm
  | case7 byte c cs h1 h2 h3 hb m hm stop e he =>
      have hu : Unmarked c cs := ⟨h1, h2, h3⟩
      rw [Bool.not_eq_true] at hb
      rw [scan_malformed hu _ _ hb hm he]
      exact h.lex_malformed hu hb byte hcs hm he
  | case8 byte c cs h1 h2 h3 hb m hm stop t ht entries mode hs ih =>
      have hu : Unmarked c cs := ⟨h1, h2, h3⟩
      rw [Bool.not_eq_true] at hb
      rw [List.cons_append, h.lex_token hu hb byte hm ht, scan_token hu _ _ hb hm ht]
      have hdrop : '\n' ∉ cs.drop (m.text.length - 1) :=
        fun hmem => hcs (List.mem_cons_of_mem c (List.mem_of_mem_drop hmem))
      exact congrArg (_ :: ·) (ih hdrop)
  | case9 byte opener outer =>
      rw [scan]
      exact h.enter _ rfl (.comment opener outer)
  | case10 byte opener outer cs ih =>
      rw [List.cons_append, List.cons_append, lex, scan]
      exact ih fun hm => hcs (by simp [hm])
  | case11 byte opener outer cs ih =>
      rw [List.cons_append, List.cons_append, lex, scan]
      exact ih fun hm => hcs (by simp [hm])
  | case12 byte opener outer c cs h1 h2 ih =>
      simp only [List.mem_cons, not_or] at hcs
      rw [List.cons_append, lex, scan, Pos.past_of_ne _ (Ne.symm hcs.1)]
      · exact ih hcs.2
      · exact h1
      · exact h2
      · exact fun tail hc => h.ne_cons (by decide) (fun tail => h1 tail hc) tail
      · exact fun tail hc => h.ne_cons (by decide) (fun tail => h2 tail hc) tail
  | case13 byte start value =>
      rw [scan]
      exact h.enter _ rfl (.string start value)
  | case14 byte start value cs entries mode hs ih =>
      rw [List.cons_append, lex, scan]
      have := ih fun hm => hcs (by simp [hm])
      exact congrArg (_ :: ·) this
  | case15 byte start value =>
      rw [scan]
      exact h.escaped byte start value
  | case16 byte start value c cs ih =>
      simp only [List.mem_cons, not_or] at hcs
      have hadvance : (⟨line, byte⟩ : Pos).advance ['\\', c] = ⟨line, byte + 1 + c.utf8Size⟩ := by
        rw [Pos.advance_cons, Pos.advance_cons, Pos.advance_nil, Pos.past_of_ne _ (Ne.symm hcs.2.1)]
        rfl
      rw [List.cons_append, List.cons_append, lex, scan, hadvance]
      exact ih hcs.2.2
  | case17 byte start value c cs h1 h2 h3 ih =>
      simp only [List.mem_cons, not_or] at hcs
      have hback : c ≠ '\\' := by
        intro hc
        cases cs with
        | nil => exact h2 hc rfl
        | cons d ds => exact h3 d ds hc rfl
      rw [List.cons_append, lex, scan, Pos.past_of_ne _ (Ne.symm hcs.1)]
      · exact ih hcs.2
      · exact h1
      · exact h2
      · exact h3
      · exact h1
      · exact fun _ _ hc _ => hback hc

/-! ### Scanning lines -/

/-- Scans lines one after the other, the first with the number `line`. -/
def feed (line : Nat) (mode : Mode) : List (List Char) → List Entry × Mode
  | [] => ([], mode)
  | cs :: lines =>
    let found := scan line 0 mode cs
    let rest := feed (line + 1) found.2 lines
    (found.1 ++ rest.1, rest.2)

/-- Scans all the lines of a text, and then its end. -/
def feedAll (line : Nat) (mode : Mode) (lines : List (List Char)) : List Entry :=
  (feed line mode lines).1 ++ (feed line mode lines).2.ending

theorem feedAll_cons (line : Nat) (mode : Mode) (cs : List Char) (lines : List (List Char)) :
    feedAll line mode (cs :: lines) =
      (scan line 0 mode cs).1 ++ feedAll (line + 1) (scan line 0 mode cs).2 lines := by
  simp [feedAll, feed]

theorem feedAll_eq_lex {lines : List (List Char)} (hlines : ∀ cs ∈ lines, '\n' ∉ cs) (line : Nat)
    (mode : Mode) : feedAll line mode lines = lex ⟨line, 0⟩ mode (['\n'].intercalate lines) := by
  induction lines generalizing line mode with
  | nil =>
      rw [List.intercalate_nil, (lineEnd_nil line).enter ⟨line, 0⟩ rfl]
      cases mode <;> rfl
  | cons cs lines ih =>
      rw [List.forall_mem_cons] at hlines
      rw [feedAll_cons]
      cases lines with
      | nil =>
          have := lex_append (lineEnd_nil line) 0 mode cs hlines.1
          rw [List.append_nil] at this
          rw [List.intercalate_singleton, this]
          rfl
      | cons ds lines =>
          rw [List.intercalate_cons_cons, List.append_assoc, List.singleton_append, ih hlines.2]
          exact (lex_append (lineEnd_newline line _) 0 mode cs hlines.1).symm

/-- What one scanner queues for lines fed to it in order, with the error of its end, is what a single pass finds
on the lines joined by line feeds. -/
theorem scanned_lines_eq_whole_text {lines : List (List Char)} (hlines : ∀ cs ∈ lines, '\n' ∉ cs)
    (line : Nat) : (feed line .code lines).1 ++ ((feed line .code lines).2.finish?.map .error).toList =
      lex ⟨line, 0⟩ .code (['\n'].intercalate lines) :=
  feedAll_eq_lex hlines line .code

/-- A string that goes on behind a backslash at the end of a line, a line that ends in an error, and a comment that
stays open. -/
theorem scanned_lines_in_every_mode :
    (∀ cs ∈ ["\"a\\".toList, "b\" @ x".toList, "/* */ /*".toList], '\n' ∉ cs) ∧
      lex ⟨0, 0⟩ .code "\"a\\\nb\" @ x\n/* */ /*".toList =
        [.ok ⟨.string "a\nb", ⟨⟨0, 0⟩, ⟨1, 2⟩⟩⟩,
          .error (.unexpectedCharacter '@' ⟨⟨1, 3⟩, ⟨1, 4⟩⟩),
          .error (.unterminatedComment ⟨2, 6⟩ [])] := by
  have hlines : ∀ cs ∈ ["\"a\\".toList, "b\" @ x".toList, "/* */ /*".toList], '\n' ∉ cs := by decide
  have hnone : Lexeme.longest? ['@', ' ', 'x'] = none := by decide
  refine ⟨hlines, (scanned_lines_eq_whole_text hlines 0).symm.trans ?_⟩
  simp [feed, scan, hnone, isBlank, Mode.afterComment, Mode.finish?, Span.onLine]
  decide

end Lexer

end SoundLang
