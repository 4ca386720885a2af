import SoundLang.Proofs.Diagnostic.Labels
import SoundLang.Proofs.Lexer.Lazy

/-! # Tokens stand in the log in their order

What a lexer has found and not yet served stands in its log, token behind token, and errors point to nothing outside
(`Lexer.Follow`).  What is open stands there too, a string behind all tokens (`Mode.Sited`).  Scanning a line keeps this
(`Lexer.found_scan`), and so do all calls, with a place that moves on as tokens are taken (`Lexer.At`). -/

namespace SoundLang

/-- What is open behind the tokens up to `q` stands in the log in front of `p`. -/
def Mode.Sited (log : Log) (q p : Pos) : Mode → Prop
  | code => True
  | comment opener outer => ∀ o ∈ opener :: outer, log.Holds (LexError.opener o)
  | string start _ => q ≤ start ∧ start ≤ p ∧ log.Holds (LexError.openingQuote start)

/-- An answer is a token that starts no earlier than those before and stands in the log, or an error that points to
nothing outside the log. -/
def Reading.Answers (w w' : Reading) : Except LexError (Option Token) → Prop
  | .ok o => ∀ t ∈ o, w.place ≤ t.span.start ∧ w'.Shows t.span
  | .error e => e.diagnostic.Sited w'.log

variable {log log' : Log} {p q r : Pos}

theorem Mode.Sited.mono {mode : Mode} (h : mode.Sited log q p) (hgrows : log.Grows log') : mode.Sited log' q p := by
  cases mode with
  | code => trivial
  | comment opener outer => exact fun o ho => (h o ho).mono hgrows
  | string start value => exact ⟨h.1, h.2.1, h.2.2.mono hgrows⟩

/-- The error for what is open at the end points to where it was opened. -/
theorem Mode.Sited.finish {mode : Mode} (h : mode.Sited log q p) : ∀ e ∈ mode.finish?, e.diagnostic.Sited log := by
  cases mode with
  | code => exact nofun
  | comment opener outer =>
      rintro _ ⟨⟩
      rw [LexError.sited_unterminatedComment]
      exact fun o ho => h o (by simpa using ho)
  | string start value =>
      rintro _ ⟨⟩
      simpa [LexError.diagnostic] using h.2.2

namespace Lexer

variable {es us : List Entry}

/-- The entries stand in the log in their order, behind `p` and in front of `q`. -/
inductive Follow (log : Log) : Pos → List Entry → Pos → Prop
  | nil {p q : Pos} (hle : p ≤ q) : Follow log p [] q
  | token {p q : Pos} {t : Token} {es : List Entry} (hle : p ≤ t.span.start) (hholds : log.Holds t.span)
      (h : Follow log t.span.stop es q) : Follow log p (.ok t :: es) q
  | error {p q : Pos} {e : LexError} {es : List Entry} (hsited : e.diagnostic.Sited log) (h : Follow log p es q) :
      Follow log p (.error e :: es) q

namespace Follow

theorem le (h : Follow log p es q) : p ≤ q := by
  induction h with
  | nil hle => exact hle
  | token hle hholds _ ih => exact Pos.le_trans hle (Pos.le_trans hholds.le ih)
  | error _ _ ih => exact ih

theorem mono (h : Follow log p es q) (hgrows : log.Grows log') : Follow log' p es q := by
  induction h with
  | nil hle => exact .nil hle
  | token hle hholds _ ih => exact .token hle (hholds.mono hgrows) ih
  | error hsited _ ih => exact .error (hsited.mono hgrows) ih

theorem behind (h : Follow log q es r) (hle : p ≤ q) : Follow log p es r := by
  induction h with
  | nil hle' => exact .nil (Pos.le_trans hle hle')
  | token hle' hholds h _ => exact .token (Pos.le_trans hle hle') hholds h
  | error hsited _ ih => exact .error hsited (ih hle)

theorem append (h : Follow log p es q) (h' : Follow log q us r) : Follow log p (es ++ us) r := by
  induction h with
  | nil hle => exact h'.behind hle
  | token hle hholds _ ih => exact .token hle hholds (ih h')
  | error hsited _ ih => exact .error hsited (ih h')

/-- What comes first stands in the log, and the rest behind its start. -/
theorem front (h : Follow log p es q) : ∃ p', p ≤ p' ∧ Follow log p' es q ∧ Follow log p' es.tail q ∧
    match Entry.front es with
    | .ok o => ∀ t ∈ o, p ≤ t.span.start ∧ t.span.start ≤ p' ∧ log.Holds t.span
    | .error e => e.diagnostic.Sited log := by
  cases h with
  | nil hle => exact ⟨p, Pos.le_refl p, .nil hle, .nil hle, nofun⟩
  | @token _ _ t _ hle hholds h =>
      refine ⟨t.span.start, hle, .token (Pos.le_refl _) hholds h, h.behind hholds.le, fun _ ht => ?_⟩
      exact Option.some.inj ht ▸ ⟨hle, Pos.le_refl _, hholds⟩
  | error hsited h => exact ⟨p, Pos.le_refl p, .error hsited h, h, hsited⟩

end Follow

/-! ### A line -/

/-- The scanner has come to the place, behind the tokens up to `q`: the text `cs` follows on the line, and what is open
stands in the log. -/
structure Arrives (log : Log) (q p : Pos) (mode : Mode) (cs : List Char) : Prop where
  behind : log.Behind p cs
  le : q ≤ p
  mode : mode.Sited log q p

/-- What is found on a line, behind the tokens up to `q`, stands in the log. -/
def Found (log : Log) (line : Nat) (q : Pos) (found : List Entry × Mode) : Prop :=
  ∃ r, Follow log q found.1 r ∧ r ≤ ⟨line + 1, 0⟩ ∧ found.2.Sited log r ⟨line + 1, 0⟩

section
variable {line byte : Nat} {mode : Mode} {cs : List Char}

theorem le_lineEnd (h : q ≤ ⟨line, byte⟩) : q ≤ ⟨line + 1, 0⟩ := Pos.le_trans h (.inl (Nat.lt_succ_self line))

theorem le_skip (h : q ≤ ⟨line, byte⟩) (n : Nat) : q ≤ ⟨line, byte + n⟩ :=
  Pos.le_trans h (.inr ⟨rfl, Nat.le_add_right byte n⟩)

namespace Arrives

theorem skip (mode' : Mode) (xs : List Char) (h : Arrives log q ⟨line, byte⟩ mode (xs ++ cs))
    (hmode : mode'.Sited log q ⟨line, byte + Text.size xs⟩) :
    Arrives log q ⟨line, byte + Text.size xs⟩ mode' cs :=
  ⟨h.behind.skip, le_skip h.le _, hmode⟩

theorem holds (xs : List Char) (h : Arrives log q ⟨line, byte⟩ mode (xs ++ cs)) :
    log.Holds (.onLine line byte (byte + Text.size xs)) := h.behind.holds

/-- Behind a token all that is to come is behind this token. -/
theorem token (xs : List Char) (h : Arrives log q ⟨line, byte⟩ mode (xs ++ cs)) :
    Arrives log ⟨line, byte + Text.size xs⟩ ⟨line, byte + Text.size xs⟩ .code cs :=
  ⟨h.behind.skip, Pos.le_refl _, trivial⟩

theorem found_nil (h : Arrives log q ⟨line, byte⟩ mode cs) {mode' : Mode} (hmode : mode'.Sited log q ⟨line + 1, 0⟩) :
    Found log line q ([], mode') :=
  ⟨q, .nil (Pos.le_refl q), le_lineEnd h.le, hmode⟩

theorem found_error (h : Arrives log q ⟨line, byte⟩ mode cs) {e : LexError} (he : e.diagnostic.Sited log) :
    Found log line q ([.error e], .code) :=
  ⟨q, .error he (.nil (Pos.le_refl q)), le_lineEnd h.le, trivial⟩

end Arrives

theorem Found.token {t : Token} {found : List Entry × Mode} (hq : q ≤ t.span.start) (ht : log.Holds t.span)
    (h : Found log line t.span.stop found) : Found log line q (.ok t :: found.1, found.2) := by
  obtain ⟨r, hfollow, hr, hmode⟩ := h
  exact ⟨r, .token hq ht hfollow, hr, hmode⟩

theorem sited_of_entryOf {m : Lexeme} {s : Span} {e : LexError} (h : entryOf m s = .error e) (hs : log.Holds s) :
    e.diagnostic.Sited log := by
  unfold entryOf at h
  split at h <;> cases h <;> simpa [LexError.diagnostic] using hs

/-- What a line is scanned for stands in the log. -/
theorem found_scan : ∀ q : Pos, Arrives log q ⟨line, byte⟩ mode cs → Found log line q (scan line byte mode cs) := by
  induction byte, mode, cs using scan.induct line with
  | case1 byte | case2 byte tail =>
      intro q h
      rw [scan]
      exact h.found_nil trivial
  | case3 byte cs ih =>
      intro q h
      rw [scan]
      exact ih q (h.skip _ ['/', '*'] (List.forall_mem_singleton.mpr (h.holds ['/', '*'])))
  | case4 byte cs ih =>
      intro q h
      rw [scan]
      exact ih q (h.skip _ ['"'] ⟨h.le, le_skip (Pos.le_refl _) 1, h.holds ['"']⟩)
  | case5 byte c cs h1 h2 h3 hb ih =>
      intro q h
      have hskip := h.skip .code [c] trivial
      rw [Text.size_cons, utf8Size_of_isBlank hb] at hskip
      rw [scan_blank ⟨h1, h2, h3⟩ line byte hb]
      exact ih q hskip
  | case6 byte c cs h1 h2 h3 hb hm =>
      intro q h
      rw [Bool.not_eq_true] at hb
      rw [scan_unexpected ⟨h1, h2, h3⟩ line byte hb hm]
      exact h.found_error (by simpa [LexError.diagnostic] using h.holds [c])
  | case7 byte c cs h1 h2 h3 hb m hm stop e he =>
      intro q h
      rw [← text_append_drop hm] at h
      rw [Bool.not_eq_true] at hb
      rw [scan_malformed ⟨h1, h2, h3⟩ line byte hb hm he]
      exact h.found_error (sited_of_entryOf he (h.holds m.text))
  | case8 byte c cs h1 h2 h3 hb m hm stop t ht entries mode hs ih =>
      intro q h
      rw [← text_append_drop hm] at h
      rw [Bool.not_eq_true] at hb
      rw [scan_token ⟨h1, h2, h3⟩ line byte hb hm ht]
      obtain ⟨kind, rfl, -⟩ := spells_of_entryOf hm ht
      exact .token h.le (h.holds m.text) (ih _ (h.token m.text))
  | case9 byte opener outer =>
      intro q h
      rw [scan]
      exact h.found_nil h.mode
  | case10 byte opener outer cs ih =>
      intro q h
      rw [scan]
      exact ih q (h.skip _ ['/', '*'] (List.forall_mem_cons.mpr ⟨h.holds ['/', '*'], h.mode⟩))
  | case11 byte opener outer cs ih =>
      intro q h
      have houter : (Mode.afterComment outer).Sited log q ⟨line, byte + 2⟩ := by
        cases outer with
        | nil => trivial
        | cons o outer => exact (List.forall_mem_cons.mp h.mode).2
      rw [scan]
      exact ih q (h.skip _ ['*', '/'] houter)
  | case12 byte opener outer c cs h1 h2 ih =>
      intro q h
      rw [scan]
      · exact ih q (h.skip _ [c] h.mode)
      · exact h1
      · exact h2
  | case13 byte start value | case15 byte start value =>
      intro q h
      rw [scan]
      exact h.found_nil ⟨h.mode.1, le_lineEnd h.mode.2.1, h.mode.2.2⟩
  | case14 byte start value cs entries mode hs ih =>
      intro q h
      -- the string may have been opened on an earlier line
      obtain ⟨hstart, hle, hquote⟩ := h.mode
      have htoken : log.Holds ⟨start, ⟨line, byte + 1⟩⟩ := ⟨le_skip hle 1, hquote.start, (h.holds ['"']).stop⟩
      rw [scan]
      exact .token hstart htoken (ih _ (h.token ['"']))
  | case16 byte start value c cs ih =>
      intro q h
      have hskip := h.skip (.string start (value.push (unescape c))) ['\\', c]
        ⟨h.mode.1, le_skip h.mode.2.1 _, h.mode.2.2⟩
      rw [Text.size_cons, Text.size_cons, Text.size_nil, Nat.add_zero, ← Nat.add_assoc] at hskip
      rw [scan]
      exact ih q hskip
  | case17 byte start value c cs h1 h2 h3 ih =>
      intro q h
      rw [scan]
      · exact ih q (h.skip _ [c] ⟨h.mode.1, le_skip h.mode.2.1 _, h.mode.2.2⟩)
      · exact h1
      · exact h2
      · exact h3

end

/-! ### The lexer -/

/-- A lexer of which tokens have been taken up to a place: what it has found and not yet served stands in its log,
behind that place. -/
structure At (w : Reading) (lx : Lexer) : Prop where
  log : lx.log = w.log
  follow : ∃ q, Follow w.log w.place lx.queue q ∧ q ≤ ⟨w.log.size, 0⟩ ∧ lx.mode.Sited w.log q ⟨w.log.size, 0⟩

theorem at_opened (input : Input) (prompting : Prompting) : At ⟨{}, ⟨0, 0⟩⟩ (opened input prompting) where
  log := rfl
  follow := ⟨⟨0, 0⟩, .nil (Pos.le_refl _), Pos.le_refl _, trivial⟩

namespace At

variable {w : Reading} {lx lx' : Lexer}

theorem prompt (h : At w lx) : At w lx.prompt :=
  ⟨lx.prompt_log ▸ h.log, lx.prompt_queue ▸ lx.prompt_mode ▸ h.follow⟩

theorem finish (h : At w lx) : At w lx.finish := by
  obtain ⟨q, hfollow, hq, hmode⟩ := h.follow
  refine ⟨h.log, q, hfollow.append (q := q) ?_, hq, trivial⟩
  cases hfinish : lx.mode.finish? with
  | none => exact .nil (Pos.le_refl q)
  | some e => exact .error (hmode.finish e hfinish) (.nil (Pos.le_refl q))

theorem accept (h : At w lx) (r : Read) : ∃ w', w ≤ w' ∧ w'.place = w.place ∧ At w' (lx.accept r) := by
  obtain ⟨q, hfollow, hq, hmode⟩ := h.follow
  cases r with
  | failed message =>
      have herror : Follow w.log q [.error (.unreadable message)] q :=
        .error (by simp [LexError.diagnostic]) (.nil (Pos.le_refl q))
      exact ⟨w, le_refl w, rfl, h.log, q, hfollow.append herror, hq, hmode⟩
  | line text =>
      have hgrows := w.log.grows_push (Log.chomp text)
      have hfound := found_scan q ⟨w.log.behind_push (Log.chomp text), hq, hmode.mono hgrows⟩
      obtain ⟨r, hscan, hr, hmode'⟩ := hfound
      have hsize : (⟨w.log.lines.push (Log.chomp text)⟩ : Log).size = w.log.size + 1 := Array.size_push _
      rw [← hsize] at hr hmode'
      refine ⟨⟨⟨w.log.lines.push (Log.chomp text)⟩, w.place⟩, ⟨hgrows, Pos.le_refl _⟩, rfl, ?_, r, ?_, hr, ?_⟩
      · simp only [Lexer.accept, h.log]
      · simp only [Lexer.accept, h.log]
        exact (hfollow.mono hgrows).append hscan
      · simp only [Lexer.accept, h.log]
        exact hmode'

theorem readLine (h : At w lx) : ∃ w', w ≤ w' ∧ w'.place = w.place ∧ At w' lx.readLine := by
  unfold Lexer.readLine
  split
  · have hfinish : At w ({ lx.prompt with unread := [] } : Lexer).finish := At.finish ⟨h.prompt.log, h.prompt.follow⟩
    exact ⟨w, le_refl w, rfl, hfinish⟩
  · next r rest _ =>
      have hprompt : At w { lx.prompt with unread := rest } := ⟨h.prompt.log, h.prompt.follow⟩
      exact hprompt.accept r

theorem reads (hreads : Reads lx lx') : ∀ {w : Reading}, At w lx → ∃ w', w ≤ w' ∧ w'.place = w.place ∧ At w' lx' := by
  induction hreads with
  | none lx => exact fun h => ⟨_, le_refl _, rfl, h⟩
  | line _ _ _ ih =>
      intro w h
      obtain ⟨w', hle, hplace, h'⟩ := h.readLine
      obtain ⟨w'', hle', hplace', h''⟩ := ih h'
      exact ⟨w'', hle.trans hle', hplace'.trans hplace, h''⟩

/-- What comes next stands in the log, before and after it is taken. -/
theorem fill (h : At w lx) : ∃ w', w ≤ w' ∧ w.Answers w' (Entry.front lx.fill.queue) ∧ At w' lx.fill ∧
    At w' { lx.fill with queue := lx.fill.queue.tail } := by
  obtain ⟨w', hle, hplace, h'⟩ := reads (reads_fill lx) h
  obtain ⟨q, hfollow, hq, hmode⟩ := h'.follow
  obtain ⟨p, hp, hall, htail, hfront⟩ := hfollow.front
  refine ⟨⟨w'.log, p⟩, ⟨hle.1, Pos.le_trans hle.2 hp⟩, ?_, ⟨h'.log, q, hall, hq, hmode⟩, h'.log, q, htail, hq, hmode⟩
  cases hr : Entry.front lx.fill.queue with
  | ok o =>
      rw [hr] at hfront
      intro t ht
      obtain ⟨hstart, hle', hholds⟩ := hfront t ht
      exact ⟨hplace ▸ hstart, hholds, hle'⟩
  | error e =>
      rw [hr] at hfront
      exact hfront

theorem peek (h : At w lx) : ∃ w', w ≤ w' ∧ w.Answers w' lx.peek.1 ∧ At w' lx.peek.2 := by
  obtain ⟨w', hle, hanswers, h', -⟩ := h.fill
  exact ⟨w', hle, hanswers, h'⟩

theorem next (h : At w lx) : ∃ w', w ≤ w' ∧ w.Answers w' lx.next.1 ∧ At w' lx.next.2 := by
  obtain ⟨w', hle, hanswers, -, h'⟩ := h.fill
  exact ⟨w', hle, hanswers, h'⟩

theorem beginStatement (h : At w lx) : At w lx.beginStatement := ⟨h.log, h.follow⟩

theorem discard (h : At w lx) : At w lx.discard := by
  obtain ⟨q, hfollow, hq, -⟩ := h.follow
  exact ⟨h.log, w.place, .nil (Pos.le_refl _), Pos.le_trans hfollow.le hq, trivial⟩

/-- Every call keeps what has been found in the log. -/
theorem call (h : At w lx) (c : Call) : ∃ w', w ≤ w' ∧ At w' (lx.call c) := by
  cases c with
  | peek =>
      obtain ⟨w', hle, -, h'⟩ := h.peek
      exact ⟨w', hle, h'⟩
  | next =>
      obtain ⟨w', hle, -, h'⟩ := h.next
      exact ⟨w', hle, h'⟩
  | beginStatement => exact ⟨w, le_refl w, h.beginStatement⟩
  | discard => exact ⟨w, le_refl w, h.discard⟩

theorem calls (h : At w lx) (cs : List Call) : ∃ w', w ≤ w' ∧ At w' (lx.calls cs) := by
  induction cs generalizing w lx with
  | nil => exact ⟨w, le_refl w, h⟩
  | cons c cs ih =>
      obtain ⟨w', hle, h'⟩ := h.call c
      obtain ⟨w'', hle', h''⟩ := ih h'
      exact ⟨w'', hle.trans hle', h''⟩

end At

end Lexer

end SoundLang
