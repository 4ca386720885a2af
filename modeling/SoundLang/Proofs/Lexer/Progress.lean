import Mathlib.Order.WellFounded
import Mathlib.Data.Prod.Lex
import SoundLang.Proofs.Lexer.Lazy
import SoundLang.Proofs.Parse.Kept

/-! # A lexer moves on

What a lexer has left are the answers of its reader, the end of the input, and what is queued, in this order
(`Lexer.left`).  To read a line lessens the first, to see the end the second, and to take or drop an entry the third
(`Lessens`).  So a lexer that is asked for tokens either stays as it is or has less left (`Onward`).

A lexical error that is met stands on the last line read, or it is left at the end (`Met`).  When nothing is queued,
those met later stand on later lines (`Beyond`). -/

namespace SoundLang

namespace Lexer

/-- What is left: answers of the reader that are not read, the end of the input while it has not been seen, and entries
that are queued. -/
def left (lx : Lexer) : ℕ ×ₗ ℕ ×ₗ ℕ :=
  toLex (lx.unread.length, toLex (if lx.ended then 0 else 1, lx.queue.length))

/-- The second lexer has less left, and fewer entries can be taken from it. -/
structure Lessens (lx lx' : Lexer) : Prop where
  left : lx'.left < lx.left
  pending : lx'.pending < lx.pending

/-- Nothing has happened, or less is left. -/
def Onward (lx lx' : Lexer) : Prop := lx' = lx ∨ Lessens lx lx'

variable {lx lx' lx'' : Lexer}

theorem Lessens.trans (h : Lessens lx lx') (h' : Lessens lx' lx'') : Lessens lx lx'' :=
  ⟨h'.left.trans h.left, h'.pending.trans h.pending⟩

theorem Onward.trans (h : Onward lx lx') (h' : Onward lx' lx'') : Onward lx lx'' := by
  obtain rfl | h := h
  · exact h'
  · obtain rfl | h' := h'
    · exact .inr h
    · exact .inr (h.trans h')

theorem left_lt_of_unread (h : lx'.unread.length < lx.unread.length) : lx'.left < lx.left :=
  Prod.Lex.toLex_lt_toLex.mpr (.inl h)

theorem left_lt_of_ended (hunread : lx'.unread = lx.unread) (hended : lx.ended = false) (hended' : lx'.ended = true) :
    lx'.left < lx.left := by
  refine Prod.Lex.toLex_lt_toLex.mpr (.inr ⟨congrArg List.length hunread, Prod.Lex.toLex_lt_toLex.mpr (.inl ?_)⟩)
  simp [hended, hended']

theorem left_lt_of_queue (hunread : lx'.unread = lx.unread) (hended : lx'.ended = lx.ended)
    (hqueue : lx'.queue.length < lx.queue.length) : lx'.left < lx.left := by
  refine Prod.Lex.toLex_lt_toLex.mpr (.inr ⟨congrArg List.length hunread, Prod.Lex.toLex_lt_toLex.mpr (.inr ?_)⟩)
  exact ⟨by simp [hended], hqueue⟩

/-- To read a line, or the end, leaves less. -/
theorem lessens_readLine (hqueue : lx.queue = []) (hended : lx.ended = false) : Lessens lx lx.readLine := by
  have hpending : lx.pending = 2 + promised lx.unread := by simp [pending, hqueue, hended]
  unfold readLine
  rcases hunread : lx.unread with _ | ⟨text | message, rest⟩
  · have hle := length_ending_le lx.prompt.mode
    have hlength : { lx.prompt with unread := [] }.finish.pending = lx.prompt.mode.ending.length := by
      simp [pending, finish, hqueue, promised, Mode.ending]
    refine ⟨left_lt_of_ended hunread.symm hended rfl, ?_⟩
    rw [hlength, hpending]
    omega
  · have hscan := length_scan_le lx.log.size 0 lx.mode (Log.chomp text).toList
    have hchomp := length_chomp_le text
    have hlength : ({ lx.prompt with unread := rest }.accept (.line text)).pending =
        (scan lx.log.size 0 lx.mode (Log.chomp text).toList).1.length + 2 + promised rest := by
      simp [pending, accept, hqueue, hended]
    refine ⟨left_lt_of_unread (by simp [accept, hunread]), ?_⟩
    rw [hlength, hpending, hunread, promised]
    omega
  · have hlength : ({ lx.prompt with unread := rest }.accept (.failed message)).pending = 1 + promised rest := by
      simp [pending, accept, hqueue]
    refine ⟨left_lt_of_unread (by simp [accept, hunread]), ?_⟩
    rw [hlength, hpending, hunread, promised]
    omega

theorem onward_of_reads (h : Reads lx lx') : Onward lx lx' := by
  induction h with
  | none lx => exact .inl rfl
  | line hqueue hended _ ih => exact .trans (.inr (lessens_readLine hqueue hended)) ih

theorem onward_fill (lx : Lexer) : Onward lx lx.fill := onward_of_reads (reads_fill lx)

/-- To take or drop entries leaves less. -/
theorem lessens_of_queue {queue : List Entry} {mode : Mode} (h : queue.length < lx.queue.length) :
    Lessens lx { lx with queue, mode } :=
  ⟨left_lt_of_queue rfl rfl h, Nat.add_lt_add_right (Nat.add_lt_add_right h _) _⟩

theorem onward_next (lx : Lexer) : Onward lx lx.next.2 := by
  refine lx.onward_fill.trans ?_
  change Onward lx.fill { lx.fill with queue := lx.fill.queue.tail }
  cases hq : lx.fill.queue with
  | nil => exact .inl (congrArg (fun queue => { lx.fill with queue }) hq.symm)
  | cons e es => exact .inr (lessens_of_queue (by simp [hq]))

/-- To drop what is queued leaves less, if there is something. -/
theorem lessens_discard (hqueue : lx.queue ≠ []) : Lessens lx lx.discard :=
  lessens_of_queue (List.length_pos_iff.mpr hqueue)

theorem Lessens.discard (h : Lessens lx lx') : Lessens lx lx'.discard := by
  by_cases hqueue : lx'.queue = []
  · have hdiscard : lx'.discard = { lx' with mode := .code } :=
      congrArg (fun queue => { lx' with queue, mode := .code }) hqueue.symm
    rw [hdiscard]
    exact ⟨h.left, h.pending⟩
  · exact h.trans (lessens_discard hqueue)

/-! ### Errors that are met -/

/-- The error stands on the last line read, or it is left at the end. -/
inductive Met (e : LexError) (lx : Lexer) : Prop
  | onLine (line : Nat) (hended : lx.ended = false) (hline : e.line? = some line) (hsize : lx.log.size = line + 1)
  | atEnd (hended : lx.ended = true) (hline : e.line? = none)

/-- Whether an error is met depends on the log and on the end of the input alone. -/
theorem Met.congr {e : LexError} (h : Met e lx) (hended : lx'.ended = lx.ended) (hlog : lx'.log = lx.log) :
    Met e lx' := by
  cases h with
  | onLine line h hline hsize => exact .onLine line (hended.trans h) hline (hlog ▸ hsize)
  | atEnd h hline => exact .atEnd (hended.trans h) hline

theorem Tracks.met {input : Input} {prompting : Prompting} (h : Tracks input prompting lx) {e : LexError}
    (he : Entry.front lx.queue = .error e) : Met e lx := by
  obtain ⟨es, hqueue⟩ := Entry.front_eq_error he
  cases hended : lx.ended with
  | false =>
      obtain ⟨line, hline, hsize⟩ := h.queued hended (.error e) (by simp [hqueue])
      exact .onLine line hended hline hsize
  | true =>
      obtain hnil | ⟨e', he', hline⟩ := h.left hended
      · simp [hqueue] at hnil
      · obtain ⟨rfl, -⟩ : e = e' ∧ es = [] := by simpa [hqueue] using he'
        exact .atEnd hended hline

/-- What is queued stands behind the first `n` lines. -/
structure Beyond (n : Nat) (lx : Lexer) : Prop where
  lines : n ≤ lx.log.size
  queued : lx.ended = false → lx.queue ≠ [] → n < lx.log.size

theorem Tracks.beyond_zero {input : Input} {prompting : Prompting} (h : Tracks input prompting lx) : Beyond 0 lx := by
  refine ⟨Nat.zero_le _, fun hended hqueue => ?_⟩
  obtain ⟨e, es, hq⟩ := List.exists_cons_of_ne_nil hqueue
  obtain ⟨line, -, hsize⟩ := h.queued hended e (by simp [hq])
  omega

theorem Beyond.readLine {n : Nat} (h : Beyond n lx) : Beyond n lx.readLine := by
  unfold Lexer.readLine
  rcases lx.unread with _ | ⟨text | message, rest⟩
  · exact ⟨by simpa [Lexer.finish] using h.lines, by simp [Lexer.finish]⟩
  · have hsize : ({ lx.prompt with unread := rest }.accept (.line text)).log.size = lx.log.size + 1 := by
      simp [Lexer.accept, Log.size]
    exact ⟨hsize ▸ Nat.le_succ_of_le h.lines, fun _ _ => hsize ▸ Nat.lt_succ_of_le h.lines⟩
  · exact ⟨by simpa [Lexer.accept] using h.lines, by simp [Lexer.accept]⟩

theorem Beyond.reads {n : Nat} (h : Beyond n lx) (hreads : Reads lx lx') : Beyond n lx' := by
  induction hreads with
  | none lx => exact h
  | line _ _ _ ih => exact ih h.readLine

/-- While tokens are read, the errors that are met stand behind the first `n` lines or are left at the end. -/
theorem keeps_beyond (input : Input) (prompting : Prompting) (n : Nat) :
    TokenSource.Keeps (fun lx => Tracks input prompting lx ∧ Beyond n lx)
      fun e lx => Met e lx ∧ (lx.ended = false → n < lx.log.size) := by
  have hfront : ∀ lx, Tracks input prompting lx ∧ Beyond n lx → ∀ e, Entry.front lx.fill.queue = .error e →
      Met e lx.fill ∧ (lx.fill.ended = false → n < lx.fill.log.size) := by
    intro lx h e he
    obtain ⟨es, hqueue⟩ := Entry.front_eq_error he
    exact ⟨(h.1.reads (reads_fill lx)).met he,
      fun hended => (h.2.reads (reads_fill lx)).queued hended (by simp [hqueue])⟩
  constructor
  · intro lx h
    exact ⟨⟨h.1.call .peek, h.2.reads (reads_fill lx)⟩, hfront lx h⟩
  · intro lx h
    have hfill := h.2.reads (reads_fill lx)
    refine ⟨⟨h.1.call .next, hfill.lines, fun hended hne => hfill.queued hended fun hnil => hne ?_⟩, fun e he => ?_⟩
    · exact congrArg List.tail hnil
    · obtain ⟨hmet, hlt⟩ := hfront lx h e he
      exact ⟨hmet.congr rfl rfl, hlt⟩

theorem keeps_onward (lx₀ : Lexer) : TokenSource.Keeps (Onward lx₀) fun _ _ => True where
  peek lx h := ⟨h.trans lx.onward_fill, fun _ _ => trivial⟩
  next lx h := ⟨h.trans lx.onward_next, fun _ _ => trivial⟩

/-- Behind the end no error is met. -/
theorem keeps_exhausted : TokenSource.Keeps Exhausted fun _ _ => False where
  peek _ h := ⟨h.call .peek, fun _ he => nomatch h.silent.1.symm.trans he⟩
  next _ h := ⟨h.call .next, fun _ he => nomatch h.silent.2.symm.trans he⟩

end Lexer

end SoundLang
