import SoundLang.Lexer
import SoundLang.Proofs.Lexer.Layout
import SoundLang.Proofs.TokenSource

/-! # What the lexer serves

A lexer has a fixed list of entries still to give, `Lexer.rest`: what is queued, and what will be found on the
lines it has not read.  To look at the next token is to look at the first entry of this list, and to take it is to take
that entry (`lawful`), so the lexer serves its entries in order and then nothing (`next_after`).  All of them are
among those it counts as pending (`length_rest_le_pending`).

What it has served and queued is what is found on the lines of its log (`Reached`). -/

namespace SoundLang

namespace Lexer

/-! ### The entries still to come -/

/-- What will be found on the answers of a reader, from a mode on. -/
def upcoming (line : Nat) (mode : Mode) : Input → List Entry
  | [] => mode.ending
  | .failed message :: _ => [.error (.unreadable message)]
  | .line text :: rest =>
    let found := scan line 0 mode (Log.chomp text).toList
    found.1 ++ upcoming (line + 1) found.2 rest

/-- All that a lexer has still to give. -/
def rest (lx : Lexer) : List Entry :=
  lx.queue ++ if lx.ended then [] else upcoming lx.log.size lx.mode lx.unread

/-- There is something to serve, or nothing more to read. -/
def Filled (lx : Lexer) : Prop := lx.queue = [] → lx.ended = true

theorem rest_of_filled_nil {lx : Lexer} (h : lx.Filled) (hq : lx.queue = []) : lx.rest = [] := by
  simp [rest, hq, h hq]

section prompt
variable (lx : Lexer)

@[simp] theorem prompt_queue : lx.prompt.queue = lx.queue := by
  unfold prompt
  split <;> rfl

@[simp] theorem prompt_log : lx.prompt.log = lx.log := by
  unfold prompt
  split <;> rfl

@[simp] theorem prompt_mode : lx.prompt.mode = lx.mode := by
  unfold prompt
  split <;> rfl

@[simp] theorem prompt_ended : lx.prompt.ended = lx.ended := by
  unfold prompt
  split <;> rfl

end prompt

theorem rest_accept_line (lx : Lexer) (text : String) (unread : Input) (h : lx.ended = false) :
    ({ lx.prompt with unread }.accept (.line text)).rest =
      lx.queue ++ upcoming lx.log.size lx.mode (.line text :: unread) := by
  simp [rest, accept, h, upcoming, Log.size]

theorem filled_of_not {lx : Lexer} (h : ¬ (lx.queue.isEmpty && !lx.ended) = true) : lx.Filled := by
  intro hq
  simpa [hq] using h

theorem fillFrom_filled (unread : Input) (lx : Lexer) : (fillFrom unread lx).Filled := by
  induction unread generalizing lx with
  | nil => exact fun _ => rfl
  | cons r unread ih =>
      rw [fillFrom]
      split
      · exact ih _
      · next h => exact filled_of_not h

theorem fill_filled (lx : Lexer) : lx.fill.Filled := by
  unfold fill
  split
  · exact fillFrom_filled _ _
  · next h => exact filled_of_not h

/-- Reading on does not change what is still to come. -/
theorem rest_fillFrom (unread : Input) (lx : Lexer) (hq : lx.queue = []) (h : lx.ended = false) :
    (fillFrom unread lx).rest = upcoming lx.log.size lx.mode unread := by
  induction unread generalizing lx with
  | nil => simp [fillFrom, finish, rest, hq, upcoming, Mode.ending]
  | cons r unread ih =>
      rw [fillFrom]
      cases r with
      | failed message => simp [accept, rest, hq, upcoming]
      | line text =>
          have hrest := rest_accept_line lx text unread h
          rw [hq, List.nil_append] at hrest
          split
          · next hc =>
              simp only [Bool.and_eq_true, List.isEmpty_iff, Bool.not_eq_true'] at hc
              rw [ih _ hc.1 hc.2, ← hrest, rest, hc.1, hc.2]
              rfl
          · exact hrest

theorem rest_fill (lx : Lexer) : lx.fill.rest = lx.rest := by
  unfold fill
  split
  · next h =>
      simp only [Bool.and_eq_true, List.isEmpty_iff, Bool.not_eq_true'] at h
      rw [rest_fillFrom _ _ h.1 h.2, rest, h.1, h.2]
      rfl
  · rfl

theorem front_fill (lx : Lexer) : Entry.front lx.fill.queue = Entry.front lx.rest := by
  rw [← rest_fill]
  cases hq : lx.fill.queue with
  | nil => rw [rest_of_filled_nil lx.fill_filled hq]
  | cons e es => cases e <;> simp [rest, hq, Entry.front]

/-- A lexer serves the entries that it has still to give. -/
theorem lawful : TokenSource.Lawful rest where
  peek_fst := front_fill
  peek_snd := rest_fill
  next_fst := front_fill
  next_snd := by
    intro lx
    rw [← lx.rest_fill]
    cases hq : lx.fill.queue with
    | nil =>
        rw [rest_of_filled_nil lx.fill_filled hq]
        simp [TokenSource.next, next, rest, hq, lx.fill_filled hq]
    | cons e es => simp [TokenSource.next, next, rest, hq]

/-! ### How much is to come -/

/-- Each entry found on a line takes a character. -/
theorem length_scan_le (line byte : Nat) (mode : Mode) (cs : List Char) :
    (scan line byte mode cs).1.length ≤ cs.length := by
  induction byte, mode, cs using scan.induct line with
  | case1 byte => simp [scan]
  | case2 byte tail => simp [scan]
  | case3 byte cs ih | case4 byte cs ih =>
      rw [scan]
      simp only [List.length_cons]
      omega
  | case5 byte c cs h1 h2 h3 hb ih =>
      rw [scan_blank ⟨h1, h2, h3⟩ line byte hb]
      simp only [List.length_cons]
      omega
  | case6 byte c cs h1 h2 h3 hb hm =>
      rw [Bool.not_eq_true] at hb
      rw [scan_unexpected ⟨h1, h2, h3⟩ line byte hb hm]
      simp
  | case7 byte c cs h1 h2 h3 hb m hm stop e he =>
      rw [Bool.not_eq_true] at hb
      rw [scan_malformed ⟨h1, h2, h3⟩ line byte hb hm he]
      simp
  | case8 byte c cs h1 h2 h3 hb m hm stop t ht entries mode hs ih =>
      rw [Bool.not_eq_true] at hb
      have hpos := List.length_pos_iff.mpr (Lexeme.append_of_longest? hm).1
      have hle := (Lexeme.append_of_longest? hm).2.length_le
      have ih : (scan line (byte + Text.size m.text) .code (cs.drop (m.text.length - 1))).1.length ≤
          (cs.drop (m.text.length - 1)).length := ih
      rw [scan_token ⟨h1, h2, h3⟩ line byte hb hm ht]
      simp only [List.length_cons, List.length_drop] at ih hle ⊢
      omega
  | case9 byte opener outer => simp [scan]
  | case10 byte opener outer cs ih | case11 byte opener outer cs ih =>
      rw [scan]
      simp only [List.length_cons]
      omega
  | case12 byte opener outer c cs h1 h2 ih =>
      rw [scan]
      · simp only [List.length_cons]
        omega
      · exact h1
      · exact h2
  | case13 byte start value => simp [scan]
  | case14 byte start value cs entries mode hs ih =>
      rw [scan]
      simp only [List.length_cons]
      omega
  | case15 byte start value => simp [scan]
  | case16 byte start value c cs ih =>
      rw [scan]
      simp only [List.length_cons]
      omega
  | case17 byte start value c cs h1 h2 h3 ih =>
      rw [scan]
      · simp only [List.length_cons]
        omega
      · exact h1
      · exact h2
      · exact h3

theorem length_dropLast_le (c : Char) (cs : List Char) : (Log.dropLast c cs).length ≤ cs.length := by
  unfold Log.dropLast
  split
  · simp
  · exact Nat.le_refl _

theorem length_chomp_le (text : String) : (Log.chomp text).toList.length ≤ text.utf8ByteSize := by
  unfold Log.chomp
  rw [String.toList_ofList]
  have h1 := length_dropLast_le '\r' (Log.dropLast '\n' text.toList)
  have h2 := length_dropLast_le '\n' text.toList
  have h3 := Text.length_le_size text.toList
  rw [Text.size_toList] at h3
  omega

theorem length_ending_le (mode : Mode) : mode.ending.length ≤ 1 := by
  cases mode <;> simp [Mode.ending, Mode.finish?]

theorem length_upcoming_le (line : Nat) (mode : Mode) (unread : Input) :
    (upcoming line mode unread).length ≤ 1 + promised unread := by
  induction unread generalizing line mode with
  | nil =>
      have := length_ending_le mode
      rw [upcoming, promised]
      omega
  | cons r unread ih =>
      cases r with
      | failed message => simp [upcoming, promised]
      | line text =>
          have h1 := length_scan_le line 0 mode (Log.chomp text).toList
          have h2 := length_chomp_le text
          have h3 := ih (line + 1) (scan line 0 mode (Log.chomp text).toList).2
          simp only [upcoming, List.length_append, promised]
          omega

/-- All that is to come is counted, and while the reader has not ended one more. -/
theorem length_rest_le_pending (lx : Lexer) : lx.rest.length + (if lx.ended then 0 else 1) ≤ lx.pending := by
  rw [pending, rest]
  cases lx.ended with
  | true => simp
  | false =>
      have := length_upcoming_le lx.log.size lx.mode lx.unread
      simp only [Bool.false_eq_true, if_false, List.length_append]
      omega

/-! ### Taking one token after the other -/

theorem take_eq_rest (limit : Nat) (lx : Lexer) (h : lx.rest.length ≤ limit) :
    TokenSource.take limit lx = lx.rest := by
  induction limit generalizing lx with
  | zero => exact (List.eq_nil_of_length_eq_zero (Nat.le_zero.mp h)).symm
  | succ limit ih =>
      have hfst := lawful.next_fst lx
      have hsnd := lawful.next_snd lx
      rw [TokenSource.take, show TokenSource.next lx = (lx.next.1, lx.next.2) from rfl,
        show lx.next.1 = Entry.front lx.rest from hfst]
      cases hr : lx.rest with
      | nil => rfl
      | cons e es =>
          rw [hr, List.tail_cons] at hsnd
          rw [hr, List.length_cons] at h
          have htake := ih (TokenSource.next lx).2 (by rw [hsnd]; omega)
          rw [hsnd] at htake
          cases e with
          | ok t => exact congrArg (Except.ok t :: ·) htake
          | error e => exact congrArg (Except.error e :: ·) htake

/-- The entries of a lexer are those it has to give. -/
theorem entries_eq_rest (lx : Lexer) : TokenSource.entries lx = lx.rest := by
  have := lx.length_rest_le_pending
  exact take_eq_rest _ lx (show lx.rest.length ≤ lx.pending by omega)

/-- The lexer after `n` calls of `next`. -/
def after : Nat → Lexer → Lexer
  | 0, lx => lx
  | n + 1, lx => lx.next.2.after n

theorem after_succ (n : Nat) (lx : Lexer) : lx.after (n + 1) = (lx.after n).next.2 := by
  induction n generalizing lx with
  | zero => rfl
  | succ n ih => exact ih lx.next.2

theorem rest_after (n : Nat) (lx : Lexer) : (lx.after n).rest = lx.rest.drop n := by
  induction n with
  | zero => rfl
  | succ n ih =>
      rw [after_succ]
      exact (lawful.next_snd (lx.after n)).trans (by rw [ih, List.tail_drop])

/-- The calls of `next` give the entries in order, and then nothing. -/
theorem next_after (n : Nat) (lx : Lexer) : (lx.after n).next.1 = Entry.front (lx.rest.drop n) := by
  rw [← rest_after]
  exact lawful.next_fst (lx.after n)

/-! ### What is served is what is found on the lines of the log -/

/-- The lines of the log, as lists of characters. -/
def lines (lx : Lexer) : List (List Char) := lx.log.lines.toList.map String.toList

/-- After the entries `taken` the lexer has served or queued what is found on the lines of its log, and at its end
also what they leave open.  The lines that are still to come hold no line feeds either. -/
structure Reached (taken : List Entry) (lx : Lexer) : Prop where
  free : ∀ l ∈ lx.log.lines.toList, '\n' ∉ l.toList
  unread : ∀ r ∈ lx.unread, ∃ text, r = .line text ∧ '\n' ∉ (Log.chomp text).toList
  found : taken ++ lx.queue = if lx.ended then feedAll 0 .code lx.lines else (feed 0 .code lx.lines).1
  mode : lx.ended = false → lx.mode = (feed 0 .code lx.lines).2

theorem feed_append (line : Nat) (mode : Mode) (ls : List (List Char)) (cs : List Char) :
    feed line mode (ls ++ [cs]) =
      ((feed line mode ls).1 ++ (scan (line + ls.length) 0 (feed line mode ls).2 cs).1,
        (scan (line + ls.length) 0 (feed line mode ls).2 cs).2) := by
  induction ls generalizing line mode with
  | nil => simp [feed]
  | cons ds ls ih =>
      simp only [List.cons_append, feed, ih, List.length_cons, List.append_assoc]
      rw [show line + 1 + ls.length = line + (ls.length + 1) by omega]

namespace Reached

variable {taken : List Entry} {lx : Lexer}

theorem prompt (h : Reached taken lx) : Reached taken lx.prompt := by
  unfold Lexer.prompt
  split
  · exact ⟨h.free, h.unread, h.found, h.mode⟩
  · exact h
  · exact h

theorem finish (h : Reached taken lx) (hended : lx.ended = false) :
    Reached taken ({ lx with unread := [] } : Lexer).finish := by
  have hfound := h.found
  rw [hended, if_neg Bool.false_ne_true] at hfound
  refine ⟨h.free, by simp [Lexer.finish], ?_, by simp [Lexer.finish]⟩
  simp only [Lexer.finish, lines, if_true, feedAll]
  rw [← List.append_assoc, hfound, h.mode hended]
  rfl

/-- A line that is read is scanned in the mode that the lines before it leave. -/
theorem accept (h : Reached taken lx) (hended : lx.ended = false) {text : String} {unread : Input}
    (htext : '\n' ∉ (Log.chomp text).toList)
    (hunread : ∀ r ∈ unread, ∃ text, r = .line text ∧ '\n' ∉ (Log.chomp text).toList) :
    Reached taken (({ lx with unread } : Lexer).accept (.line text)) := by
  have hlines : (({ lx with unread } : Lexer).accept (.line text)).lines =
      lx.lines ++ [(Log.chomp text).toList] := by
    simp [Lexer.accept, lines]
  have hsize : lx.log.size = lx.lines.length := by simp [Log.size, lines]
  have hfound := h.found
  rw [hended, if_neg Bool.false_ne_true] at hfound
  refine ⟨?_, hunread, ?_, fun _ => ?_⟩
  · intro l hl
    simp only [Lexer.accept, Array.toList_push, List.mem_append, List.mem_singleton] at hl
    obtain hl | rfl := hl
    · exact h.free l hl
    · exact htext
  · rw [hlines, feed_append]
    simp only [Lexer.accept, hended, if_neg Bool.false_ne_true, Nat.zero_add]
    rw [← List.append_assoc, hfound, h.mode hended, hsize]
  · rw [hlines, feed_append]
    simp only [Lexer.accept, Nat.zero_add]
    rw [h.mode hended, hsize]

theorem fillFrom {unread : Input} (h : Reached taken lx) (hended : lx.ended = false)
    (hunread : ∀ r ∈ unread, ∃ text, r = .line text ∧ '\n' ∉ (Log.chomp text).toList) :
    Reached taken (Lexer.fillFrom unread lx) := by
  induction unread generalizing lx with
  | nil =>
      rw [Lexer.fillFrom]
      exact h.prompt.finish (by simpa using hended)
  | cons r unread ih =>
      obtain ⟨⟨text, rfl, htext⟩, htail⟩ := List.forall_mem_cons.mp hunread
      rw [Lexer.fillFrom]
      have haccept := h.prompt.accept (by simpa using hended) htext htail
      split
      · next hc =>
          simp only [Bool.and_eq_true, List.isEmpty_iff, Bool.not_eq_true'] at hc
          exact ih haccept hc.2 htail
      · exact haccept

theorem fill (h : Reached taken lx) : Reached taken lx.fill := by
  unfold Lexer.fill
  split
  · next hc =>
      simp only [Bool.and_eq_true, List.isEmpty_iff, Bool.not_eq_true'] at hc
      exact h.fillFrom hc.2 h.unread
  · exact h

/-- What is taken is the first entry to come. -/
theorem next (h : Reached taken lx) : Reached (taken ++ lx.rest.take 1) lx.next.2 := by
  have hfill := h.fill
  have htake : lx.rest.take 1 = lx.fill.queue.take 1 := by
    rw [← lx.rest_fill]
    cases hq : lx.fill.queue with
    | nil => rw [rest_of_filled_nil lx.fill_filled hq]
    | cons e es => simp [rest, hq]
  refine ⟨hfill.free, hfill.unread, ?_, hfill.mode⟩
  have hqueue : lx.fill.queue.take 1 ++ lx.fill.queue.tail = lx.fill.queue := by
    cases lx.fill.queue <;> rfl
  rw [htake, List.append_assoc]
  exact (congrArg (taken ++ ·) hqueue).trans hfill.found

/-- What is reached by taking `n` entries one after the other. -/
theorem after (h : Reached [] lx) (n : Nat) : Reached (lx.rest.take n) (lx.after n) := by
  induction n with
  | zero => exact h
  | succ n ih =>
      have := ih.next
      rw [rest_after, ← List.take_add] at this
      rwa [after_succ]

/-- All that has been served stands in the layout of the log. -/
theorem layout (h : Reached taken lx) :
    ∃ es, taken <+: es ∧ Layout ⟨0, 0⟩ lx.log.text es ∧ (lx.ended = true → lx.queue = [] → taken = es) := by
  have hlex : feedAll 0 .code lx.lines = lex ⟨0, 0⟩ .code lx.log.text :=
    feedAll_eq_lex (by simpa [lines] using h.free) 0 .code
  refine ⟨feedAll 0 .code lx.lines, ?_, hlex ▸ layout_lex _ _, fun hended hq => ?_⟩
  · have hfound := h.found
    split at hfound
    · rw [← hfound]
      exact List.prefix_append _ _
    · rw [feedAll, ← hfound, List.append_assoc]
      exact List.prefix_append _ _
  · have hfound := h.found
    rwa [hended, if_pos rfl, hq, List.append_nil] at hfound

end Reached

end Lexer

end SoundLang
