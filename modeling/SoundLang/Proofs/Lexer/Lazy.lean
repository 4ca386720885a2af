import SoundLang.Proofs.Lexer.Calls

/-! # Lines are read on demand

What is found on a line is of three kinds (`Scanned`), and so is every token that is served (`TokensScanned.served`).
A lexer reads line by line, each line only while nothing is queued and the reader has not ended (`reads_fill`).  So all
that is queued stands on the last line of the log, until at the end one error may be left (`Tracks`).  Every call keeps
this (`Tracks.call`), and after the end nothing changes but what is queued (`calls_of_ended`). -/

namespace SoundLang

/-- The line on which a lexical error is found; what is open or cannot be read at the end is found on none. -/
def LexError.line? : LexError → Option Nat
  | unexpectedCharacter _ span | incompleteExponent _ span | emptyRadix _ span => some span.stop.line
  | unterminatedComment .. | unterminatedString _ | unreadable _ => none

/-- The line on which an entry is found, where it ends. -/
def Entry.line? : Entry → Option Nat
  | .ok t => some t.span.stop.line
  | .error e => e.line?

namespace Lexer

/-- What can be found on a line: what a longest match stands for, a character with which none starts, and a string that
ends there. -/
inductive Scanned (line : Nat) : Entry → Prop
  | longest {cs : List Char} {m : Lexeme} (hm : Lexeme.longest? cs = some m) (byte : Nat) :
      Scanned line (entryOf m (.onLine line byte (byte + Text.size m.text)))
  | unexpected (c : Char) (first last : Nat) : Scanned line (.error (.unexpectedCharacter c (.onLine line first last)))
  | string (value : String) (start : Pos) (last : Nat) : Scanned line (.ok ⟨.string value, ⟨start, ⟨line, last⟩⟩⟩)

theorem scanned_of_mem_scan {line byte : Nat} {mode : Mode} {cs : List Char} :
    ∀ e ∈ (scan line byte mode cs).1, Scanned line e := by
  induction byte, mode, cs using scan.induct line with
  | case1 byte | case2 byte tail | case9 byte opener outer | case13 byte start value | case15 byte start value =>
      simp [scan]
  | case3 byte cs ih | case4 byte cs ih | case10 byte opener outer cs ih | case11 byte opener outer cs ih
  | case16 byte start value c cs ih =>
      rw [scan]
      exact ih
  | case5 byte c cs h1 h2 h3 hb ih =>
      rw [scan_blank ⟨h1, h2, h3⟩ line byte hb]
      exact ih
  | case6 byte c cs h1 h2 h3 hb hm =>
      rw [Bool.not_eq_true] at hb
      rw [scan_unexpected ⟨h1, h2, h3⟩ line byte hb hm]
      exact List.forall_mem_singleton.mpr (.unexpected c byte _)
  | case7 byte c cs h1 h2 h3 hb m hm stop e he =>
      rw [Bool.not_eq_true] at hb
      rw [scan_malformed ⟨h1, h2, h3⟩ line byte hb hm he, ← he]
      exact List.forall_mem_singleton.mpr (.longest hm byte)
  | case8 byte c cs h1 h2 h3 hb m hm stop t ht entries mode hs ih =>
      rw [Bool.not_eq_true] at hb
      rw [scan_token ⟨h1, h2, h3⟩ line byte hb hm ht]
      refine List.forall_mem_cons.mpr ⟨?_, ih⟩
      rw [← ht]
      exact .longest hm byte
  | case12 byte opener outer c cs h1 h2 ih =>
      rw [scan]
      · exact ih
      · exact h1
      · exact h2
  | case14 byte start value cs entries mode hs ih =>
      rw [scan]
      exact List.forall_mem_cons.mpr ⟨.string value start (byte + 1), ih⟩
  | case17 byte start value c cs h1 h2 h3 ih =>
      rw [scan]
      · exact ih
      · exact h1
      · exact h2
      · exact h3

theorem Scanned.line? {line : Nat} {e : Entry} (h : Scanned line e) : Entry.line? e = some line := by
  cases h with
  | @longest _ m =>
      obtain ⟨text, form⟩ := m
      cases form <;> rfl
  | unexpected => rfl
  | string => rfl

/-- What is open at the end leaves one error at most, which is on no line. -/
theorem ending_cases (mode : Mode) : mode.ending = [] ∨ ∃ e, mode.ending = [.error e] ∧ e.line? = none := by
  cases mode with
  | code => exact .inl rfl
  | comment opener outer => exact .inr ⟨.unterminatedComment opener outer.reverse, rfl, rfl⟩
  | string start value => exact .inr ⟨.unterminatedString start, rfl, rfl⟩

/-! ### One line after the other -/

@[simp] theorem prompt_unread (lx : Lexer) : lx.prompt.unread = lx.unread := by
  unfold prompt
  split <;> rfl

/-- Reads one answer of the reader, or its end. -/
def readLine (lx : Lexer) : Lexer :=
  match lx.unread with
  | [] => { lx.prompt with unread := [] }.finish
  | r :: rest => { lx.prompt with unread := rest }.accept r

theorem readLine_nil {lx : Lexer} (h : lx.unread = []) : lx.readLine = fillFrom [] lx := by
  rw [readLine, h, fillFrom]

theorem readLine_cons {lx : Lexer} {r : Read} {rest : Input} (h : lx.unread = r :: rest) :
    lx.readLine = { lx.prompt with unread := rest }.accept r := by
  rw [readLine, h]

theorem unread_readLine {lx : Lexer} {r : Read} {rest : Input} (h : lx.unread = r :: rest) :
    lx.readLine.unread = rest := by
  rw [readLine_cons h]
  cases r <;> rfl

/-- Lines are read one after the other, each only while nothing is queued and the reader has not ended. -/
inductive Reads : Lexer → Lexer → Prop
  | none (lx : Lexer) : Reads lx lx
  | line {lx lx' : Lexer} (hqueue : lx.queue = []) (hended : lx.ended = false) (h : Reads lx.readLine lx') :
    Reads lx lx'

theorem reads_fillFrom (unread : Input) {lx : Lexer} (hunread : lx.unread = unread) (hqueue : lx.queue = [])
    (hended : lx.ended = false) : Reads lx (fillFrom unread lx) := by
  induction unread generalizing lx with
  | nil => exact .line hqueue hended (readLine_nil hunread ▸ .none _)
  | cons r unread ih =>
      refine .line hqueue hended ?_
      rw [fillFrom, ← readLine_cons hunread]
      split
      · next hc =>
          simp only [Bool.and_eq_true, List.isEmpty_iff, Bool.not_eq_true'] at hc
          exact ih (unread_readLine hunread) hc.1 hc.2
      · exact .none _

/-- To fill the queue is to read lines. -/
theorem reads_fill (lx : Lexer) : Reads lx lx.fill := by
  unfold fill
  split
  · next hc =>
      simp only [Bool.and_eq_true, List.isEmpty_iff, Bool.not_eq_true'] at hc
      exact reads_fillFrom _ rfl hc.1 hc.2
  · exact .none lx

/-- A call reads lines, and does nothing else to the log and to the reader. -/
theorem reads_call (lx : Lexer) (c : Call) :
    ∃ mid, Reads lx mid ∧ (lx.call c).log = mid.log ∧ (lx.call c).unread = mid.unread := by
  cases c with
  | peek | next => exact ⟨lx.fill, reads_fill lx, rfl, rfl⟩
  | beginStatement | discard => exact ⟨lx, .none lx, rfl, rfl⟩

/-! ### Where tokens come from -/

/-- Each token that is queued was found on a line. -/
def TokensScanned (lx : Lexer) : Prop := ∀ t : Token, .ok t ∈ lx.queue → ∃ line, Scanned line (.ok t)

theorem tokensScanned_opened (input : Input) (prompting : Prompting) : TokensScanned (opened input prompting) := nofun

namespace TokensScanned

variable {lx lx' : Lexer}

theorem readLine (h : TokensScanned lx) : TokensScanned lx.readLine := by
  intro t ht
  rcases hunread : lx.unread with _ | ⟨text | message, rest⟩
  · simp only [Lexer.readLine, hunread, finish, prompt_queue, prompt_mode, List.mem_append] at ht
    obtain ht | ht := ht
    · exact h t ht
    · cases hfinish : lx.mode.finish? <;> simp [hfinish] at ht
  · simp only [readLine_cons hunread, accept, prompt_queue, prompt_mode, prompt_log, List.mem_append] at ht
    obtain ht | ht := ht
    · exact h t ht
    · exact ⟨_, scanned_of_mem_scan _ ht⟩
  · simp only [readLine_cons hunread, accept, prompt_queue, List.mem_append, List.mem_singleton, reduceCtorEq,
      or_false] at ht
    exact h t ht

theorem reads (hreads : Reads lx lx') : TokensScanned lx → TokensScanned lx' := by
  induction hreads with
  | none lx => exact id
  | line _ _ _ ih => exact fun h => ih h.readLine

theorem call (h : TokensScanned lx) (c : Call) : TokensScanned (lx.call c) := by
  have hfill := reads (reads_fill lx) h
  cases c with
  | peek => exact hfill
  | next => exact fun t ht => hfill t (List.mem_of_mem_tail ht)
  | beginStatement => exact h
  | discard => exact nofun

theorem calls (h : TokensScanned lx) (cs : List Call) : TokensScanned (lx.calls cs) := by
  induction cs generalizing lx with
  | nil => exact h
  | cons c cs ih => exact ih (h.call c)

/-- Each token that calls serve was found on a line. -/
theorem served {cs : List Call} (h : TokensScanned lx) {t : Token} (ht : .ok (some t) ∈ served cs lx) :
    ∃ line, Scanned line (.ok t) := by
  induction cs generalizing lx with
  | nil => cases ht
  | cons c cs ih =>
      have hcall := h.call c
      cases c with
      | next =>
          obtain heq | ht := List.mem_cons.mp ht
          · obtain ⟨es, hqueue⟩ := Entry.front_eq_some heq.symm
            exact reads (reads_fill lx) h t (by simp [hqueue])
          · exact ih hcall ht
      | peek | beginStatement | discard => exact ih hcall ht

/-- Each token that is still to come was found on a line. -/
theorem of_mem_rest (h : TokensScanned lx) {t : Token} (ht : .ok t ∈ lx.rest) : ∃ line, Scanned line (.ok t) := by
  obtain ⟨n, hn, hget⟩ := List.getElem_of_mem ht
  have hserved : .ok (some t) ∈ Lexer.served (List.replicate (n + 1) .next) lx := by
    rw [served_eq (by simp)]
    refine List.mem_map.mpr ⟨n, by simp, ?_⟩
    rw [List.drop_eq_getElem_cons hn, hget]
    rfl
  exact h.served hserved

end TokensScanned

/-! ### What is queued -/

/-- The lexer has read as many lines of the input as its log has.  What is queued stands on the last of them; when the
input has ended or failed behind them, one error that stands on no line may be left. -/
structure Tracks (input : Input) (prompting : Prompting) (lx : Lexer) : Prop where
  prompting : lx.prompting = prompting
  lines : ∀ i < lx.log.size, ∃ text, input[i]? = some (.line text) ∧ lx.log.line? i = some (Log.chomp text)
  unread : lx.ended = false → lx.unread = input.drop lx.log.size
  ended : lx.ended = true → ∀ text, input[lx.log.size]? ≠ some (.line text)
  queued : lx.ended = false → ∀ e ∈ lx.queue, ∃ line, Entry.line? e = some line ∧ lx.log.size = line + 1
  left : lx.ended = true → lx.queue = [] ∨ ∃ e, lx.queue = [.error e] ∧ e.line? = none

theorem tracks_opened (input : Input) (prompting : Prompting) : Tracks input prompting (opened input prompting) where
  prompting := rfl
  lines := fun _ hi => absurd hi (Nat.not_lt_zero _)
  unread := fun _ => rfl
  ended := nofun
  queued := fun _ _ he => absurd he List.not_mem_nil
  left := nofun

namespace Tracks

variable {input : Input} {prompting : Prompting} {lx : Lexer}

theorem prompt (h : Tracks input prompting lx) : Tracks input prompting lx.prompt := by
  unfold Lexer.prompt
  split
  · exact ⟨h.prompting, h.lines, h.unread, h.ended, h.queued, h.left⟩
  · exact h
  · exact h

/-- The first answer that is not read yet is that behind the lines of the log. -/
theorem getElem?_size {r : Read} {rest : Input} (h : Tracks input prompting lx) (hended : lx.ended = false)
    (hunread : lx.unread = r :: rest) : input[lx.log.size]? = some r ∧ rest = input.drop (lx.log.size + 1) := by
  have hdrop := h.unread hended
  rw [hunread] at hdrop
  exact ⟨by rw [← List.head?_drop, ← hdrop]; rfl, by rw [← List.tail_drop, ← hdrop]; rfl⟩

/-- At the end of the input the error for what is open is left. -/
theorem finish (h : Tracks input prompting lx) (hqueue : lx.queue = []) (hended : lx.ended = false)
    (hunread : lx.unread = []) : Tracks input prompting { lx with unread := [] }.finish where
  prompting := h.prompting
  lines := h.lines
  unread := nofun
  ended := by
    intro _ text hget
    have hdrop := h.unread hended
    rw [hunread] at hdrop
    change input[lx.log.size]? = _ at hget
    rw [← List.head?_drop, ← hdrop] at hget
    cases hget
  queued := nofun
  left := by
    intro _
    change lx.queue ++ lx.mode.ending = [] ∨ ∃ e, lx.queue ++ lx.mode.ending = [.error e] ∧ e.line? = none
    rw [hqueue, List.nil_append]
    exact ending_cases lx.mode

/-- A reader that fails leaves the failure. -/
theorem accept_failed (h : Tracks input prompting lx) (hqueue : lx.queue = []) (hended : lx.ended = false)
    {message : String} {rest : Input} (hunread : lx.unread = .failed message :: rest) :
    Tracks input prompting ({ lx with unread := rest }.accept (.failed message)) where
  prompting := h.prompting
  lines := h.lines
  unread := nofun
  ended := by
    intro _ text hline
    change input[lx.log.size]? = _ at hline
    rw [(h.getElem?_size hended hunread).1] at hline
    cases hline
  queued := nofun
  left := fun _ => .inr ⟨.unreadable message, by simp [accept, hqueue], rfl⟩

/-- What is found on a line stands on the line that is last in the log then. -/
theorem accept_line (h : Tracks input prompting lx) (hqueue : lx.queue = []) (hended : lx.ended = false)
    {text : String} {rest : Input} (hunread : lx.unread = .line text :: rest) :
    Tracks input prompting ({ lx with unread := rest }.accept (.line text)) := by
  obtain ⟨hget, hrest⟩ := h.getElem?_size hended hunread
  have hsize : ({ lx with unread := rest }.accept (.line text)).log.size = lx.log.size + 1 := by
    simp [accept, Log.size]
  refine ⟨h.prompting, fun i hi => ?_, fun _ => hsize ▸ hrest, fun ht => ?_, fun _ e he => ?_, fun ht => ?_⟩
  · rw [hsize] at hi
    obtain hlt | rfl := Nat.lt_succ_iff_lt_or_eq.mp hi
    · obtain ⟨text', hinput, hline⟩ := h.lines i hlt
      refine ⟨text', hinput, ?_⟩
      have hne : i ≠ lx.log.lines.size := Nat.ne_of_lt hlt
      rw [← hline]
      simp [accept, Log.line?, Array.getElem?_push, hne]
    · exact ⟨text, hget, by simp [accept, Log.line?, Log.size]⟩
  · exact absurd (hended.symm.trans ht) (by decide)
  · simp only [accept, hqueue, List.nil_append] at he
    exact ⟨lx.log.size, (scanned_of_mem_scan e he).line?, hsize⟩
  · exact absurd (hended.symm.trans ht) (by decide)

theorem readLine (h : Tracks input prompting lx) (hqueue : lx.queue = []) (hended : lx.ended = false) :
    Tracks input prompting lx.readLine := by
  have hqueue' : lx.prompt.queue = [] := lx.prompt_queue.trans hqueue
  have hended' : lx.prompt.ended = false := lx.prompt_ended.trans hended
  unfold Lexer.readLine
  match hunread : lx.unread with
  | [] => exact h.prompt.finish hqueue' hended' (lx.prompt_unread.trans hunread)
  | .failed message :: rest => exact h.prompt.accept_failed hqueue' hended' (lx.prompt_unread.trans hunread)
  | .line text :: rest => exact h.prompt.accept_line hqueue' hended' (lx.prompt_unread.trans hunread)

theorem reads {lx' : Lexer} (h : Tracks input prompting lx) (hreads : Reads lx lx') : Tracks input prompting lx' := by
  induction hreads with
  | none lx => exact h
  | line hqueue hended _ ih => exact ih (h.readLine hqueue hended)

/-- Every call keeps track of the input. -/
theorem call (h : Tracks input prompting lx) (c : Call) : Tracks input prompting (lx.call c) := by
  cases c with
  | peek => exact h.reads (reads_fill lx)
  | next =>
      have hf := h.reads (reads_fill lx)
      refine ⟨hf.prompting, hf.lines, hf.unread, hf.ended, fun hended e he => ?_, fun hended => .inl ?_⟩
      · exact hf.queued hended e (List.mem_of_mem_tail he)
      · obtain hq | ⟨e, hq, -⟩ := hf.left hended <;> simp [Lexer.call, next, hq]
  | beginStatement => exact ⟨h.prompting, h.lines, h.unread, h.ended, h.queued, h.left⟩
  | discard =>
      exact ⟨h.prompting, h.lines, h.unread, h.ended, fun _ _ he => absurd he List.not_mem_nil, fun _ => .inl rfl⟩

theorem calls (h : Tracks input prompting lx) (cs : List Call) : Tracks input prompting (lx.calls cs) := by
  induction cs generalizing lx with
  | nil => exact h
  | cons c cs ih => exact ih (h.call c)

/-- A token that is served ends on the last line read. -/
theorem size_of_front (h : Tracks input prompting lx) {t : Token} (ht : Entry.front lx.queue = .ok (some t)) :
    lx.log.size = t.span.stop.line + 1 := by
  obtain ⟨es, hq⟩ := Entry.front_eq_some ht
  cases hended : lx.ended with
  | false =>
      obtain ⟨line, hline, hsize⟩ := h.queued hended (.ok t) (by simp [hq])
      cases hline
      exact hsize
  | true => obtain hnil | ⟨e, he, -⟩ := h.left hended <;> simp_all

end Tracks

/-! ### After the end -/

/-- Nothing is queued, and nothing will be read. -/
def Exhausted (lx : Lexer) : Prop := lx.ended = true ∧ lx.queue = []

theorem fill_of_ended {lx : Lexer} (h : lx.ended = true) : lx.fill = lx := by
  simp [fill, h]

theorem call_of_ended {lx : Lexer} (h : lx.ended = true) (c : Call) :
    (lx.call c).ended = true ∧ (lx.call c).log = lx.log := by
  have hfill := fill_of_ended h
  cases c with
  | peek | next => simp [call, peek, next, hfill, h]
  | beginStatement | discard => exact ⟨h, rfl⟩

/-- After the end the log never grows. -/
theorem calls_of_ended {lx : Lexer} (h : lx.ended = true) (cs : List Call) :
    (lx.calls cs).ended = true ∧ (lx.calls cs).log = lx.log := by
  induction cs generalizing lx with
  | nil => exact ⟨h, rfl⟩
  | cons c cs ih =>
      obtain ⟨hended, hlog⟩ := call_of_ended h c
      obtain ⟨hended', hlog'⟩ := ih hended
      exact ⟨hended', hlog'.trans hlog⟩

namespace Exhausted

variable {lx : Lexer}

theorem call (h : lx.Exhausted) (c : Call) : (lx.call c).Exhausted := by
  refine ⟨(call_of_ended h.1 c).1, ?_⟩
  have hfill := fill_of_ended h.1
  cases c with
  | peek | next => simp [Lexer.call, peek, next, hfill, h.2]
  | beginStatement => exact h.2
  | discard => rfl

theorem calls (h : lx.Exhausted) (cs : List Call) : (lx.calls cs).Exhausted := by
  induction cs generalizing lx with
  | nil => exact h
  | cons c cs ih => exact ih (h.call c)

/-- There is nothing to look at and nothing to take. -/
theorem silent (h : lx.Exhausted) : lx.peek.1 = .ok none ∧ lx.next.1 = .ok none := by
  simp [peek, next, fill_of_ended h.1, h.2, Entry.front]

end Exhausted

/-- What is promised of a lexer that reads on demand. -/
structure OnDemand (input : Input) (lx : Lexer) : Prop where
  /-- A call reads lines, each only while nothing is queued, and does nothing else to the log and to the reader. -/
  reads : ∀ c, ∃ mid, Reads lx mid ∧ (lx.call c).log = mid.log ∧ (lx.call c).unread = mid.unread
  /-- Queued tokens end on the last line of the log. -/
  queued : ∀ t, .ok t ∈ lx.queue → lx.log.size = t.span.stop.line + 1
  /-- So does a token that is looked at. -/
  peeked : ∀ t, lx.peek.1 = .ok (some t) → lx.peek.2.log.size = t.span.stop.line + 1
  /-- So does a token that is taken. -/
  taken : ∀ t, lx.next.1 = .ok (some t) → lx.next.2.log.size = t.span.stop.line + 1
  /-- To drop what is queued leaves the log as it is. -/
  discarded : lx.discard.log = lx.log
  /-- The lines of the log are those of the input. -/
  lines : ∀ i < lx.log.size, ∃ text, input[i]? = some (.line text) ∧ lx.log.line? i = some (Log.chomp text)
  /-- The reader has ended or failed just when no line of the input is the next to read. -/
  unread : if lx.ended then ∀ text, input[lx.log.size]? ≠ some (.line text) else lx.unread = input.drop lx.log.size
  /-- After the end the log never grows, and one error at most is queued. -/
  final : lx.ended = true → ∀ cs, (lx.calls cs).log = lx.log ∧ (lx.calls cs).ended = true ∧
    ((lx.calls cs).queue = [] ∨ ∃ e, (lx.calls cs).queue = [.error e])
  /-- Once that error is taken or dropped, every further call gives nothing. -/
  silent : lx.ended = true → ∀ c, c = .next ∨ c = .discard ∨ lx.queue = [] →
    ∀ cs, ((lx.call c).calls cs).peek.1 = .ok none ∧ ((lx.call c).calls cs).next.1 = .ok none

/-- In every state that calls lead to, lines are read on demand only, and the end of the input is final. -/
theorem lines_read_on_demand (input : Input) (prompting : Prompting) (cs : List Call) :
    OnDemand input ((opened input prompting).calls cs) := by
  have h := (tracks_opened input prompting).calls cs
  have hfill := h.reads (reads_fill _)
  generalize (opened input prompting).calls cs = lx at h hfill
  refine ⟨reads_call lx, fun t ht => ?_, fun t => hfill.size_of_front, fun t => hfill.size_of_front, rfl, h.lines, ?_,
    fun hended ds => ?_, fun hended c hc ds => Exhausted.silent (.calls ?_ ds)⟩
  · cases hended : lx.ended with
    | false =>
        obtain ⟨line, hline, hsize⟩ := h.queued hended (.ok t) ht
        cases hline
        exact hsize
    | true => obtain hq | ⟨e, hq, -⟩ := h.left hended <;> simp [hq] at ht
  · cases hended : lx.ended with
    | false => exact h.unread hended
    | true => exact h.ended hended
  · obtain ⟨hstill, hlog⟩ := calls_of_ended hended ds
    exact ⟨hlog, hstill, ((h.calls ds).left hstill).imp_right fun ⟨e, he, _⟩ => ⟨e, he⟩⟩
  · obtain rfl | rfl | hq := hc
    · refine ⟨(call_of_ended hended .next).1, ?_⟩
      change lx.fill.queue.tail = []
      rw [fill_of_ended hended]
      obtain hq | ⟨e, hq, -⟩ := h.left hended <;> rw [hq] <;> rfl
    · exact ⟨hended, rfl⟩
    · exact Exhausted.call ⟨hended, hq⟩ c

end Lexer

end SoundLang
