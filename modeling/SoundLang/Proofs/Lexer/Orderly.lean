import SoundLang.Proofs.Lexer.Sited
import SoundLang.Proofs.Parse.SpanTree

/-! # Tokens stand in reading order

No token is empty (`Lexer.solid_of_mem_scan`), and the tokens that a lexer has found and not yet served follow each
other (`Lexer.At`).  Both hold after all calls (`Lexer.Orderly.calls`).  A lexer that has read all its lines has queued
what was still to come (`Lexer.Orderly.drained`), so the tokens still to come stand in reading order too, wherever the
reading stands and whatever was dropped (`Lexer.Orderly.ordered`). -/

namespace SoundLang

theorem Pos.le_antisymm {p q : Pos} (hpq : p ≤ q) (hqp : q ≤ p) : p = q := by
  obtain ⟨line, byte⟩ := p
  obtain ⟨line', byte'⟩ := q
  simp only [le_iff] at hpq hqp
  have hline : line = line' := by omega
  have hbyte : byte = byte' := by omega
  rw [hline, hbyte]

/-- Something stands between the start and the end. -/
structure Span.Solid (s : Span) : Prop where
  le : s.start ≤ s.stop
  ne : s.start ≠ s.stop

/-- A token is not empty. -/
def Entry.Solid : Entry → Prop
  | .ok t => t.span.Solid
  | .error _ => True

/-- A string that is open was opened before. -/
def Mode.Begun (p : Pos) : Mode → Prop
  | string start _ => start ≤ p
  | code | comment .. => True

theorem Mode.Sited.begun {log : Log} {q p : Pos} {mode : Mode} (h : mode.Sited log q p) : mode.Begun p := by
  cases mode with
  | string start value => exact h.2.1
  | code | comment => trivial

namespace Lexer

/-! ### Tokens are not empty -/

theorem solid_of_lt {start : Pos} {line byte stop : Nat} (hstart : start ≤ ⟨line, byte⟩) (h : byte < stop) :
    Span.Solid ⟨start, ⟨line, stop⟩⟩ := by
  simp only [Pos.le_iff] at hstart
  constructor
  · simp only [Pos.le_iff]
    omega
  · rintro (heq : start = ⟨line, stop⟩)
    subst heq
    simp only at hstart
    omega

theorem solid_of_entryOf {cs : List Char} {m : Lexeme} {line byte : Nat} {t : Token}
    (hm : Lexeme.longest? cs = some m) (ht : entryOf m (.onLine line byte (byte + Text.size m.text)) = .ok t) :
    t.span.Solid := by
  obtain ⟨kind, rfl, -⟩ := spells_of_entryOf hm ht
  have hlength := Text.length_le_size m.text
  have hpos := List.length_pos_iff.mpr (Lexeme.append_of_longest? hm).1
  exact solid_of_lt (Pos.le_refl ⟨line, byte⟩) (by omega)

/-- No token that is found on a line is empty. -/
theorem solid_of_mem_scan {line byte : Nat} {mode : Mode} {cs : List Char} :
    mode.Begun ⟨line, byte⟩ → ∀ e ∈ (scan line byte mode cs).1, Entry.Solid e := by
  induction byte, mode, cs using scan.induct line with
  | case1 byte | case2 byte tail | case9 byte opener outer | case13 byte start value | case15 byte start value =>
      simp [scan]
  | case3 byte cs ih | case10 byte opener outer cs ih =>
      intro h
      rw [scan]
      exact ih trivial
  | case4 byte cs ih =>
      intro h
      rw [scan]
      exact ih (le_skip (Pos.le_refl _) 1)
  | case5 byte c cs h1 h2 h3 hb ih =>
      intro h
      rw [scan_blank ⟨h1, h2, h3⟩ line byte hb]
      exact ih trivial
  | case6 byte c cs h1 h2 h3 hb hm =>
      intro h
      rw [Bool.not_eq_true] at hb
      rw [scan_unexpected ⟨h1, h2, h3⟩ line byte hb hm]
      exact List.forall_mem_singleton.mpr trivial
  | case7 byte c cs h1 h2 h3 hb m hm stop e he =>
      intro h
      rw [Bool.not_eq_true] at hb
      rw [scan_malformed ⟨h1, h2, h3⟩ line byte hb hm he]
      exact List.forall_mem_singleton.mpr trivial
  | case8 byte c cs h1 h2 h3 hb m hm stop t ht entries mode hs ih =>
      intro h
      rw [Bool.not_eq_true] at hb
      rw [scan_token ⟨h1, h2, h3⟩ line byte hb hm ht]
      exact List.forall_mem_cons.mpr ⟨solid_of_entryOf hm ht, ih trivial⟩
  | case11 byte opener outer cs ih =>
      intro h
      have houter : (Mode.afterComment outer).Begun ⟨line, byte + 2⟩ := by
        cases outer <;> trivial
      rw [scan]
      exact ih houter
  | case12 byte opener outer c cs h1 h2 ih =>
      intro h
      rw [scan]
      · exact ih trivial
      · exact h1
      · exact h2
  | case14 byte start value cs entries mode hs ih =>
      intro h
      -- the string may have been opened on an earlier line, so its start has to be carried along
      rw [scan]
      exact List.forall_mem_cons.mpr ⟨solid_of_lt h (Nat.lt_succ_self byte), ih trivial⟩
  | case16 byte start value c cs ih =>
      intro h
      rw [scan]
      exact ih (Pos.le_trans h (.inr ⟨rfl, by simp only; omega⟩))
  | case17 byte start value c cs h1 h2 h3 ih =>
      intro h
      rw [scan]
      · exact ih (le_skip h _)
      · exact h1
      · exact h2
      · exact h3

/-! ### Calls -/

/-- What is found and not yet served stands in the log in its order, and no token of it is empty. -/
structure Orderly (lx : Lexer) : Prop where
  sited : ∃ w, At w lx
  solid : ∀ e ∈ lx.queue, Entry.Solid e

theorem orderly_opened (input : Input) (prompting : Prompting) : Orderly (opened input prompting) :=
  ⟨⟨_, at_opened input prompting⟩, nofun⟩

namespace Orderly

variable {lx lx' : Lexer}

theorem readLine (h : Orderly lx) : Orderly lx.readLine := by
  obtain ⟨w, hat⟩ := h.sited
  obtain ⟨w', -, -, hat'⟩ := hat.readLine
  refine ⟨⟨w', hat'⟩, ?_⟩
  rcases hunread : lx.unread with _ | ⟨text | message, rest⟩
  · simp only [Lexer.readLine, hunread, finish, prompt_queue, prompt_mode]
    refine List.forall_mem_append.mpr ⟨h.solid, ?_⟩
    intro e he
    cases hfinish : lx.mode.finish? with
    | none =>
        rw [hfinish] at he
        cases he
    | some error =>
        rw [hfinish] at he
        obtain rfl := List.mem_singleton.mp he
        trivial
  · obtain ⟨q, -, -, hmode⟩ := hat.follow
    rw [readLine_cons hunread]
    simp only [accept, prompt_queue, prompt_mode, prompt_log]
    refine List.forall_mem_append.mpr ⟨h.solid, solid_of_mem_scan ?_⟩
    exact hat.log ▸ hmode.begun
  · rw [readLine_cons hunread]
    simp only [accept, prompt_queue]
    exact List.forall_mem_append.mpr ⟨h.solid, List.forall_mem_singleton.mpr trivial⟩

theorem reads (hreads : Reads lx lx') : Orderly lx → Orderly lx' := by
  induction hreads with
  | none lx => exact id
  | line _ _ _ ih => exact fun h => ih h.readLine

theorem call (h : Orderly lx) (c : Call) : Orderly (lx.call c) := by
  obtain ⟨w, hat⟩ := h.sited
  obtain ⟨w', -, hat'⟩ := hat.call c
  have hfill := reads (reads_fill lx) h
  refine ⟨⟨w', hat'⟩, ?_⟩
  cases c with
  | peek => exact hfill.solid
  | next => exact fun e he => hfill.solid e (List.mem_of_mem_tail he)
  | beginStatement => exact h.solid
  | discard => exact nofun

theorem calls (h : Orderly lx) (cs : List Call) : Orderly (lx.calls cs) := by
  induction cs generalizing lx with
  | nil => exact h
  | cons c cs ih => exact ih (h.call c)

end Orderly

/-! ### What is still to come -/

theorem rest_of_ended {lx : Lexer} (h : lx.ended = true) : lx.rest = lx.queue := by
  rw [rest, h, if_pos rfl, List.append_nil]

/-- Reading a line does not change what is still to come. -/
theorem rest_readLine {lx : Lexer} (h : lx.ended = false) : lx.readLine.rest = lx.rest := by
  rcases hunread : lx.unread with _ | ⟨text | message, rest⟩
  · simp [Lexer.readLine, hunread, finish, Lexer.rest, h, upcoming, Mode.ending]
  · rw [readLine_cons hunread, rest_accept_line lx text rest h, Lexer.rest, h, hunread, if_neg Bool.false_ne_true]
  · simp [readLine_cons hunread, accept, Lexer.rest, h, hunread, upcoming]

namespace Orderly

/-- When all lines have been read, what was still to come is queued. -/
theorem drained (unread : Input) : ∀ {lx : Lexer}, lx.unread = unread → Orderly lx →
    ∃ lx', Orderly lx' ∧ lx'.queue = lx.rest := by
  induction unread with
  | nil =>
      intro lx hunread h
      cases hended : lx.ended with
      | true => exact ⟨lx, h, (rest_of_ended hended).symm⟩
      | false =>
          have hend : lx.readLine.ended = true := by rw [readLine_nil hunread, fillFrom, finish]
          exact ⟨lx.readLine, h.readLine, by rw [← rest_of_ended hend, rest_readLine hended]⟩
  | cons r unread ih =>
      intro lx hunread h
      cases hended : lx.ended with
      | true => exact ⟨lx, h, (rest_of_ended hended).symm⟩
      | false =>
          obtain ⟨lx', h', hqueue⟩ := ih (unread_readLine hunread) h.readLine
          exact ⟨lx', h', by rw [hqueue, rest_readLine hended]⟩

end Orderly

theorem Follow.start_le {log : Log} {p q : Pos} {es : List Entry} (h : Follow log p es q) {t : Token}
    (ht : .ok t ∈ es) : p ≤ t.span.start := by
  induction h with
  | nil hle => cases ht
  | token hle hholds _ ih =>
      obtain heq | ht := List.mem_cons.mp ht
      · cases heq
        exact hle
      · exact Pos.le_trans hle (Pos.le_trans hholds.le (ih ht))
  | error _ _ ih =>
      obtain heq | ht := List.mem_cons.mp ht
      · cases heq
      · exact ih ht

/-- Tokens that follow each other do not overlap. -/
theorem Follow.pairwise {log : Log} {p q : Pos} {ts : List Token} {us : List Entry} :
    Follow log p (ts.map .ok ++ us) q → ts.Pairwise fun t u => t.span.stop ≤ u.span.start := by
  induction ts generalizing p with
  | nil => exact fun _ => .nil
  | cons t ts ih =>
      rintro (_ | ⟨-, -, h⟩)
      refine .cons (fun u hu => h.start_le ?_) (ih h)
      exact List.mem_append_left us (List.mem_map_of_mem hu)

/-- The tokens that are still to come stand in reading order, and none is empty. -/
theorem Orderly.ordered {lx : Lexer} (h : Orderly lx) {ts : List Token} {us : List Entry}
    (hrest : lx.rest = ts.map .ok ++ us) : Ordered ts ∧ ∀ t ∈ ts, t.span.Solid := by
  obtain ⟨lx', h', hqueue⟩ := drained lx.unread rfl h
  rw [hrest] at hqueue
  have hsolid : ∀ t ∈ ts, t.span.Solid := fun t ht =>
    h'.solid (.ok t) (hqueue ▸ List.mem_append_left us (List.mem_map_of_mem ht))
  obtain ⟨w, hat⟩ := h'.sited
  obtain ⟨q, hfollow, -⟩ := hat.follow
  rw [hqueue] at hfollow
  exact ⟨⟨fun t ht => (hsolid t ht).le, hfollow.pairwise⟩, hsolid⟩

end Lexer

end SoundLang
