import Mathlib.Order.Basic
import SoundLang.Proofs.Source.Place

/-! # Spans in a log

A log holds a span when both ends are boundaries between characters on lines of the log, the first not behind the
second (`Log.Holds`).  A log only grows, and holds what it has held (`Log.Holds.mono`).  Two spans that it holds are
joined to one that it holds, if the first does not start behind the second (`Log.Holds.join`). -/

namespace SoundLang

namespace Log

variable {log log' log'' : Log} {first last s : Span}

/-- The second log has the lines of the first one, and perhaps more. -/
def Grows (log log' : Log) : Prop := log.lines.toList <+: log'.lines.toList

theorem Grows.refl (log : Log) : log.Grows log := List.prefix_rfl

theorem Grows.trans (h : log.Grows log') (h' : log'.Grows log'') : log.Grows log'' := List.IsPrefix.trans h h'

theorem grows_push (log : Log) (line : String) : log.Grows ⟨log.lines.push line⟩ :=
  ⟨[line], by simp⟩

theorem Grows.line? (h : log.Grows log') {i : Nat} {line : String} (hline : log.line? i = some line) :
    log'.line? i = some line := by
  rw [Log.line?, ← Array.getElem?_toList] at hline ⊢
  obtain ⟨hi, rfl⟩ := List.getElem?_eq_some_iff.mp hline
  exact List.prefix_iff_getElem?.mp h i hi

theorem Boundary.mono {p : Pos} (h : log.Boundary p) (hgrows : log.Grows log') : log'.Boundary p := by
  obtain ⟨line, before, after, hline, htext, hsize⟩ := h
  exact ⟨line, before, after, hgrows.line? hline, htext, hsize⟩

theorem Boundary.line_lt {p : Pos} (h : log.Boundary p) : p.line < log.size := by
  obtain ⟨line, -, -, hline, -, -⟩ := h
  exact (Array.getElem?_eq_some_iff.mp hline).1

/-- The span stands in the log. -/
structure Holds (log : Log) (s : Span) : Prop where
  le : s.start ≤ s.stop
  start : log.Boundary s.start
  stop : log.Boundary s.stop

theorem Holds.mono (h : log.Holds s) (hgrows : log.Grows log') : log'.Holds s :=
  ⟨h.le, h.start.mono hgrows, h.stop.mono hgrows⟩

theorem Holds.join (h : log.Holds first) (h' : log.Holds last) (hle : first.start ≤ last.start) :
    log.Holds (first.join last) :=
  ⟨Pos.le_trans hle h'.le, h.start, h'.stop⟩

/-! ### Places on a line -/

/-- The text `cs` stands behind the place on its line. -/
def Behind (log : Log) (p : Pos) (cs : List Char) : Prop :=
  ∃ (line : String) (before : List Char), log.line? p.line = some line ∧ line.toList = before ++ cs ∧
    Text.size before = p.byte

section
variable {line byte : Nat} {xs cs : List Char}

theorem Behind.boundary {p : Pos} (h : log.Behind p cs) : log.Boundary p := by
  obtain ⟨line, before, hline, htext, hsize⟩ := h
  exact ⟨line, before, cs, hline, htext, hsize⟩

theorem Behind.skip (h : log.Behind ⟨line, byte⟩ (xs ++ cs)) : log.Behind ⟨line, byte + Text.size xs⟩ cs := by
  obtain ⟨text, before, hline, htext, hsize⟩ := h
  refine ⟨text, before ++ xs, hline, ?_, ?_⟩
  · rw [htext, List.append_assoc]
  · rw [Text.size_append, hsize]

/-- A stretch of a line stands in the log. -/
theorem Behind.holds (h : log.Behind ⟨line, byte⟩ (xs ++ cs)) :
    log.Holds (.onLine line byte (byte + Text.size xs)) :=
  ⟨.inr ⟨rfl, Nat.le_add_right ..⟩, h.boundary, h.skip.boundary⟩

/-- The whole line stands behind its start. -/
theorem behind_push (log : Log) (text : String) :
    (⟨log.lines.push text⟩ : Log).Behind ⟨log.size, 0⟩ text.toList :=
  ⟨text, [], Array.getElem?_push_size, rfl, rfl⟩

end

end Log

/-! ### How far a text has been read -/

/-- The lines read, and a place in front of which no token starts that is still to come. -/
structure Reading where
  log : Log
  place : Pos

namespace Reading

variable {w w' : Reading} {s : Span}

/-- Reading goes on: lines come to the log, and the place moves forward. -/
instance : Preorder Reading where
  le w w' := w.log.Grows w'.log ∧ w.place ≤ w'.place
  le_refl _ := ⟨.refl _, Pos.le_refl _⟩
  le_trans _ _ _ h h' := ⟨h.1.trans h'.1, Pos.le_trans h.2 h'.2⟩

/-- The span stands in the log, and starts no later than what is still to come. -/
structure Shows (w : Reading) (s : Span) : Prop where
  holds : w.log.Holds s
  start_le : s.start ≤ w.place

theorem Shows.mono (h : w.Shows s) (hle : w ≤ w') : w'.Shows s :=
  ⟨h.holds.mono hle.1, Pos.le_trans h.start_le hle.2⟩

theorem Shows.join {first last : Span} (h : w.Shows first) (h' : w.Shows last) (hle : first.start ≤ last.start) :
    w.Shows (first.join last) :=
  ⟨h.holds.join h'.holds hle, h.start_le⟩

end Reading

end SoundLang
