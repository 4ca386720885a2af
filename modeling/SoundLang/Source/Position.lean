/-! # Positions and spans

A `Pos` names a place in a log of lines: a line and a byte offset inside it, both counted from zero.  A
`Span` is the half-open stretch between two positions.  For a reader both are written counted from one
(`Pos.render`, `Span.render`).

Lines and bytes are counted without a bound, but a position is stored in 32 bits for each of the two, and what does
not fit is stored as the largest number (`Pos.stored`).  So what is said of places is meant for texts of fewer than 2^32
lines with fewer than 2^32 - 1 bytes each, whose positions can be stored, and written counted from one.  How a longer
line is scanned is told in `SoundLang.Lexer.Stepped`. -/

namespace SoundLang

/-- A place in the source: a line of the log and a byte offset inside that line, both from zero and without a
bound. -/
structure Pos where
  line : Nat
  byte : Nat
deriving DecidableEq, Repr, Inhabited

namespace Pos

/-- Reading order: by line, then by byte. -/
protected def le (p q : Pos) : Prop :=
  p.line < q.line ∨ (p.line = q.line ∧ p.byte ≤ q.byte)

instance : LE Pos := ⟨Pos.le⟩

instance (p q : Pos) : Decidable (p ≤ q) :=
  inferInstanceAs (Decidable (p.line < q.line ∨ (p.line = q.line ∧ p.byte ≤ q.byte)))

theorem le_iff {p q : Pos} : p ≤ q ↔ p.line < q.line ∨ (p.line = q.line ∧ p.byte ≤ q.byte) := Iff.rfl

/-- The largest line and the largest byte that a position can be stored with. -/
def widest : Nat := 4294967295

/-- The position that is stored for a place. -/
def stored (line byte : Nat) : Pos := ⟨min line widest, min byte widest⟩

theorem stored_of_le {line byte : Nat} (hline : line ≤ widest) (hbyte : byte ≤ widest) :
    stored line byte = ⟨line, byte⟩ := by
  rw [stored, Nat.min_eq_left hline, Nat.min_eq_left hbyte]

/-- `line:byte`, both counted from one. -/
def render (p : Pos) : String := s!"{p.line + 1}:{p.byte + 1}"

end Pos

/-- The half-open stretch of source text from `start` up to `stop`. -/
structure Span where
  start : Pos
  stop : Pos
deriving DecidableEq, Repr, Inhabited

namespace Span

/-- A span inside one line. -/
def onLine (line first last : Nat) : Span := ⟨⟨line, first⟩, ⟨line, last⟩⟩

/-- The empty span at a position. -/
def point (p : Pos) : Span := ⟨p, p⟩

/-- From the start of `first` to the end of `last`. -/
def join (first last : Span) : Span := ⟨first.start, last.stop⟩

/-- Moves the start back to the start of `other`. -/
def extendLeft (s other : Span) : Span := ⟨other.start, s.stop⟩

/-- Moves the end forward to the end of `other`. -/
def extendRight (s other : Span) : Span := ⟨s.start, other.stop⟩

/-- Both ends are the same place. -/
def isEmpty (s : Span) : Bool := s.start == s.stop

/-- Both ends are on one line. -/
def isSingleLine (s : Span) : Bool := s.start.line == s.stop.line

/-- Both ends, or the one place where they meet. -/
def render (s : Span) : String :=
  if s.isEmpty then s.start.render else s!"{s.start.render}-{s.stop.render}"

end Span

end SoundLang
