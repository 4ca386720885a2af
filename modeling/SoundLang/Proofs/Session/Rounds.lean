import SoundLang.Proofs.Session.Turns

/-! # The rounds of a session

Each round of a session reads one item and ends in a `Verdict`, which keeps the error itself where the session reports
its diagnostic (`Session.turn_eq_judge`).  A run is the rounds from a session up to the one that does not go on
(`Session.Runs`), and a result is put together from rounds (`Result.ofRounds`). -/

namespace SoundLang

namespace Session

/-- How one round ends. -/
inductive Verdict where
  | accepted (item : Item Span) (types : ItemTypes)
  /-- What was read is no item. -/
  | malformed (error : ParseError)
  /-- An annotation of the item is wrong. -/
  | mistyped (error : TypeError)
  /-- Nothing is left to read. -/
  | ended
  /-- Nothing more can be stored. -/
  | full (error : InternError)

namespace Verdict

/-- The verdict on an item, from what comes of lowering it. -/
def lowered (i : Item Span) : Except Lowering.Stop ItemTypes → Verdict
  | .ok types => accepted i types
  | .error (.error e) => mistyped e
  | .error (.refused e) => full e

def accepted? : Verdict → Option (Item Span × ItemTypes)
  | accepted i types => some (i, types)
  | _ => none

/-- The error of what could not be read. -/
def parseError? : Verdict → Option ParseError
  | malformed e => some e
  | _ => none

theorem eq_malformed {v : Verdict} {e : ParseError} (h : v.parseError? = some e) : v = .malformed e := by
  cases v <;> cases h
  rfl

/-- What is reported. -/
def diagnostic? : Verdict → Option Diagnostic
  | malformed e => some e.diagnostic
  | mistyped e => some e.diagnostic
  | _ => none

/-- The session goes on with another round. -/
def goesOn : Verdict → Mode → Bool
  | accepted .., _ | malformed _, .interactive | mistyped _, .interactive => true
  | malformed _, .batch | mistyped _, .batch | ended, _ | full _, _ => false

/-- The turn that ends so. -/
def turn : Verdict → Turn
  | accepted i types => .accepted i types
  | malformed e => .rejected e.diagnostic
  | mistyped e => .rejected e.diagnostic
  | ended | full _ => .over

end Verdict

/-- Reads what comes first in a session: an item, nothing at the end of the input, or an error. -/
def read (s : Session) : Except ParseError (Option (Item Span)) × Lexer :=
  Grammar.read Grammar.item s.lexer.beginStatement

/-- Reads an item and lowers it. -/
def judge (s : Session) : Verdict × Session :=
  match s.read with
  | (.ok none, lx) => (.ended, { s with lexer := lx })
  | (.error e, lx) => (.malformed e, { s with lexer := recover s.mode lx })
  | (.ok (some i), lx) =>
    let (r, t) := Lowering.lowerItem i s.types
    (.lowered i r, { s with lexer := lx, types := t })

/-- What one round shows. -/
structure Round where
  /-- The prompts shown while the item was read. -/
  prompts : List Prompt
  verdict : Verdict
  /-- The lines read up to the verdict. -/
  log : Log

/-- The next round of a session, and the session behind it. -/
def round (s : Session) : Round × Session :=
  (⟨s.judge.2.lexer.takePrompts.1, s.judge.1, s.judge.2.lexer.log⟩, s.judge.2.takePrompts.2)

namespace Round

/-- The events of a round. -/
def events (r : Round) : List Event :=
  r.prompts.map .prompt ++ (r.verdict.diagnostic?.map fun d => .report d r.log).toList

end Round

/-- A session comes through rounds to another session, and goes on there. -/
inductive Comes : Session → List Round → Session → Prop
  | none (s : Session) : Comes s [] s
  | more {s u : Session} {rounds : List Round} (hgoes : s.round.1.verdict.goesOn s.mode = true)
      (h : Comes s.round.2 rounds u) : Comes s (s.round.1 :: rounds) u

/-- The rounds of a session up to its end. -/
inductive Runs : Session → List Round → Session → Prop
  | last {s : Session} (hends : s.round.1.verdict.goesOn s.mode = false) : Runs s [s.round.1] s.round.2
  | more {s final : Session} {rounds : List Round} (hgoes : s.round.1.verdict.goesOn s.mode = true)
      (h : Runs s.round.2 rounds final) : Runs s (s.round.1 :: rounds) final

/-- What one round keeps, rounds keep. -/
theorem Comes.keeps {P : Session → Prop} (hround : ∀ s, P s → P s.round.2) {s u : Session} {before : List Round}
    (h : Comes s before u) (hs : P s) : P u := by
  induction h with
  | none s => exact hs
  | more _ _ ih => exact ih (hround _ hs)

theorem Comes.runs {s u final : Session} {before rounds : List Round} (hcomes : Comes s before u)
    (hruns : Runs u rounds final) : Runs s (before ++ rounds) final := by
  induction hcomes with
  | none s => exact hruns
  | more hgoes _ ih => exact .more hgoes (ih hruns)

/-- What rounds leave behind. -/
def Result.ofRounds (mode : Mode) (rounds : List Round) (final : Session) : Result where
  accepted := rounds.filterMap (·.verdict.accepted?)
  errors := (rounds.filterMap (·.verdict.diagnostic?)).length
  events := rounds.flatMap Round.events ++
    match mode with
    | .interactive => []
    | .batch => [.tally (rounds.filterMap (·.verdict.diagnostic?)).length]
  final := final

/-! ### What a round reads -/

theorem Verdict.parseError?_lowered (i : Item Span) (r : Except Lowering.Stop ItemTypes) :
    (lowered i r).parseError? = none := by
  obtain (e | e) | types := r <;> rfl

section
variable (s : Session)

@[simp] theorem mode_round : s.round.2.mode = s.mode := by
  change s.judge.2.mode = s.mode
  unfold judge
  obtain ⟨e | (_ | i), lx⟩ := s.read <;> rfl

/-- A round leaves the lexer as reading leaves it, or recovered from a syntax error. -/
theorem lexer_round : s.round.2.lexer =
    (if s.round.1.verdict.parseError?.isSome then recover s.mode s.read.2 else s.read.2).takePrompts.2 := by
  change s.judge.2.lexer.takePrompts.2 =
    (if s.judge.1.parseError?.isSome then recover s.mode s.read.2 else s.read.2).takePrompts.2
  unfold judge
  obtain ⟨e | (_ | i), lx⟩ := s.read
  · rfl
  · rfl
  · simp only [Verdict.parseError?_lowered, Option.isSome_none, Bool.false_eq_true, if_false]

theorem parseError?_round : s.round.1.verdict.parseError? = match s.read.1 with
    | .error e => some e
    | .ok _ => none := by
  change s.judge.1.parseError? = _
  unfold judge
  obtain ⟨e | (_ | i), lx⟩ := s.read
  · rfl
  · rfl
  · exact Verdict.parseError?_lowered i _

/-- A session goes on behind an item and behind an error only. -/
theorem read_of_goesOn (h : s.round.1.verdict.goesOn s.mode = true) :
    (∃ i, s.read.1 = .ok (some i)) ∨ ∃ e, s.read.1 = .error e ∧ s.mode = .interactive := by
  change s.judge.1.goesOn s.mode = true at h
  revert h
  unfold judge
  obtain ⟨e | (_ | i), lx⟩ := s.read
  · intro h
    cases hmode : s.mode with
    | interactive => exact .inr ⟨e, rfl, rfl⟩
    | batch => simp [hmode, Verdict.goesOn] at h
  · exact nofun
  · exact fun _ => .inl ⟨i, rfl⟩

end

/-! ### Turns and rounds -/

/-- A turn that is given enough depth is a round. -/
theorem turn_eq_judge {s : Session} {bound : Nat} (h : s.lexer.pending ≤ bound) :
    s.turn bound = (s.judge.1.turn, s.judge.2) := by
  have hlen : s.lexer.beginStatement.rest.length ≤ s.lexer.beginStatement.pending := by
    have := s.lexer.beginStatement.length_rest_le_pending
    omega
  have hread : Grammar.readWithin bound Grammar.item s.lexer.beginStatement = s.read :=
    Grammar.readWithin_of_le Lexer.lawful Grammar.item hlen h
  unfold turn judge
  rw [hread]
  obtain ⟨e | (_ | i), lx⟩ := s.read
  · rfl
  · rfl
  · simp only
    obtain ⟨(e | e) | types, t⟩ := Lowering.lowerItem i s.types <;> rfl

end Session

end SoundLang
