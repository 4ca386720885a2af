import SoundLang.Proofs.Lexer.Moved
import SoundLang.Proofs.Session.Progress
import SoundLang.Proofs.Types.Moved

/-! # Recovery leaves no residue

A session whose log starts with `k` other lines does the same as without them, `k` lines further down
(`Session.round_behind`): so do its lexer, the grammar and the lowering of types.  Behind a syntax error an interactive
session has nothing left of the lines read but their log, and goes on like a new session that is opened on the lines to
come (`Session.recovery_leaves_no_residue`). -/

namespace SoundLang

open Placed (down)

instance : Placed Session.Verdict := ⟨fun k verdict =>
  match verdict with
  | .accepted i types => .accepted (down k i) (down k types)
  | .malformed e => .malformed (down k e)
  | .mistyped e => .mistyped (down k e)
  | .ended => .ended
  | .full e => .full e⟩

namespace Lexer

theorem pending_behind (pre : Log) (lx : Lexer) : (lx.behind pre).pending = lx.pending := by
  change (down pre.size lx.queue).length + _ + _ = _
  rw [length_down]
  rfl

/-- When what is queued or open is dropped, nothing is left of the lines read but their log. -/
theorem Tracks.recovered {input : Input} {prompting : Prompting} {lx : Lexer} (h : Tracks input prompting lx)
    (hended : lx.ended = false) :
    lx.discard.takePrompts.2.beginStatement = (opened (input.drop lx.log.size) prompting).behind lx.log := by
  have hunread := h.unread hended
  have hprompting := h.prompting
  obtain ⟨unread, prompting', log, mode, queue, continued, ended, prompts⟩ := lx
  simp only at hunread hprompting hended
  subst hunread hprompting hended
  simp [discard, takePrompts, beginStatement, opened, behind, Log.behind]

end Lexer

namespace Session

/-- The round behind other lines. -/
def Round.behind (r : Round) (pre : Log) : Round :=
  ⟨r.prompts, down pre.size r.verdict, r.log.behind pre⟩

/-- The session when the next line may start a statement. -/
def begun (s : Session) : Session := { s with lexer := s.lexer.beginStatement }

theorem round_begun (s : Session) : s.begun.round = s.round := rfl

/-- The session with its log behind other lines. -/
def behind (s : Session) (pre : Log) : Session := { s with lexer := s.lexer.behind pre }

variable (s : Session) (pre : Log)

theorem read_behind : (s.behind pre).read = (down pre.size s.read.1, s.read.2.behind pre) := by
  change Grammar.readWithin (s.lexer.beginStatement.behind pre).pending Grammar.item
    (s.lexer.beginStatement.behind pre) = _
  rw [Lexer.pending_behind]
  exact Grammar.readWithin_shifted (Lexer.shifts_behind pre) _ Grammar.moved_item _

theorem Verdict.lowered_down (k : Nat) (i : Item Span) (r : Except Lowering.Stop ItemTypes) :
    lowered (down k i) (down k r) = down k (lowered i r) := by
  obtain (e | e) | types := r <;> rfl

theorem Verdict.goesOn_down (k : Nat) (v : Verdict) (mode : Mode) : (down k v).goesOn mode = v.goesOn mode := by
  cases v <;> cases mode <;> rfl

/-- A round behind other lines is the round without them, further down. -/
theorem round_behind : (s.behind pre).round = (s.round.1.behind pre, s.round.2.behind pre) := by
  have hjudge : (s.behind pre).judge = (down pre.size s.judge.1, s.judge.2.behind pre) := by
    unfold judge
    rw [read_behind]
    obtain ⟨e | (_ | i), lx⟩ := s.read
    · have hrecover : recover s.mode (lx.behind pre) = (recover s.mode lx).behind pre := by cases s.mode <;> rfl
      exact congrArg (fun lexer => (Verdict.malformed (down pre.size e), { s with lexer })) hrecover
    · rfl
    · have hlower := Lowering.lowerItem_down (k := pre.size) i s.types
      simp only [down_ok, down_some]
      rw [show (s.behind pre).types = s.types from rfl, hlower, Verdict.lowered_down]
      rfl
  unfold round
  rw [hjudge]
  rfl

theorem Runs.behind {s final : Session} {rounds : List Round} (h : Runs s rounds final) (pre : Log) :
    Runs (s.behind pre) (rounds.map (·.behind pre)) (final.behind pre) := by
  have hgoes : ∀ s : Session, (s.behind pre).round.1.verdict.goesOn (s.behind pre).mode =
      s.round.1.verdict.goesOn s.mode := by
    intro s
    rw [round_behind]
    exact Verdict.goesOn_down _ _ _
  induction h with
  | @last s hends =>
      have hlast := Runs.last ((hgoes s).trans hends)
      rw [round_behind] at hlast
      exact hlast
  | @more s final rounds hmore _ ih =>
      have hstep : Runs (s.behind pre).round.2 (rounds.map (·.behind pre)) (final.behind pre) := by
        rw [round_behind]
        exact ih
      have hruns := Runs.more ((hgoes s).trans hmore) hstep
      rw [round_behind] at hruns
      exact hruns

/-- A run depends on the first round alone. -/
theorem Runs.congr {s u final : Session} {rounds : List Round} (h : Runs u rounds final) (hround : s.round = u.round)
    (hmode : s.mode = u.mode) : Runs s rounds final := by
  cases h with
  | last hends =>
      rw [← hround, ← hmode] at hends
      rw [← hround]
      exact .last hends
  | more hgoes h =>
      rw [← hround, ← hmode] at hgoes
      rw [← hround] at h ⊢
      exact .more hgoes h

section
variable {input : Input} {prompting : Prompting} {s u : Session} {before : List Round}

/-- Rounds keep track of the input. -/
theorem Comes.tracks (h : Comes s before u) (htracks : s.lexer.Tracks input prompting) :
    u.lexer.Tracks input prompting :=
  h.keeps (P := fun u => u.lexer.Tracks input prompting)
    (fun _ htracks => (beyond_round htracks htracks.beyond_zero).1) htracks

theorem Comes.mode_eq (h : Comes s before u) : u.mode = s.mode :=
  h.keeps (P := fun u => u.mode = s.mode) (fun u hmode => (mode_round u).trans hmode) rfl

/-- A syntax error in an interactive session leaves the log and the types, and nothing else of what was read. -/
theorem round_of_malformed {e : ParseError} (hmode : s.mode = .interactive)
    (he : s.round.1.verdict.parseError? = some e) :
    s.round.1.log = s.read.2.log ∧ s.round.2 = ⟨.interactive, s.read.2.discard.takePrompts.2, s.types⟩ := by
  rw [parseError?_round] at he
  have hjudge : s.judge = (.malformed e, ⟨.interactive, s.read.2.discard, s.types⟩) := by
    unfold judge
    rw [hmode]
    revert he
    obtain ⟨e' | o, lx⟩ := s.read
    · rintro ⟨⟩
      rfl
    · exact nofun
  unfold round
  rw [hjudge]
  exact ⟨rfl, rfl⟩

/-- Behind a syntax error an interactive session goes on like a new one, opened on the lines to come. -/
theorem runs_of_recovered {e : ParseError} {rounds : List Round} {final : Session} (hmode : s.mode = .interactive)
    (htracks : s.lexer.Tracks input prompting) (he : s.round.1.verdict.parseError? = some e)
    (hended : s.round.2.lexer.ended = false)
    (h : Runs (opened .interactive prompting (input.drop s.round.1.log.size) s.types) rounds final) :
    Runs s.round.2 (rounds.map (·.behind s.round.1.log)) (final.behind s.round.1.log) := by
  obtain ⟨hlog, hround⟩ := round_of_malformed hmode he
  rw [hround] at hended
  have hrecovered := (beyond_read htracks htracks.beyond_zero).1.1.recovered hended
  have hbegun : s.round.2.begun =
      (opened .interactive prompting (input.drop s.round.1.log.size) s.types).behind s.round.1.log := by
    rw [hround, hlog]
    exact congrArg (fun lexer => Session.mk .interactive lexer s.types) hrecovered
  refine (h.behind s.round.1.log).congr ?_ ((mode_round s).trans hmode)
  rw [← round_begun, hbegun]

end

/-- Behind the rounds `before` the first session goes on like the second, with the `lines` in front of it. -/
structure Resumes (whole later : Session) (before : List Round) (lines : Log) : Prop where
  /-- Its further rounds are those of the second session, `lines.size` lines further down. -/
  rounds : ∃ rounds final, Runs later rounds final ∧ later.run = .ofRounds later.mode rounds final ∧
    Runs whole (before ++ rounds.map (·.behind lines)) (final.behind lines) ∧
    whole.run = .ofRounds whole.mode (before ++ rounds.map (·.behind lines)) (final.behind lines)
  /-- It accepts the same items with the same types, further down. -/
  accepted : whole.run.accepted = before.filterMap (·.verdict.accepted?) ++ down lines.size later.run.accepted
  /-- It reports as many errors. -/
  errors : whole.run.errors = (before.filterMap (·.verdict.diagnostic?)).length + later.run.errors
  /-- It stores the same types. -/
  types : whole.run.final.types = later.run.final.types

theorem accepted?_behind (r : Round) (pre : Log) :
    (r.behind pre).verdict.accepted? = down pre.size r.verdict.accepted? := by
  obtain ⟨prompts, verdict, log⟩ := r
  cases verdict <;> rfl

theorem isSome_diagnostic?_behind (r : Round) (pre : Log) :
    (r.behind pre).verdict.diagnostic?.isSome = r.verdict.diagnostic?.isSome := by
  obtain ⟨prompts, verdict, log⟩ := r
  cases verdict <;> rfl

theorem resumes_of_runs {whole later final : Session} {before rounds : List Round} {lines : Log}
    (hlater : Runs later rounds final)
    (hwhole : Runs whole (before ++ rounds.map (·.behind lines)) (final.behind lines)) :
    Resumes whole later before lines where
  rounds := ⟨rounds, final, hlater, run_of_runs hlater, hwhole, run_of_runs hwhole⟩
  accepted := by
    rw [run_of_runs hwhole, run_of_runs hlater]
    change (before ++ rounds.map (·.behind lines)).filterMap (·.verdict.accepted?) = before.filterMap _ ++
      (rounds.filterMap (·.verdict.accepted?)).map (down lines.size)
    rw [List.filterMap_append, List.filterMap_map, List.map_filterMap]
    exact congrArg (fun f => _ ++ rounds.filterMap f) (funext fun r => accepted?_behind r lines)
  errors := by
    rw [run_of_runs hwhole, run_of_runs hlater]
    change ((before ++ rounds.map (·.behind lines)).filterMap (·.verdict.diagnostic?)).length =
      (before.filterMap (·.verdict.diagnostic?)).length + (rounds.filterMap (·.verdict.diagnostic?)).length
    rw [List.filterMap_append, List.length_append, List.filterMap_map, List.length_filterMap_eq_countP,
      List.length_filterMap_eq_countP, List.length_filterMap_eq_countP]
    exact congrArg (fun p => _ + rounds.countP p) (funext fun r => isSome_diagnostic?_behind r lines)
  types := by
    rw [run_of_runs hwhole, run_of_runs hlater]
    rfl

/-- Where an interactive session reports a lexical or syntax error before it has seen the end of the input, it goes on
like a new session with the same types that is opened on the lines to come. -/
theorem recovery_leaves_no_residue {input : Input} {prompting : Prompting} {types : Interner} {before : List Round}
    {s : Session} {e : ParseError} (hcomes : Comes (opened .interactive prompting input types) before s)
    (he : s.round.1.verdict.parseError? = some e) (hended : s.round.2.lexer.ended = false) :
    Resumes (opened .interactive prompting input types)
      (opened .interactive prompting (input.drop s.round.1.log.size) s.types)
      (before ++ [s.round.1]) s.round.1.log := by
  have hmode : s.mode = .interactive := hcomes.mode_eq
  have htracks := hcomes.tracks (Lexer.tracks_opened input prompting)
  have hgoes : s.round.1.verdict.goesOn s.mode = true := by rw [Verdict.eq_malformed he, hmode]; rfl
  obtain ⟨rounds, final, hlater⟩ :=
    exists_runs (opened .interactive prompting (input.drop s.round.1.log.size) s.types)
  have hwhole := hcomes.runs (.more hgoes (runs_of_recovered hmode htracks he hended hlater))
  rw [← List.singleton_append, ← List.append_assoc] at hwhole
  exact resumes_of_runs hlater hwhole

/-- On the second line an item is left behind the error, and a comment is open. -/
def broken : Input := [.line "let x: (int, bool) = 1;", .line "a b; c; /* open", .line "d; e f;"]

theorem recovery_leaves_no_residue_of_broken :
    Resumes (opened .interactive .shown broken .initial)
      (opened .interactive .shown [.line "d; e f;"] (opened .interactive .shown broken .initial).round.2.types)
      [(opened .interactive .shown broken .initial).round.1,
        (opened .interactive .shown broken .initial).round.2.round.1]
      ⟨#["let x: (int, bool) = 1;", "a b; c; /* open"]⟩ := by
  have hcomes : Comes (opened .interactive .shown broken .initial)
      [(opened .interactive .shown broken .initial).round.1] (opened .interactive .shown broken .initial).round.2 :=
    .more (by decide +kernel) (.none _)
  have hlog : (opened .interactive .shown broken .initial).round.2.round.1.log =
      ⟨#["let x: (int, bool) = 1;", "a b; c; /* open"]⟩ := by decide +kernel
  have hresumes := recovery_leaves_no_residue hcomes
    (e := .missingSemicolon (.onLine 1 0 1) ⟨.word "b", .onLine 1 2 3⟩) (by decide +kernel) (by decide +kernel)
  rw [hlog] at hresumes
  exact hresumes

end Session

end SoundLang
