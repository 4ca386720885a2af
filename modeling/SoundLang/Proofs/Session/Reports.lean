import SoundLang.Proofs.Diagnostic.Drawing
import SoundLang.Proofs.Parse.Sited
import SoundLang.Proofs.Session.Shared

/-! # Reports point into the log

An error that a lexer or the grammar raises, or the lowering of an item read, points to nothing outside the lines read
by then (`Lexer.Raises.sited`), and so do the reports of a session (`Session.sited_of_runs`).  They are drawn with all
that they point to (`Session.reports_point`). -/

namespace SoundLang

namespace Diagnostic

/-! ### Errors -/

/-- The diagnostic of an error, with the span of the error. -/
inductive OfError : Diagnostic → Option Span → Prop
  | lexed (e : LexError) : OfError e.diagnostic e.span?
  | parsed (e : ParseError) : OfError e.diagnostic e.span?
  | lowered (e : TypeError) : OfError e.diagnostic (some e.span)

/-- The diagnostic is primarily about the span, all its labels stand in the log, and it is drawn with all of them. -/
structure Points (d : Diagnostic) (s? : Option Span) (log : Log) : Prop where
  primary : d.primarySpan? = s?
  sited : d.Sited log
  drawn : d.Drawn log

theorem OfError.points {d : Diagnostic} {s? : Option Span} {log : Log} (h : d.OfError s?) (hsited : d.Sited log) :
    d.Points s? log := by
  cases h with
  | lexed e | parsed e | lowered e => exact ⟨e.primarySpan?_diagnostic, hsited, hsited.drawn e.worded⟩

end Diagnostic

/-! ### Reading and lowering -/

namespace Grammar

/-- What can be read from a source of tokens. -/
inductive Start : {α : Type} → Parse Rule (Option α) → Prop
  | item : Start item
  | statement : Start statement
  | expression : Start expression

theorem Start.sited {α : Type} {p : Parse Rule (Option α)} (h : Start p) (w : Reading) :
    p.Sited w fun o _ => ∀ a ∈ o, True := by
  cases h with
  | item => exact sited_item.imp fun _ _ _ _ _ => trivial
  | statement => exact sited_statement.imp fun _ _ _ _ _ => trivial
  | expression => exact sited_expression.imp fun _ _ _ _ _ => trivial

end Grammar

namespace Lexer

/-- The errors raised by reading from a lexer, and by lowering the items read, with the lines read by then. -/
inductive Raises (lx : Lexer) : Diagnostic → Option Span → Log → Prop
  | peek {e : LexError} (h : lx.peek.1 = .error e) : Raises lx e.diagnostic e.span? lx.peek.2.log
  | next {e : LexError} (h : lx.next.1 = .error e) : Raises lx e.diagnostic e.span? lx.next.2.log
  | read {α : Type} {p : Parse Rule (Option α)} {e : ParseError} (hp : Grammar.Start p)
      (h : (Grammar.read p lx).1 = .error e) : Raises lx e.diagnostic e.span? (Grammar.read p lx).2.log
  | readAll {e : ParseError} (h : (Grammar.readAll lx).2.1 = some e) :
      Raises lx e.diagnostic e.span? (Grammar.readAll lx).2.2.log
  | lower {t : Interner} {i : Item Span} {e : TypeError} (ht : t.Lawful)
      (hi : (Grammar.read Grammar.item lx).1 = .ok (some i)) (h : (Lowering.lowerItem i t).1 = .error (.error e)) :
      Raises lx e.diagnostic (some e.span) (Grammar.read Grammar.item lx).2.log
  | lowerAll {t : Interner} {i : Item Span} {e : TypeError} (ht : t.Lawful)
      (hi : i ∈ (Grammar.readAll lx).1) (h : (Lowering.lowerItem i t).1 = .error (.error e)) :
      Raises lx e.diagnostic (some e.span) (Grammar.readAll lx).2.2.log

namespace Raises

variable {lx : Lexer} {d : Diagnostic} {s? : Option Span} {log : Log}

theorem ofError (h : lx.Raises d s? log) : d.OfError s? := by
  cases h with
  | peek | next => exact .lexed _
  | read | readAll => exact .parsed _
  | lower | lowerAll => exact .lowered _

/-- What is raised points to nothing outside the lines read. -/
theorem sited {w : Reading} (h : lx.Raises d s? log) (hat : At w lx) : d.Sited log := by
  cases h with
  | peek h =>
      obtain ⟨w', -, hanswers, hat'⟩ := hat.peek
      rw [h] at hanswers
      exact hat'.log ▸ hanswers
  | next h =>
      obtain ⟨w', -, hanswers, hat'⟩ := hat.next
      rw [h] at hanswers
      exact hat'.log ▸ hanswers
  | read hp h =>
      obtain ⟨w', -, hat', hread⟩ := Grammar.sited_readWithin (hp.sited w) hat lx.pending
      rw [show (Grammar.readWithin lx.pending _ lx).1 = _ from h] at hread
      exact hat'.log ▸ hread
  | readAll h =>
      obtain ⟨w', -, hat', -, herror⟩ := Grammar.sited_readItems lx.pending hat
      exact hat'.log ▸ herror _ h
  | lower ht hi h =>
      obtain ⟨w', -, hat', hread⟩ := Grammar.sited_readWithin Grammar.sited_item hat lx.pending
      rw [show (Grammar.readWithin lx.pending _ lx).1 = _ from hi] at hread
      exact hat'.log ▸ (TypeError.sited_iff _).mpr ((hread _ rfl).error ht (Prod.ext h rfl))
  | lowerAll ht hi h =>
      obtain ⟨w', -, hat', hitems, -⟩ := Grammar.sited_readItems lx.pending hat
      exact hat'.log ▸ (TypeError.sited_iff _).mpr ((hitems _ hi).error ht (Prod.ext h rfl))

end Raises

end Lexer

/-! ### Sessions -/

namespace Session

open Lexer (At)

variable {w : Reading} {s : Session}

theorem Verdict.ofError {v : Verdict} {d : Diagnostic} (h : v.diagnostic? = some d) : ∃ s?, d.OfError s? := by
  cases v with
  | malformed e => exact Option.some.inj h ▸ ⟨_, .parsed e⟩
  | mistyped e => exact Option.some.inj h ▸ ⟨_, .lowered e⟩
  | accepted | ended | full => cases h

/-- The verdict on what is read points to nothing outside the log. -/
theorem sited_judge (hat : At w s.lexer) (ht : s.types.Lawful) :
    ∃ w', At w' s.judge.2.lexer ∧ ∀ d ∈ s.judge.1.diagnostic?, d.Sited w'.log := by
  obtain ⟨w', -, hat', hread⟩ : ∃ w', w ≤ w' ∧ At w' s.read.2 ∧
      w'.Gives (fun (i : Item Span) w' => w'.log.HoldsTypes i.annotations) s.read.1 :=
    Grammar.sited_readWithin Grammar.sited_item hat.beginStatement s.lexer.beginStatement.pending
  unfold judge
  generalize s.read = r at hat' hread ⊢
  obtain ⟨e | _ | i, lx⟩ := r
  · refine ⟨w', ?_, fun _ hd => Option.some.inj hd ▸ hread⟩
    dsimp only
    cases s.mode with
    | interactive => exact hat'.discard
    | batch => exact hat'
  · exact ⟨w', hat', fun _ hd => nomatch hd⟩
  · refine ⟨w', hat', fun d hd => ?_⟩
    dsimp only at hd
    cases hr : (Lowering.lowerItem i s.types).1 with
    | ok types =>
        rw [hr] at hd
        cases hd
    | error stop =>
        rw [hr] at hd
        cases stop with
        | error e => exact Option.some.inj hd ▸ (TypeError.sited_iff e).mpr ((hread i rfl).error ht (Prod.ext hr rfl))
        | refused e => cases hd

/-- So does the report of a round. -/
theorem sited_round (hat : At w s.lexer) (ht : s.types.Lawful) :
    ∃ w', At w' s.round.2.lexer ∧ ∀ d ∈ s.round.1.verdict.diagnostic?, d.Sited s.round.1.log := by
  obtain ⟨w', hat', hsited⟩ := sited_judge hat ht
  refine ⟨w', ⟨hat'.log, hat'.follow⟩, fun d hd => ?_⟩
  have hlog : s.round.1.log = w'.log := hat'.log
  exact hlog ▸ hsited d hd

/-- The reports of a run point to nothing outside the lines read when they are made. -/
theorem sited_of_runs {final : Session} {rounds : List Round} (h : Runs s rounds final) :
    ∀ {w : Reading}, At w s.lexer → s.types.Lawful →
      ∀ r ∈ rounds, ∀ d ∈ r.verdict.diagnostic?, d.Sited r.log := by
  induction h with
  | last _ =>
      intro w hat ht r hr
      obtain ⟨-, -, hsited⟩ := sited_round hat ht
      exact List.mem_singleton.mp hr ▸ hsited
  | more _ _ ih =>
      intro w hat ht
      -- the interner stays lawful, so what a later round lowers is wrong at an annotation again
      obtain ⟨w', hat', hsited⟩ := sited_round hat ht
      exact List.forall_mem_cons.mpr ⟨hsited, ih hat' (types_round ht).1⟩

theorem report_of_events {r : Round} {d : Diagnostic} {log : Log} (h : .report d log ∈ r.events) :
    r.verdict.diagnostic? = some d ∧ log = r.log := by
  unfold Round.events at h
  obtain h | h := List.mem_append.mp h
  · obtain ⟨_, -, h⟩ := List.mem_map.mp h
    cases h
  · obtain ⟨d', hd, h⟩ := Option.map_eq_some_iff.mp (Option.mem_toList.mp h)
    cases h
    exact ⟨hd, rfl⟩

theorem run_points {d : Diagnostic} {log : Log} (hat : At w s.lexer) (ht : s.types.Lawful)
    (h : .report d log ∈ s.run.events) : ∃ s?, d.OfError s? ∧ d.Points s? log := by
  obtain ⟨rounds, final, hruns⟩ := exists_runs s
  rw [run_of_runs hruns] at h
  obtain h | h := List.mem_append.mp h
  · obtain ⟨r, hr, h⟩ := List.mem_flatMap.mp h
    obtain ⟨hd, rfl⟩ := report_of_events h
    obtain ⟨s?, herror⟩ := Verdict.ofError hd
    exact ⟨s?, herror, herror.points (sited_of_runs hruns hat ht r hr d hd)⟩
  · split at h
    · cases h
    · cases List.mem_singleton.mp h

/-- Whatever has been called on the lexer, the errors raised and reported point into the lines read by then. -/
theorem reports_point (input : Input) (prompting : Prompting) (cs : List Lexer.Call) :
    (∀ d s? log, ((Lexer.opened input prompting).calls cs).Raises d s? log → d.Points s? log) ∧
      ∀ (mode : Mode) (t : Interner), t.Lawful → ∀ d log,
        .report d log ∈ (run ⟨mode, (Lexer.opened input prompting).calls cs, t⟩).events →
          ∃ s?, d.OfError s? ∧ d.Points s? log := by
  obtain ⟨w, -, hat⟩ := (Lexer.at_opened input prompting).calls cs
  exact ⟨fun d s? log h => h.ofError.points (h.sited hat), fun mode t ht d log h => run_points hat ht h⟩

-- A tab and a character of two bytes stand in front of the marks.
example : transcript false (run ⟨.batch, Lexer.opened [.line "\t/*é*/ (1, 2];"] .off, .initial⟩).events =
    "error[E1006]: mismatched brackets: `(` at 1:9-1:10 closed by `]` at 1:14-1:15\n --> 1:13\n" ++
    "  |\n" ++
    "1 | \t/*é*/ (1, 2];\n" ++
    "  | \t           ^ expected `)`\n" ++
    "1 | \t/*é*/ (1, 2];\n" ++
    "  | \t      - opened here\n\n" ++
    "error: aborting due to previous error\n" := by
  decide +kernel

end Session

end SoundLang
