import SoundLang.Proofs.Parse.Spans
import SoundLang.Session

/-! # Sessions parse, then lower

A session reads, lowers and reports item by item.  What it accepts and reports is told by its turns
(`Session.runWithin_eq_history`).  Up to the first error its turns are those of parsing the whole text and lowering the
items in order (`Session.history_eq`), whatever the mode; a batch session has no others. -/

namespace SoundLang

@[simp] theorem Lexer.rest_beginStatement (lx : Lexer) : lx.beginStatement.rest = lx.rest := rfl

@[simp] theorem Lexer.rest_takePrompts (lx : Lexer) : lx.takePrompts.2.rest = lx.rest := rfl

namespace Lowering

/-- Lowers items in order.  Gives those before the first that fails with their types, how that one fails, and the
interner at the end. -/
def lowerAll : List (Item Span) → Interner → List (Item Span × ItemTypes) × Option Stop × Interner
  | [], t => ([], none, t)
  | i :: items, t =>
    match lowerItem i t with
    | (.ok types, t) => ((i, types) :: (lowerAll items t).1, (lowerAll items t).2)
    | (.error stop, t) => ([], some stop, t)

section
variable {i : Item Span} {items : List (Item Span)} {t u : Interner}

theorem lowerAll_cons_ok {types : ItemTypes} (h : lowerItem i t = (.ok types, u)) :
    lowerAll (i :: items) t = ((i, types) :: (lowerAll items u).1, (lowerAll items u).2) := by
  rw [lowerAll, h]

theorem lowerAll_cons_error {stop : Stop} (h : lowerItem i t = (.error stop, u)) :
    lowerAll (i :: items) t = ([], some stop, u) := by
  rw [lowerAll, h]

end

end Lowering

namespace Session

/-- The first diagnostic, where parsing ends with `error` and lowering with `stop`: an item that fails to lower stands
before the place where parsing ends.  When nothing more can be stored there is none. -/
def firstDiagnostic (stop : Option Lowering.Stop) (error : Option ParseError) : Option Diagnostic :=
  match stop with
  | some (.error e) => some e.diagnostic
  | some (.refused _) => none
  | none => error.map ParseError.diagnostic

/-- The diagnostic that an event reports. -/
def Event.diagnostic? : Event → Option Diagnostic
  | report d _ => some d
  | prompt _ | tally _ => none

/-- The diagnostics reported, in order. -/
def reported (events : List Event) : List Diagnostic := events.filterMap Event.diagnostic?

namespace Turn

def accepted? : Turn → Option (Item Span × ItemTypes)
  | .accepted i types => some (i, types)
  | .rejected _ | .over => none

def rejected? : Turn → Option Diagnostic
  | .rejected d => some d
  | .accepted .. | .over => none

end Turn

/-- Turns that accept. -/
def Turn.acceptAll (accepted : List (Item Span × ItemTypes)) : List Turn :=
  accepted.map fun a => .accepted a.1 a.2

/-- The turns of a session before the one that ends it, and the session at the end. -/
def history : Nat → Session → List Turn × Session
  | 0, s => ([], s)
  | bound + 1, s =>
    let (turn, s) := s.turn (bound + 1)
    let s := s.takePrompts.2
    match turn with
    | .over => ([], s)
    | .accepted .. => (turn :: (history bound s).1, (history bound s).2)
    | .rejected _ =>
      match s.mode with
      | .batch => ([turn], s)
      | .interactive => (turn :: (history bound s).1, (history bound s).2)

namespace Turn

@[simp] theorem acceptAll_nil : acceptAll [] = [] := rfl

@[simp] theorem acceptAll_cons (a : Item Span × ItemTypes) (accepted : List (Item Span × ItemTypes)) :
    acceptAll (a :: accepted) = .accepted a.1 a.2 :: acceptAll accepted := rfl

@[simp] theorem accepted?_acceptAll (accepted : List (Item Span × ItemTypes)) :
    (acceptAll accepted).filterMap accepted? = accepted := by
  induction accepted with
  | nil => rfl
  | cons a accepted ih => simp [accepted?, ih]

@[simp] theorem rejected?_acceptAll (accepted : List (Item Span × ItemTypes)) :
    (acceptAll accepted).filterMap rejected? = [] := by
  simp [acceptAll, rejected?]

theorem takeWhile_acceptAll (accepted : List (Item Span × ItemTypes)) (turns : List Turn) :
    (acceptAll accepted ++ turns).takeWhile (·.rejected?.isNone) =
      acceptAll accepted ++ turns.takeWhile (·.rejected?.isNone) := by
  refine List.takeWhile_append_of_pos fun turn hturn => ?_
  obtain ⟨a, -, rfl⟩ := List.mem_map.mp hturn
  rfl

end Turn

/-! ### A run and its turns -/

theorem reported_prompts (prompts : List Prompt) : reported (prompts.map .prompt) = [] := by
  simp [reported, Event.diagnostic?]

/-- What a run leaves behind, from its turns. -/
theorem runWithin_eq_history (bound : Nat) (s : Session) :
    (runWithin bound s).accepted = (history bound s).1.filterMap Turn.accepted? ∧
    (runWithin bound s).errors = ((history bound s).1.filterMap Turn.rejected?).length ∧
    reported (runWithin bound s).events = (history bound s).1.filterMap Turn.rejected? ∧
    (runWithin bound s).final = (history bound s).2 := by
  induction bound generalizing s with
  | zero => exact ⟨rfl, rfl, rfl, rfl⟩
  | succ bound ih =>
      rcases hturn : s.turn (bound + 1) with ⟨turn, s'⟩
      obtain ⟨haccepted, herrors, hreported, hfinal⟩ := ih s'.takePrompts.2
      have hprompts : s'.takePrompts.1.filterMap Event.diagnostic? = [] := reported_prompts s'.lexer.takePrompts.1
      match turn with
      | .over => simp [runWithin, history, hturn, reported, hprompts]
      | .accepted i types =>
          simp only [reported] at hreported
          simp [runWithin, history, hturn, reported, hprompts, Turn.accepted?, Turn.rejected?, List.filterMap_cons,
            haccepted, herrors, hreported, hfinal]
      | .rejected d =>
          simp only [reported] at hreported
          cases hmode : s'.takePrompts.2.mode <;>
            simp [runWithin, history, hturn, hmode, reported, hprompts, Event.diagnostic?, Turn.accepted?,
              Turn.rejected?, List.filterMap_cons, haccepted, herrors, hreported, hfinal]

/-! ### The turns of a text -/

/-- What an item is read as from a lexer, and what the lexer still has to give then. -/
theorem readWithin_eq_outcome {bound : Nat} {lx : Lexer} (h : lx.rest.length ≤ bound) :
    ((Grammar.readWithin bound Grammar.item lx).1, (Grammar.readWithin bound Grammar.item lx).2.rest) =
      match Grammar.outcome Grammar.item lx.rest with
      | .ok o us => (.ok o, us)
      | .error (.error e) us => (.error e, us)
      | .error .tooDeep us => (.ok none, us) := by
  rw [Grammar.readWithin_maps Lexer.lawful.maps, Grammar.readWithin,
    Grammar.run_eq_outcome Grammar.item (by unfold Grammar.depth; omega)]
  cases Grammar.outcome Grammar.item lx.rest with
  | ok o us => rfl
  | error stop us => cases stop <;> rfl

section
variable {bound : Nat} {s s' : Session}

/-- A turn is told by what an item is read as: an item that is read is lowered at once. -/
theorem turn_cases (h : s.lexer.rest.length ≤ bound) :
    (∃ us lx, Grammar.outcome Grammar.item s.lexer.rest = .ok none us ∧
      s.turn (bound + 1) = (.over, { s with lexer := lx })) ∨
    (∃ e us lx, Grammar.outcome Grammar.item s.lexer.rest = .error (.error e) us ∧
      s.turn (bound + 1) = (.rejected e.diagnostic, { s with lexer := lx })) ∨
    ∃ i lx, Grammar.outcome Grammar.item s.lexer.rest = .ok (some i) lx.rest ∧
      s.turn (bound + 1) =
        match Lowering.lowerItem i s.types with
        | (.ok types, t) => (.accepted i types, { s with lexer := lx, types := t })
        | (.error (.error e), t) => (.rejected e.diagnostic, { s with lexer := lx, types := t })
        | (.error (.refused _), t) => (.over, { s with lexer := lx, types := t }) := by
  have hread := readWithin_eq_outcome (show s.lexer.beginStatement.rest.length ≤ bound + 1 from Nat.le_succ_of_le h)
  rw [Lexer.rest_beginStatement] at hread
  rw [turn]
  rcases hr : Grammar.readWithin (bound + 1) Grammar.item s.lexer.beginStatement with ⟨r, lx⟩
  rw [hr] at hread
  cases ho : Grammar.outcome Grammar.item s.lexer.rest with
  | error stop us =>
      cases stop with
      | tooDeep => exact absurd ho (Grammar.finished_outcome Grammar.item s.lexer.rest us)
      | error e =>
          rw [ho] at hread
          obtain ⟨rfl, -⟩ := Prod.mk.inj hread
          exact .inr (.inl ⟨e, us, recover s.mode lx, rfl, rfl⟩)
  | ok o us =>
      rw [ho] at hread
      obtain ⟨rfl, rfl⟩ := Prod.mk.inj hread
      cases o with
      | none => exact .inl ⟨lx.rest, lx, rfl, rfl⟩
      | some i => exact .inr (.inr ⟨i, lx, rfl, rfl⟩)

theorem history_of_over (h : s.turn (bound + 1) = (.over, s')) :
    history (bound + 1) s = ([], s'.takePrompts.2) := by
  rw [history, h]

theorem history_of_accepted {i : Item Span} {types : ItemTypes} (h : s.turn (bound + 1) = (.accepted i types, s')) :
    history (bound + 1) s =
      (.accepted i types :: (history bound s'.takePrompts.2).1, (history bound s'.takePrompts.2).2) := by
  rw [history, h]

/-- A batch session ends where a turn is rejected. -/
theorem history_of_rejected {d : Diagnostic} (h : s.turn (bound + 1) = (.rejected d, s')) :
    ∃ later, (history (bound + 1) s).1 = .rejected d :: later ∧
      (s'.mode = .batch → later = [] ∧ (history (bound + 1) s).2.types = s'.types) := by
  rw [history, h]
  cases hmode : s'.mode with
  | batch => exact ⟨[], by simp [takePrompts, hmode]⟩
  | interactive => exact ⟨(history bound s'.takePrompts.2).1, by simp [takePrompts, hmode]⟩

end

/-- Up to the first diagnostic the turns are those of parsing all that the lexer has to give and then lowering the
items in order.  If there is no diagnostic or the session stops there, these are all turns. -/
theorem history_eq {bound : Nat} : ∀ {s : Session} {items : List (Item Span)} {error : Option ParseError}
    {left : List Entry} {accepted : List (Item Span × ItemTypes)} {stop : Option Lowering.Stop} {t : Interner},
    s.lexer.rest.length < bound → Grammar.readItems bound s.lexer.rest = (items, error, left) →
    Lowering.lowerAll items s.types = (accepted, stop, t) →
    ∃ later, (history bound s).1 =
        Turn.acceptAll accepted ++ ((firstDiagnostic stop error).map .rejected).toList ++ later ∧
      (s.mode = .batch ∨ firstDiagnostic stop error = none → later = [] ∧ (history bound s).2.types = t) := by
  induction bound with
  | zero => exact fun h => absurd h (Nat.not_lt_zero _)
  | succ bound ih =>
      intro s items error left accepted stop t hlen hitems hlower
      have hlen := Nat.le_of_lt_succ hlen
      rw [Grammar.readItems_succ hlen] at hitems
      obtain ⟨us, lx, ho, hturn⟩ | ⟨e, us, lx, ho, hturn⟩ | ⟨i, lx, ho, hturn⟩ := turn_cases hlen
      · rw [ho] at hitems
        cases hitems
        cases hlower
        rw [history_of_over hturn]
        exact ⟨[], rfl, fun _ => ⟨rfl, rfl⟩⟩
      · rw [ho] at hitems
        cases hitems
        cases hlower
        obtain ⟨later, hlater, hend⟩ := history_of_rejected hturn
        exact ⟨later, hlater, fun h => hend (h.resolve_right nofun)⟩
      · rw [ho] at hitems
        obtain ⟨rfl, hrest⟩ := Prod.mk.inj hitems
        rcases hl : Lowering.lowerItem i s.types with ⟨r, u⟩
        rw [hl] at hturn
        match r with
        | .error (.refused e) =>
            rw [Lowering.lowerAll_cons_error hl] at hlower
            cases hlower
            rw [history_of_over hturn]
            exact ⟨[], rfl, fun _ => ⟨rfl, rfl⟩⟩
        | .error (.error e) =>
            -- parsing goes on behind this item, so an error it ends with is not the first
            rw [Lowering.lowerAll_cons_error hl] at hlower
            cases hlower
            obtain ⟨later, hlater, hend⟩ := history_of_rejected hturn
            exact ⟨later, hlater, fun h => hend (h.resolve_right nofun)⟩
        | .ok types =>
            rw [Lowering.lowerAll_cons_ok hl] at hlower
            obtain ⟨rfl, hlater⟩ := Prod.mk.inj hlower
            have hlt := Nat.lt_of_lt_of_le (Grammar.length_lt_of_item ho) hlen
            obtain ⟨later, hturns, hend⟩ := @ih ({ s with lexer := lx, types := u } : Session).takePrompts.2 _ error
              left _ stop t hlt (Prod.ext rfl hrest) (Prod.ext rfl hlater)
            rw [history_of_accepted hturn, hturns]
            exact ⟨later, rfl, hend⟩

/-- A session with nothing read of a text. -/
def start (mode : Mode) (prompting : Prompting) (text : String) (types : Interner) : Session :=
  ⟨mode, { Lexer.fresh text with prompting }, types⟩

/-- The turns of a session, up to its end. -/
def turns (s : Session) : List Turn := (s.history (s.lexer.pending + 1)).1

theorem run_eq_turns (s : Session) :
    s.run.accepted = s.turns.filterMap Turn.accepted? ∧ s.run.errors = (s.turns.filterMap Turn.rejected?).length ∧
      reported s.run.events = s.turns.filterMap Turn.rejected? ∧
        s.run.final = (s.history (s.lexer.pending + 1)).2 := by
  obtain ⟨haccepted, herrors, hreported, hfinal⟩ := runWithin_eq_history (s.lexer.pending + 1) s
  unfold run
  cases s.mode with
  | interactive => exact ⟨haccepted, herrors, hreported, hfinal⟩
  | batch =>
      refine ⟨haccepted, herrors, ?_, hfinal⟩
      rw [turns, ← hreported]
      simp [reported, Event.diagnostic?]

/-- What parsing a text and then lowering its items gives. -/
structure Checked where
  /-- The items before the first that fails to lower, with their types. -/
  accepted : List (Item Span × ItemTypes)
  /-- What is wrong with the first item that fails to lower, or else why parsing ends. -/
  diagnostic : Option Diagnostic
  types : Interner

/-- Parses a text, then lowers its items in order. -/
def check (text : String) (t : Interner) : Checked :=
  let p := Program.parse text
  let (accepted, stop, t) := Lowering.lowerAll p.items t
  ⟨accepted, firstDiagnostic stop p.error, t⟩

theorem check_eq {text : String} {t u : Interner} {accepted : List (Item Span × ItemTypes)}
    {stop : Option Lowering.Stop} (h : Lowering.lowerAll (Program.parse text).items t = (accepted, stop, u)) :
    check text t = ⟨accepted, firstDiagnostic stop (Program.parse text).error, u⟩ := by
  rw [check, h]

section
variable (prompting : Prompting) (text : String) (t : Interner)

theorem length_rest_start (mode : Mode) :
    (Lexer.fresh text).rest.length < (start mode prompting text t).lexer.pending + 1 := by
  have := (start mode prompting text t).lexer.length_rest_le_pending
  rw [show (start mode prompting text t).lexer.rest = (Lexer.fresh text).rest from rfl] at this
  omega

theorem turns_start (mode : Mode) :
    ∃ later, (start mode prompting text t).turns =
        Turn.acceptAll (check text t).accepted ++ ((check text t).diagnostic.map .rejected).toList ++ later ∧
      (mode = .batch ∨ (check text t).diagnostic = none →
        later = [] ∧ (start mode prompting text t).run.final.types = (check text t).types) := by
  have hlen := length_rest_start prompting text t mode
  have hread : Grammar.readItems ((start mode prompting text t).lexer.pending + 1) (Lexer.fresh text).rest =
      ((Program.parse text).items, (Program.parse text).error, (Grammar.readAll (Lexer.fresh text).rest).2.2) := by
    have hall : Grammar.readItems ((start mode prompting text t).lexer.pending + 1) (Lexer.fresh text).rest =
        Grammar.readAll (Lexer.fresh text).rest :=
      Grammar.readItems_eq_readItems hlen (Nat.lt_succ_self _)
    rw [Program.items_eq, Program.error_eq, hall]
  rcases hlower : Lowering.lowerAll (Program.parse text).items t with ⟨accepted, stop, u⟩
  rw [check_eq hlower, (run_eq_turns _).2.2.2]
  exact history_eq hlen hread hlower

/-- A batch session on a text accepts and reports just what comes of parsing the text and then lowering its items, and
leaves the same types behind.  An interactive session accepts the same before its first diagnostic, which is the
same. -/
theorem run_eq_check :
    ((start .batch prompting text t).run.accepted = (check text t).accepted ∧
      (start .batch prompting text t).run.errors = (check text t).diagnostic.toList.length ∧
      reported (start .batch prompting text t).run.events = (check text t).diagnostic.toList ∧
      (start .batch prompting text t).run.final.types = (check text t).types) ∧
    ((start .interactive prompting text t).run.accepted =
        (start .interactive prompting text t).turns.filterMap Turn.accepted? ∧
      reported (start .interactive prompting text t).run.events =
        (start .interactive prompting text t).turns.filterMap Turn.rejected? ∧
      ((start .interactive prompting text t).turns.takeWhile fun turn => turn.rejected?.isNone).filterMap
        Turn.accepted? = (check text t).accepted ∧
      (reported (start .interactive prompting text t).run.events).head? = (check text t).diagnostic) := by
  constructor
  · obtain ⟨later, hturns, hend⟩ := turns_start prompting text t .batch
    obtain ⟨rfl, htypes⟩ := hend (.inl rfl)
    obtain ⟨haccepted, herrors, hreported, -⟩ := run_eq_turns (start .batch prompting text t)
    rw [haccepted, herrors, hreported, hturns]
    cases (check text t).diagnostic <;> simp [List.filterMap_append, Turn.accepted?, Turn.rejected?, htypes]
  · obtain ⟨later, hturns, hend⟩ := turns_start prompting text t .interactive
    obtain ⟨haccepted, -, hreported, -⟩ := run_eq_turns (start .interactive prompting text t)
    refine ⟨haccepted, hreported, ?_, ?_⟩
    · rw [hturns, List.append_assoc, Turn.takeWhile_acceptAll]
      cases hd : (check text t).diagnostic with
      | none =>
          obtain ⟨rfl, -⟩ := hend (.inr hd)
          simp
      | some d => simp [Turn.rejected?]
    · rw [hreported, hturns]
      cases hd : (check text t).diagnostic with
      | none =>
          obtain ⟨rfl, -⟩ := hend (.inr hd)
          simp
      | some d => simp [Turn.rejected?]

end

end Session

end SoundLang
