import SoundLang.Proofs.Lexer.Stepped
import SoundLang.Proofs.Session.Shared

/-! # Sessions with stored positions

A session whose lexer stores positions goes through its rounds like any other, as long as steps are granted
(`Session.roundWithin`).  It comes to its end when some number of steps is enough (`Session.endWithin`), and there it
returns what its rounds leave, or stops where a type cannot be stored (`Session.Ending`).

Where all positions can be stored, its rounds are the rounds of the session (`Session.roundWithin_eq`), so each makes
progress and the last one comes (`Session.finishes_of_storable`).  On a line that is longer it may not come, and behind
a read that has failed it comes before lines that are not read (`Session.endless_or_cut_short`). -/

namespace SoundLang

namespace Session

/-- How a session ends. -/
inductive Ending where
  | returned (result : Result)
  /-- A type cannot be stored.  Nothing is returned then. -/
  | aborted (error : InternError)

def Ending.result? : Ending → Option Result
  | returned r => some r
  | aborted _ => none

/-- Why a type cannot be stored, if this ends the round. -/
def Verdict.refusal? : Verdict → Option InternError
  | full e => some e
  | _ => none

/-- How a session ends that has gone through its rounds. -/
def Ending.ofRounds (mode : Mode) (rounds : List Round) (final : Session) : Ending :=
  match rounds.findSome? (·.verdict.refusal?) with
  | some e => .aborted e
  | none => .returned (.ofRounds mode rounds final)

/-- Reads what comes first in a session whose lexer stores positions, unless it takes more than `steps` steps to scan a
line, or to follow a rule. -/
def readStepped (steps : Nat) (s : Session) : Option (Except ParseError (Option (Item Span)) × Lexer) :=
  match Grammar.item.run (Parse.runRule Rule.body steps) (s.lexer.beginStatement.stepped steps) with
  | .ok o w => if w.stuck then none else some (.ok o, w.lexer)
  | .error (.error e) w => if w.stuck then none else some (.error e, w.lexer)
  | .error .tooDeep _ => none

/-- What a session makes of what it has read. -/
def conclude (s : Session) : Except ParseError (Option (Item Span)) × Lexer → Verdict × Session
  | (.ok none, lx) => (.ended, { s with lexer := lx })
  | (.error e, lx) => (.malformed e, { s with lexer := recover s.mode lx })
  | (.ok (some i), lx) =>
    let (r, t) := Lowering.lowerItem i s.types
    (.lowered i r, { s with lexer := lx, types := t })

/-- The next round of a session whose lexer stores positions. -/
def roundWithin (steps : Nat) (s : Session) : Option (Round × Session) :=
  (s.readStepped steps).map fun r =>
    let (verdict, s) := s.conclude r
    (⟨s.lexer.takePrompts.1, verdict, s.lexer.log⟩, s.takePrompts.2)

/-- The rounds of such a session up to its end, if they are `bound` at most. -/
def roundsWithin (steps : Nat) : Nat → Session → Option (List Round × Session)
  | 0, _ => none
  | bound + 1, s =>
    match s.roundWithin steps with
    | none => none
    | some (r, s') =>
      if r.verdict.goesOn s.mode then (roundsWithin steps bound s').map fun (rounds, final) => (r :: rounds, final)
      else some ([r], s')

/-- How a session whose lexer stores positions ends, if `steps` steps are enough. -/
def endWithin (steps : Nat) (s : Session) : Option Ending :=
  (s.roundsWithin steps steps).map fun (rounds, final) => .ofRounds s.mode rounds final

/-! ### Where all positions can be stored -/

theorem judge_eq_conclude (s : Session) : s.judge = s.conclude s.read := by
  unfold judge conclude
  obtain ⟨e | (_ | i), lx⟩ := s.read <;> rfl

/-- The steps are enough for the lines that a session reads, and for the rules that it follows. -/
structure Granted (steps : Nat) (s : Session) : Prop where
  fits : s.lexer.Fits steps
  depth : Grammar.depth s.lexer.pending ≤ steps

section
variable {steps : Nat} {s : Session}

/-- With steps enough an item is read as without stored positions: the lexers that need no more steps are a source of
which both kinds of lexers are images. -/
theorem readStepped_eq (h : s.Granted steps) : s.readStepped steps = some s.read := by
  let x : Lexer.Fitting steps := ⟨s.lexer.beginStatement, h.fits.storable, h.fits.enough⟩
  have hlength : s.lexer.beginStatement.rest.length ≤ s.lexer.pending :=
    Nat.le_trans (Nat.le_add_right _ _) s.lexer.beginStatement.length_rest_le_pending
  have hstepped : Parse.mapSource (fun x => x.1.stepped steps) (Grammar.item.run (Parse.runRule Rule.body steps) x) =
      Grammar.item.run (Parse.runRule Rule.body steps) (s.lexer.beginStatement.stepped steps) :=
    Parse.run_maps Lexer.Fitting.maps_stepped (Parse.runRule_maps Lexer.Fitting.maps_stepped Rule.body steps) _ x
  have hlexer : Parse.mapSource (fun x => x.1) (Grammar.item.run (Parse.runRule Rule.body steps) x) =
      Grammar.item.run (Parse.runRule Rule.body (Grammar.depth s.lexer.pending)) s.lexer.beginStatement :=
    (Parse.run_maps Lexer.Fitting.maps_lexer (Parse.runRule_maps Lexer.Fitting.maps_lexer Rule.body steps) _ x).trans
      (Grammar.run_of_le Lexer.lawful Grammar.item hlength h.depth)
  have hfinished := Grammar.finished_run Lexer.lawful Grammar.item hlength
  have hread : s.read = Grammar.readWithin s.lexer.pending Grammar.item s.lexer.beginStatement := rfl
  rw [← hlexer] at hfinished
  rw [hread, readStepped, Grammar.readWithin, ← hstepped, ← hlexer]
  cases hrun : Grammar.item.run (Parse.runRule Rule.body steps) x with
  | ok o x' => rfl
  | error stop x' =>
      cases stop with
      | error e => rfl
      | tooDeep =>
          rw [hrun] at hfinished
          exact absurd rfl (hfinished x'.1)

theorem roundWithin_eq (h : s.Granted steps) : s.roundWithin steps = some s.round := by
  rw [roundWithin, readStepped_eq h, Option.map_some, ← judge_eq_conclude]
  rfl

/-- The lines that a session has read and has still to read stay the same. -/
theorem source_read (s : Session) : s.read.2.source = s.lexer.source := by
  have hkeeps : TokenSource.Keeps (fun lx : Lexer => lx.source = s.lexer.source) fun _ _ => True :=
    ⟨fun lx h => ⟨lx.source_fill.trans h, fun _ _ => trivial⟩, fun lx h => ⟨lx.source_fill.trans h, fun _ _ => trivial⟩⟩
  exact (Grammar.kept_item hkeeps s.lexer.pending (show s.lexer.beginStatement.source = _ from rfl)).1

theorem source_round (s : Session) : s.round.2.lexer.source = s.lexer.source := by
  rw [lexer_round, ← source_read s]
  cases s.mode <;> split <;> rfl

theorem Granted.round (h : s.Granted steps) (hgoes : s.round.1.verdict.goesOn s.mode = true) :
    s.round.2.Granted steps := by
  have hless := (lessens_round hgoes).pending
  have hdepth := h.depth
  refine ⟨⟨(source_round s).symm ▸ h.fits.storable, (source_round s).symm ▸ h.fits.enough⟩, ?_⟩
  unfold Grammar.depth at hdepth ⊢
  omega

theorem Granted.comes {u : Session} {before : List Round} (h : s.Granted steps) (hcomes : Comes s before u) :
    u.Granted steps := by
  induction hcomes with
  | none s => exact h
  | more hgoes _ ih => exact ih (h.round hgoes)

theorem roundsWithin_of_runs {final : Session} {rounds : List Round} (hruns : Runs s rounds final)
    (h : s.Granted steps) {bound : Nat} (hbound : s.lexer.pending < bound) :
    s.roundsWithin steps bound = some (rounds, final) := by
  induction hruns generalizing bound with
  | last hends =>
      obtain ⟨bound, rfl⟩ := Nat.exists_eq_succ_of_ne_zero (Nat.ne_of_gt (Nat.zero_lt_of_lt hbound))
      simp only [roundsWithin, roundWithin_eq h, hends]
      rfl
  | more hgoes _ ih =>
      obtain ⟨bound, rfl⟩ := Nat.exists_eq_succ_of_ne_zero (Nat.ne_of_gt (Nat.zero_lt_of_lt hbound))
      have hless := (lessens_round hgoes).pending
      have hrest := ih (h.round hgoes) (show _ < bound by omega)
      simp only [roundsWithin, roundWithin_eq h, hgoes, if_true, hrest]
      rfl

end

/-- A session stops at a type that cannot be stored only where all ids of a shape are given away. -/
theorem full_of_aborted {s final : Session} {rounds : List Round} {e : InternError} (hruns : Runs s rounds final)
    (ht : s.types.Lawful) (h : Ending.ofRounds s.mode rounds final = .aborted e) :
    ∃ shape, TypeId.capacity ≤ (final.types.ofShape shape).size := by
  have hfull : ∃ r ∈ rounds, r.verdict.isFull = true := by
    unfold Ending.ofRounds at h
    split at h
    · next e' he =>
        obtain ⟨r, hr, hverdict⟩ := List.exists_of_findSome?_eq_some he
        refine ⟨r, hr, ?_⟩
        cases hv : r.verdict <;> simp [hv, Verdict.refusal?, Verdict.isFull] at hverdict ⊢
    · cases h
  exact (types_of_runs hruns ht).2.2.2 hfull

theorem granted_opened {input : Input} (hstorable : Storable input.logged) (mode : Mode) (prompting : Prompting)
    (types : Interner) {steps : Nat} (hsteps : Grammar.depth (Lexer.promised input + 2) ≤ steps) :
    (opened mode prompting input types).Granted steps := by
  have hsource : (opened mode prompting input types).lexer.source = input.logged := rfl
  have hpending : (opened mode prompting input types).lexer.pending = Lexer.promised input + 2 := by
    simp [opened, Lexer.opened, Lexer.pending, Nat.add_comm]
  refine ⟨⟨hsource ▸ hstorable, hsource ▸ fun line hline => ?_⟩, hpending ▸ hsteps⟩
  have hless := Lexer.length_lt_promised line hline
  unfold Grammar.depth at hsteps
  omega

/-! ### Sessions finish -/

/-- A session on an input comes to its end through its rounds, with stored positions as without, when `enough` steps
are granted. -/
structure Finishes (input : Input) (s : Session) (rounds : List Round) (final : Session) (enough : Nat) : Prop where
  runs : Runs s rounds final
  /-- What the session leaves behind. -/
  run : s.run = .ofRounds s.mode rounds final
  ends : ∀ steps, enough ≤ steps → s.endWithin steps = some (.ofRounds s.mode rounds final)
  /-- It stops at a type that cannot be stored only where all ids of a shape are given away. -/
  full : s.types.Reachable → ∀ e, Ending.ofRounds s.mode rounds final = .aborted e →
    ∃ shape, TypeId.capacity ≤ (final.types.ofShape shape).size
  /-- Each round is what it is without stored positions, and makes progress. -/
  round : ∀ before u, Comes s before u → Progress u ∧ ∀ steps, enough ≤ steps → u.roundWithin steps = some u.round
  /-- Nothing is read only where the lines of the input have been read up to its end or to a read that fails. -/
  read : ∀ before u, Comes s before u → u.read.1 = .ok none → u.read.2.log.lines.toList = input.logged
  /-- No lexical error is reported twice. -/
  nodup : (rounds.filterMap Round.lexicalError?).Nodup

/-- Where all positions in the lines of an input can be stored every session on it finishes. -/
theorem finishes_of_storable {input : Input} (h : Storable input.logged) (mode : Mode) (prompting : Prompting)
    (types : Interner) : ∃ rounds final enough, Finishes input (opened mode prompting input types) rounds final enough := by
  obtain ⟨rounds, final, hruns⟩ := exists_runs (opened mode prompting input types)
  have hgranted : ∀ steps, Grammar.depth (Lexer.promised input + 2) ≤ steps →
      (opened mode prompting input types).Granted steps := fun _ => granted_opened h mode prompting types
  refine ⟨rounds, final, Grammar.depth (Lexer.promised input + 2), hruns, run_of_runs hruns, fun steps hsteps => ?_,
    fun ht e he => full_of_aborted hruns ht.lawful he, fun before u hcomes => ⟨progress u, fun steps hsteps => ?_⟩,
    fun before u hcomes hread => ?_, nodup_lexicalErrors hruns (Lexer.tracks_opened input prompting)⟩
  · have hbound : (opened mode prompting input types).lexer.pending < steps := by
      have hdepth := (hgranted steps hsteps).depth
      unfold Grammar.depth at hdepth
      omega
    rw [endWithin, roundsWithin_of_runs hruns (hgranted steps hsteps) hbound]
    rfl
  · exact roundWithin_eq ((hgranted steps hsteps).comes hcomes)
  · have hsource : u.lexer.source = input.logged :=
      hcomes.keeps (P := fun u => u.lexer.source = input.logged) (fun u hu => (source_round u).trans hu) rfl
    have hlines := (source_read u).trans hsource
    rwa [Lexer.source, (exhausted_of_none hread).1, if_pos rfl, List.append_nil] at hlines

/-- Behind an item a character that starts no token, a line that is no item, one with a wrong annotation, and a read
that fails before another line. -/
def mixed : Input := [.line "a; @", .line "b c", .line "let d: e = 1;", .failed "lost", .line "f;"]

theorem finishes_of_storable_mixed :
    Storable mixed.logged ∧
      (∃ rounds final enough, Finishes mixed (opened .interactive .shown mixed .initial) rounds final enough) ∧
      (opened .interactive .shown mixed .initial).run.errors = 4 ∧
      (opened .interactive .shown mixed .initial).run.accepted.length = 1 := by
  have hstorable : Storable mixed.logged := ⟨by decide, by decide⟩
  exact ⟨hstorable, finishes_of_storable hstorable .interactive .shown .initial, by decide +kernel⟩

/-! ### Where some cannot -/

/-- Nothing comes of reading when the lexer gets stuck on the look that it starts with. -/
theorem readStepped_of_stuck {steps : Nat} {s : Session} (h : (s.lexer.beginStatement.stepped steps).fill.Stuck) :
    s.readStepped steps = none := by
  have hpeek : TokenSource.peek (s.lexer.beginStatement.stepped steps).fill =
      TokenSource.peek (s.lexer.beginStatement.stepped steps) := by
    change (s.lexer.beginStatement.stepped steps).fill.peek = (s.lexer.beginStatement.stepped steps).peek
    rw [Lexer.Stepped.peek, Lexer.Stepped.peek, Lexer.Stepped.fill_of_ended h.ended]
  have hkept := Grammar.kept_run_item Lexer.Stepped.keeps_stuck steps h
  rw [Grammar.run_item_congr hpeek] at hkept
  unfold readStepped
  cases hrun : Grammar.item.run (Parse.runRule Rule.body steps) (s.lexer.beginStatement.stepped steps) with
  | ok o w =>
      rw [hrun] at hkept
      exact if_pos hkept.stuck
  | error stop w =>
      rw [hrun] at hkept
      cases stop with
      | error e => exact if_pos hkept.1.stuck
      | tooDeep => rfl

/-- On a first line that has no end no number of steps is enough. -/
theorem endWithin_of_padded {n : Nat} (hn : Pos.widest ≤ n) (mode : Mode) (prompting : Prompting) (rest : Input)
    (types : Interner) (steps : Nat) :
    (opened mode prompting (.line (String.ofList (Lexer.padded n)) :: rest) types).endWithin steps = none := by
  have hread : (opened mode prompting (.line (String.ofList (Lexer.padded n)) :: rest) types).readStepped steps = none :=
    readStepped_of_stuck (Lexer.Stepped.stuck_fill hn rfl rfl rfl rfl (Nat.zero_le _) steps)
  cases steps with
  | zero => rfl
  | succ steps => simp only [endWithin, roundsWithin, roundWithin, hread, Option.map_none]

/-- A word that starts at the last byte that can be stored, so that its line has 2^32 bytes. -/
def farWord : Input := [.line (String.ofList (Lexer.padded Pos.widest))]

/-- A line that is no text, in front of one that is. -/
def unreadableFirst : Input := .ofBytes [0xff, 0x0a, 0x61, 0x3b, 0x0a] none

/-- A session on the first input does not end.  One on the second finds nothing more to read and ends while a line is
left. -/
theorem endless_or_cut_short :
    (¬ ∃ steps ending, (opened .batch .off farWord .initial).endWithin steps = some ending) ∧
      (((opened .interactive .off unreadableFirst .initial).endWithin 20).bind Ending.result?).map
        (·.final.lexer.unread) = some [.line "a;"] := by
  refine ⟨?_, by decide +kernel⟩
  rintro ⟨steps, ending, h⟩
  rw [farWord, endWithin_of_padded (Nat.le_refl _)] at h
  cases h

end Session

end SoundLang
