import SoundLang.Proofs.Lexer.Progress
import SoundLang.Proofs.Session.Rounds

/-! # Sessions come to their end

Each round that goes on leaves less of the input than it found (`Session.lessens_round`): an item takes a token at
least, and behind an error what is queued is dropped.  So every session comes to its end, and what it leaves behind is
what its rounds leave (`Session.run_of_runs`).  A lexical error that is reported stands on a line that no later round
reads again, so none is reported twice (`Session.nodup_lexicalErrors`). -/

namespace SoundLang

namespace Session

/-! ### Reading an item -/

/-- What an item is read as from a session, and what its lexer still has to give then. -/
theorem read_eq_outcome (s : Session) :
    (s.read.1, s.read.2.rest) =
      match Grammar.outcome Grammar.item s.lexer.rest with
      | .ok o us => (.ok o, us)
      | .error (.error e) us => (.error e, us)
      | .error .tooDeep us => (.ok none, us) := by
  have hlen : s.lexer.beginStatement.rest.length ≤ s.lexer.beginStatement.pending :=
    Nat.le_trans (Nat.le_add_right _ _) s.lexer.beginStatement.length_rest_le_pending
  exact readWithin_eq_outcome hlen

/-- An item is read from one token at least, nothing only where nothing is left, and an error only where something
is. -/
theorem rest_read (s : Session) :
    match s.read.1 with
    | .ok none => s.lexer.rest = []
    | .ok (some _) => ∃ ts : List Token, ts ≠ [] ∧ s.lexer.rest = ts.map .ok ++ s.read.2.rest
    | .error _ => s.lexer.rest ≠ [] := by
  have hread := read_eq_outcome s
  cases ho : Grammar.outcome Grammar.item s.lexer.rest with
  | ok o us =>
      have hspec := Grammar.spec_item ho
      rw [ho] at hread
      obtain ⟨hfst, hsnd⟩ := Prod.mk.inj hread
      rw [hfst, hsnd]
      cases o with
      | none => exact hspec.1
      | some i =>
          obtain ⟨ts, hts, hi⟩ := hspec
          exact ⟨ts, hi.ne_nil, hts⟩
  | error stop us =>
      cases stop with
      | tooDeep => exact absurd ho (Grammar.finished_outcome Grammar.item s.lexer.rest us)
      | error e =>
          rw [ho] at hread
          rw [(Prod.mk.inj hread).1]
          intro hnil
          rw [hnil] at ho
          cases ho

/-- An item is read as it is after a look at the next token. -/
theorem read_eq_readWithin_fill (s : Session) :
    s.read = Grammar.readWithin s.lexer.pending Grammar.item s.lexer.beginStatement.fill := by
  have hpeek : TokenSource.peek s.lexer.beginStatement.fill = TokenSource.peek s.lexer.beginStatement := by
    change s.lexer.beginStatement.fill.peek = s.lexer.beginStatement.peek
    rw [Lexer.peek, Lexer.peek, Lexer.fill_of_filled s.lexer.beginStatement.fill_filled]
  rw [Grammar.readWithin, Grammar.run_item_congr hpeek]
  rfl

/-! ### What a round keeps, and what it lessens -/

/-- Reading an item leaves less, or as much as it finds after a look at the next token. -/
theorem onward_read (s : Session) : Lexer.Onward s.lexer.beginStatement.fill s.read.2 := by
  rw [read_eq_readWithin_fill]
  exact (Grammar.kept_item (Lexer.keeps_onward _) _ (.inl rfl)).1

/-- An item that is read leaves less. -/
theorem lessens_of_item {s : Session} {i : Item Span} (h : s.read.1 = .ok (some i)) :
    Lexer.Lessens s.lexer.beginStatement s.read.2 := by
  refine (s.lexer.beginStatement.onward_fill.trans (onward_read s)).resolve_left fun heq => ?_
  have hrest := rest_read s
  rw [h, heq] at hrest
  obtain ⟨ts, hts, hrest⟩ := hrest
  have hlen := congrArg List.length hrest
  simp only [Lexer.rest_beginStatement, List.length_append, List.length_map] at hlen
  exact hts (List.length_eq_zero_iff.mp (by omega))

/-- An error leaves less, once what is queued is dropped. -/
theorem lessens_of_error {s : Session} {e : ParseError} (h : s.read.1 = .error e) :
    Lexer.Lessens s.lexer.beginStatement s.read.2.discard := by
  have hrest := rest_read s
  rw [h] at hrest
  have hqueue : s.lexer.beginStatement.fill.queue ≠ [] := fun hnil =>
    hrest ((Lexer.rest_fill s.lexer.beginStatement).symm.trans
      (Lexer.rest_of_filled_nil s.lexer.beginStatement.fill_filled hnil))
  have hdrop : Lexer.Lessens s.lexer.beginStatement.fill s.read.2.discard := by
    obtain heq | hless := onward_read s
    · rw [heq]
      exact Lexer.lessens_discard hqueue
    · exact hless.discard
  obtain heq | hless := s.lexer.beginStatement.onward_fill
  · exact heq ▸ hdrop
  · exact hless.trans hdrop

/-- A round that goes on leaves less. -/
theorem lessens_round {s : Session} (h : s.round.1.verdict.goesOn s.mode = true) :
    Lexer.Lessens s.lexer s.round.2.lexer := by
  have hlexer := lexer_round s
  rw [parseError?_round] at hlexer
  -- statements begun and prompts taken are no part of what is left
  obtain ⟨i, hr⟩ | ⟨e, hr, hmode⟩ := read_of_goesOn s h
  · rw [hr] at hlexer
    rw [hlexer]
    exact ⟨(lessens_of_item hr).left, (lessens_of_item hr).pending⟩
  · rw [hr, hmode] at hlexer
    rw [hlexer]
    exact ⟨(lessens_of_error hr).left, (lessens_of_error hr).pending⟩

/-- Nothing is read only where the reader has ended and nothing is queued. -/
theorem exhausted_of_none {s : Session} (h : s.read.1 = .ok none) : s.read.2.Exhausted := by
  have hrest := rest_read s
  rw [h] at hrest
  have hfill : s.lexer.beginStatement.fill.Exhausted := by
    have hnil : s.lexer.beginStatement.fill.rest = [] := (Lexer.rest_fill _).trans hrest
    have hqueue := (List.append_eq_nil_iff.mp hnil).1
    exact ⟨s.lexer.beginStatement.fill_filled hqueue, hqueue⟩
  rw [read_eq_readWithin_fill]
  exact (Grammar.kept_item Lexer.keeps_exhausted _ hfill).1

/-- Behind the end nothing is read. -/
theorem read_of_exhausted {s : Session} (h : s.lexer.Exhausted) : s.read.1 = .ok none := by
  have hrest := rest_read s
  rw [show s.lexer.rest = [] by simp [Lexer.rest, h.1, h.2]] at hrest
  rcases hr : s.read.1 with e | _ | i
  · rw [hr] at hrest
    exact absurd rfl hrest
  · rfl
  · rw [hr] at hrest
    obtain ⟨ts, hts, hnil⟩ := hrest
    exact absurd (List.map_eq_nil_iff.mp (List.append_eq_nil_iff.mp hnil.symm).1) hts

/-! ### Runs -/

/-- Every session comes to its end. -/
theorem exists_runs (s : Session) : ∃ rounds final, Runs s rounds final := by
  induction hleft : s.lexer.left using WellFoundedLT.induction generalizing s with
  | ind n ih =>
      cases hgoes : s.round.1.verdict.goesOn s.mode with
      | false => exact ⟨_, _, .last hgoes⟩
      | true =>
          obtain ⟨rounds, final, hruns⟩ := ih _ (hleft ▸ (lessens_round hgoes).left) s.round.2 rfl
          exact ⟨_, _, .more hgoes hruns⟩

/-- A result with another round before it. -/
def Result.after (r : Round) (rest : Result) : Result where
  accepted := r.verdict.accepted?.toList ++ rest.accepted
  errors := r.verdict.diagnostic?.toList.length + rest.errors
  events := r.events ++ rest.events
  final := rest.final

theorem Result.ofRounds_cons (r : Round) (rounds : List Round) (final : Session) :
    ofRounds .interactive (r :: rounds) final = .after r (ofRounds .interactive rounds final) := by
  unfold ofRounds after
  cases ha : r.verdict.accepted? <;> cases hd : r.verdict.diagnostic? <;> simp [ha, hd, Nat.add_comm]

theorem runWithin_succ {s : Session} {bound : Nat} (h : s.lexer.pending ≤ bound + 1) :
    runWithin (bound + 1) s = .after s.round.1
      (if s.round.1.verdict.goesOn s.mode then runWithin bound s.round.2 else ⟨[], 0, [], s.round.2⟩) := by
  rw [runWithin, turn_eq_judge h]
  have hprompts : s.judge.2.takePrompts = (s.round.1.prompts.map .prompt, s.round.2) := rfl
  have hverdict : s.round.1.verdict = s.judge.1 := rfl
  have hlog : s.round.2.lexer.log = s.round.1.log := rfl
  simp only [hprompts, Result.after, Round.events, hverdict]
  cases s.judge.1 with
  | accepted i types => simp [Verdict.turn, Verdict.goesOn, Verdict.accepted?, Verdict.diagnostic?]
  | ended | full e => simp [Verdict.turn, Verdict.goesOn, Verdict.accepted?, Verdict.diagnostic?]
  | malformed e | mistyped e =>
      cases hm : s.mode <;>
        simp [hm, hlog, Verdict.turn, Verdict.goesOn, Verdict.accepted?, Verdict.diagnostic?, Nat.add_comm]

/-- A run with turns enough gives what its rounds give. -/
theorem runWithin_of_runs {s final : Session} {rounds : List Round} (h : Runs s rounds final) {bound : Nat}
    (hbound : s.lexer.pending < bound) : runWithin bound s = .ofRounds .interactive rounds final := by
  induction h generalizing bound with
  | last hends =>
      obtain ⟨bound, rfl⟩ := Nat.exists_eq_succ_of_ne_zero (Nat.ne_of_gt (Nat.zero_lt_of_lt hbound))
      rw [runWithin_succ (Nat.le_of_lt hbound), hends, Result.ofRounds_cons]
      rfl
  | more hgoes _ ih =>
      obtain ⟨bound, rfl⟩ := Nat.exists_eq_succ_of_ne_zero (Nat.ne_of_gt (Nat.zero_lt_of_lt hbound))
      have hless := (lessens_round hgoes).pending
      rw [runWithin_succ (Nat.le_of_lt hbound), hgoes, if_pos rfl, ih (by omega), Result.ofRounds_cons]

/-- A session leaves behind what its rounds leave. -/
theorem run_of_runs {s final : Session} {rounds : List Round} (h : Runs s rounds final) :
    s.run = .ofRounds s.mode rounds final := by
  unfold run
  rw [runWithin_of_runs h (Nat.lt_succ_self _)]
  cases s.mode with
  | interactive => rfl
  | batch => simp [Result.ofRounds]

/-! ### Lexical errors -/

/-- The lexical error that a round reports. -/
def Round.lexicalError? (r : Round) : Option LexError := r.verdict.parseError?.bind ParseError.lexical?

section
variable {input : Input} {prompting : Prompting} {s final : Session} {rounds : List Round} {n : Nat}

theorem beyond_read (htracks : s.lexer.Tracks input prompting) (hbeyond : s.lexer.Beyond n) :
    (s.read.2.Tracks input prompting ∧ s.read.2.Beyond n) ∧ ∀ e, s.read.1 = .error (.lexical e) →
      Lexer.Met e s.read.2 ∧ (s.read.2.ended = false → n < s.read.2.log.size) :=
  Grammar.kept_item (Lexer.keeps_beyond input prompting n) _
    ⟨htracks.call .beginStatement, hbeyond.lines, hbeyond.queued⟩

/-- A round keeps track of the input, and reads on behind the first `n` lines. -/
theorem beyond_round (htracks : s.lexer.Tracks input prompting) (hbeyond : s.lexer.Beyond n) :
    s.round.2.lexer.Tracks input prompting ∧ s.round.2.lexer.Beyond n := by
  obtain ⟨⟨htracks, hbeyond⟩, -⟩ := beyond_read htracks hbeyond
  have hrecover : (recover s.mode s.read.2).Tracks input prompting ∧ (recover s.mode s.read.2).Beyond n := by
    cases s.mode with
    | interactive => exact ⟨htracks.call .discard, hbeyond.lines, fun _ hne => absurd rfl hne⟩
    | batch => exact ⟨htracks, hbeyond⟩
  have htake : ∀ lx : Lexer, lx.Tracks input prompting ∧ lx.Beyond n →
      lx.takePrompts.2.Tracks input prompting ∧ lx.takePrompts.2.Beyond n := fun lx h =>
    ⟨⟨h.1.prompting, h.1.lines, h.1.unread, h.1.ended, h.1.queued, h.1.left⟩, h.2.lines, h.2.queued⟩
  rw [lexer_round]
  split
  · exact htake _ hrecover
  · exact htake _ ⟨htracks, hbeyond⟩

/-- A round that reports a lexical error has met it. -/
theorem met_of_lexicalError? (htracks : s.lexer.Tracks input prompting) (hbeyond : s.lexer.Beyond n) {e : LexError}
    (he : s.round.1.lexicalError? = some e) :
    Lexer.Met e s.round.2.lexer ∧ (s.round.2.lexer.ended = false → n < s.round.2.lexer.log.size) := by
  have hread : s.read.1 = .error (.lexical e) := by
    rw [Round.lexicalError?, parseError?_round] at he
    cases hr : s.read.1 with
    | ok o => simp [hr] at he
    | error e' => cases e' <;> simp_all [ParseError.lexical?]
  obtain ⟨hmet, hlt⟩ := (beyond_read htracks hbeyond).2 e hread
  have hended : s.round.2.lexer.ended = s.read.2.ended := by
    rw [lexer_round]
    cases s.mode <;> split <;> rfl
  have hlog : s.round.2.lexer.log = s.read.2.log := by
    rw [lexer_round]
    cases s.mode <;> split <;> rfl
  rw [hended, hlog]
  exact ⟨hmet.congr hended hlog, hlt⟩

/-- Behind a syntax error nothing is queued in an interactive session. -/
theorem queue_of_parseError? {e : ParseError} (he : s.round.1.verdict.parseError? = some e)
    (hmode : s.mode = .interactive) : s.round.2.lexer.queue = [] := by
  rw [lexer_round, he, hmode]
  rfl

/-- What is reported from a session on is found behind the lines that it has done with. -/
theorem line_of_runs (h : Runs s rounds final) (htracks : s.lexer.Tracks input prompting)
    (hbeyond : s.lexer.Beyond n) :
    ∀ e ∈ rounds.filterMap Round.lexicalError?, ∀ line, e.line? = some line → n ≤ line := by
  have hround : ∀ s : Session, s.lexer.Tracks input prompting → s.lexer.Beyond n →
      ∀ e, s.round.1.lexicalError? = some e → ∀ line, e.line? = some line → n ≤ line := by
    intro s htracks hbeyond e he line hline
    obtain ⟨hmet, hlt⟩ := met_of_lexicalError? htracks hbeyond he
    cases hmet with
    | onLine line' hended hline' hsize =>
        cases hline.symm.trans hline'
        have := hlt hended
        omega
    | atEnd _ hnone => cases hline.symm.trans hnone
  induction h with
  | @last s hends =>
      intro e he
      obtain ⟨r, hr, he⟩ := List.mem_filterMap.mp he
      cases List.mem_singleton.mp hr
      exact hround s htracks hbeyond e he
  | @more s final rounds hgoes _ ih =>
      intro e he
      obtain ⟨r, hr, he⟩ := List.mem_filterMap.mp he
      obtain rfl | hr := List.mem_cons.mp hr
      · exact hround s htracks hbeyond e he
      · obtain ⟨htracks, hbeyond⟩ := beyond_round htracks hbeyond
        exact ih htracks hbeyond e (List.mem_filterMap.mpr ⟨r, hr, he⟩)

/-- Behind the end no lexical error is reported. -/
theorem lexicalErrors_of_exhausted (h : Runs s rounds final) (hexhausted : s.lexer.Exhausted) :
    rounds.filterMap Round.lexicalError? = [] := by
  have hread := read_of_exhausted hexhausted
  cases h with
  | last hends => simp [Round.lexicalError?, parseError?_round, hread]
  | more hgoes _ => obtain ⟨i, hr⟩ | ⟨e, hr, -⟩ := read_of_goesOn s hgoes <;> simp [hread] at hr

/-- A lexical error that a session reports is not reported again by the rounds behind it. -/
theorem notMem_lexicalErrors {e : LexError} (htracks : s.lexer.Tracks input prompting)
    (hgoes : s.round.1.verdict.goesOn s.mode = true) (he : s.round.1.lexicalError? = some e)
    (h : Runs s.round.2 rounds final) : e ∉ rounds.filterMap Round.lexicalError? := by
  intro hmem
  have hqueue : s.round.2.lexer.queue = [] := by
    obtain ⟨e', hparse, -⟩ := Option.bind_eq_some_iff.mp he
    refine queue_of_parseError? hparse ?_
    obtain ⟨i, hr⟩ | ⟨_, -, hmode⟩ := read_of_goesOn s hgoes
    · simp [parseError?_round, hr] at hparse
    · exact hmode
  have hbeyond := htracks.beyond_zero
  cases (met_of_lexicalError? htracks hbeyond he).1 with
  | onLine line hended hline hsize =>
      -- with nothing queued, what is met from here on stands behind this line
      have hbehind : s.round.2.lexer.Beyond (line + 1) := ⟨hsize.ge, fun _ hne => absurd hqueue hne⟩
      have hle := line_of_runs h (beyond_round htracks hbeyond).1 hbehind e hmem line hline
      omega
  | atEnd hended _ =>
      rw [lexicalErrors_of_exhausted h ⟨hended, hqueue⟩] at hmem
      cases hmem

/-- No lexical error is reported twice. -/
theorem nodup_lexicalErrors (h : Runs s rounds final) (htracks : s.lexer.Tracks input prompting) :
    (rounds.filterMap Round.lexicalError?).Nodup := by
  induction h with
  | @last s hends => cases he : s.round.1.lexicalError? <;> simp [he]
  | @more s final rounds hgoes hruns ih =>
      have hlater := ih (beyond_round htracks htracks.beyond_zero).1
      cases he : s.round.1.lexicalError? with
      | none => simpa [he] using hlater
      | some e =>
          rw [List.filterMap_cons_some he]
          exact List.nodup_cons.mpr ⟨notMem_lexicalErrors htracks hgoes he hruns, hlater⟩

end

/-! ### Progress -/

/-- A session in which nothing of an input has been read. -/
def opened (mode : Mode) (prompting : Prompting) (input : Input) (types : Interner) : Session :=
  ⟨mode, .opened input prompting, types⟩

/-- What the next round of a session does to what is left of the input. -/
structure Progress (s : Session) : Prop where
  /-- An item takes one token at least from those to come. -/
  consumes : ∀ i, s.read.1 = .ok (some i) → ∃ ts : List Token, ts ≠ [] ∧ s.lexer.rest = ts.map .ok ++ s.read.2.rest
  /-- Nothing is read only where the reader has ended and nothing is queued. -/
  exhausted : s.read.1 = .ok none → s.read.2.ended = true ∧ s.read.2.queue = []
  /-- Behind a lexical or syntax error nothing is queued in an interactive session. -/
  dropped : s.mode = .interactive → ∀ e, s.round.1.verdict.parseError? = some e → s.round.2.lexer.queue = []
  /-- If the session goes on, less is left: lines, or the end of the input, or entries that are queued. -/
  lessens : s.round.1.verdict.goesOn s.mode = true → s.round.2.lexer.left < s.lexer.left

theorem progress (s : Session) : Progress s where
  consumes i h := by
    have hrest := rest_read s
    rw [h] at hrest
    exact hrest
  exhausted := exhausted_of_none
  dropped hmode _ he := queue_of_parseError? he hmode
  lessens h := (lessens_round h).left

end Session

end SoundLang
