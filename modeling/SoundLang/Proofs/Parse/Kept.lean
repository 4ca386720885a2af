import SoundLang.Proofs.Parse.Moved

/-! # What is kept while a phrase is read

A procedure changes its source by looking at tokens and taking them, and by nothing else.  So what these two calls keep
of a source is kept by every run, and a lexical error that a run ends with is one that the source has just answered
(`TokenSource.Keeps`, `Grammar.kept_item`). -/

namespace SoundLang

variable {σ α : Type}

/-- At the end of a run `I` holds of the source, and `Q` if it is a lexical error that the run ends with. -/
def Parse.Kept (I : σ → Prop) (Q : LexError → σ → Prop) : EStateM.Result Parse.Stop σ α → Prop
  | .ok _ s => I s
  | .error stop s => I s ∧ ∀ e, stop = .error (.lexical e) → Q e s

theorem Parse.kept_answer {I : σ → Prop} {Q : LexError → σ → Prop} {r : Except LexError (Option Token) × σ}
    (h : I r.2 ∧ ∀ e, r.1 = .error e → Q e r.2) : Kept I Q (answer r) := by
  obtain ⟨e | t, s⟩ := r
  · refine ⟨h.1, fun e' he => h.2 e' ?_⟩
    cases he
    rfl
  · exact h.1

variable [TokenSource σ]

/-- While a source is looked at and taken from `I` holds of it, and where it answers an error `Q` holds of both. -/
structure TokenSource.Keeps (I : σ → Prop) (Q : LexError → σ → Prop) : Prop where
  peek : ∀ s, I s →
    I (TokenSource.peek s).2 ∧ ∀ e, (TokenSource.peek s).1 = .error e → Q e (TokenSource.peek s).2
  next : ∀ s, I s →
    I (TokenSource.next s).2 ∧ ∀ e, (TokenSource.next s).1 = .error e → Q e (TokenSource.next s).2

namespace Parse

variable {I : σ → Prop} {Q : LexError → σ → Prop} {k : Nat}

theorem Moved.kept [Placed α] {p p' : Parse Rule α} (h : Moved k p p') (hkeeps : TokenSource.Keeps I Q)
    {follow : {β : Type} → Rule β → EStateM Stop σ β}
    (hfollow : ∀ {β : Type} (rule : Rule β) s, I s → Kept I Q (follow rule s)) {s : σ} (hs : I s) :
    Kept I Q (p.run follow s) := by
  induction h generalizing s with
  | done a => exact hs
  | @andThen α β _ _ p p' q q' first rest ihfirst ihrest =>
      have hp := ihfirst hs
      simp only [Parse.run]
      cases hr : p.run follow s with
      | ok b s' =>
          rw [hr] at hp
          exact ihrest b hp
      | error e s' =>
          rw [hr] at hp
          exact hp
  | fail e he =>
      refine ⟨hs, fun e' h => ?_⟩
      cases h
      cases he
  | peek => exact kept_answer (hkeeps.peek s hs)
  | next => exact kept_answer (hkeeps.next s hs)
  | call rule => exact hfollow rule s hs

theorem kept_runRule (hkeeps : TokenSource.Keeps I Q) (d : Nat) :
    ∀ {β : Type} (rule : Rule β) (s : σ), I s → Kept I Q (runRule Rule.body d rule s) := by
  induction d with
  | zero => exact fun _ _ hs => ⟨hs, nofun⟩
  | succ d ih =>
      intro β rule s hs
      let _ := rule.placed
      exact (Grammar.moved_body (k := 0) rule).kept hkeeps ih hs

end Parse

theorem Grammar.kept_run_item {I : σ → Prop} {Q : LexError → σ → Prop} (hkeeps : TokenSource.Keeps I Q) (d : Nat)
    {s : σ} (hs : I s) : Parse.Kept I Q (item.run (Parse.runRule Rule.body d) s) :=
  (moved_item (k := 0)).kept hkeeps (Parse.kept_runRule hkeeps d) hs

/-- What is kept while an item is read, and what is known of a lexical error in its place. -/
theorem Grammar.kept_item {I : σ → Prop} {Q : LexError → σ → Prop} (hkeeps : TokenSource.Keeps I Q) (bound : Nat)
    {s : σ} (hs : I s) :
    I (readWithin bound item s).2 ∧
      ∀ e, (readWithin bound item s).1 = .error (.lexical e) → Q e (readWithin bound item s).2 := by
  have hrun := kept_run_item hkeeps (depth bound) hs
  unfold readWithin
  cases hr : item.run (Parse.runRule Rule.body (depth bound)) s with
  | ok a s' =>
      rw [hr] at hrun
      exact ⟨hrun, nofun⟩
  | error stop s' =>
      rw [hr] at hrun
      cases stop with
      | tooDeep => exact ⟨hrun.1, nofun⟩
      | error e =>
          refine ⟨hrun.1, fun e' he => hrun.2 e' ?_⟩
          cases he
          rfl

end SoundLang
