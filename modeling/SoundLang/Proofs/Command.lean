import SoundLang.Command
import SoundLang.Proofs.Lexer.Text
import SoundLang.Proofs.Parse.Interrupted
import SoundLang.Proofs.Parse.Origin
import SoundLang.Proofs.Session.Turns
import SoundLang.Proofs.Types.Meaning

/-! # The commands agree on what is wrong

Listing tokens, parsing and running a text all read the same entries, each in its own way.  They stop at the same
lexical error, unless parsing has stopped before for the tokens in front of it (`Command.lexical_errors_agree`).  So a
text that one of them rejects is rejected by those that do more. -/

namespace SoundLang

/-! ### What parsing makes of an error -/

namespace Program

variable {text : String} {e : LexError}

/-- Where there is no lexical error, the error of parsing is made of the tokens. -/
theorem from_of_error {x : ParseError} (h : (Entry.upToError (Lexer.fresh text).rest).2 = none)
    (hx : (parse text).error = some x) : x.From (Entry.upToError (Lexer.fresh text).rest).1 := by
  rw [error_eq, Entry.upToError_eq_none h] at hx
  exact Grammar.readAll_from hx

/-- The error of parsing is the first lexical error, or made of the tokens before it. -/
theorem error_cases (h : (Entry.upToError (Lexer.fresh text).rest).2 = some e) :
    (parse text).error = some (.lexical e) ∨
      ∃ x, (parse text).error = some x ∧ x.From (Entry.upToError (Lexer.fresh text).rest).1 := by
  obtain ⟨us, hrest⟩ := Entry.upToError_eq_some h
  generalize (Entry.upToError (Lexer.fresh text).rest).1 = ts at hrest ⊢
  have hread := (Grammar.readAll_interrupted ts e us).1
  rw [error_eq, hrest, hread]
  cases hx : (Grammar.readAll (ts.map .ok : List Entry)).2.1.filter fun x => !x.atEnd with
  | none => exact .inl rfl
  | some x =>
      have hx := (Option.filter_eq_some_iff.mp hx).1
      exact .inr ⟨x, rfl, Grammar.readAll_from hx⟩

/-- Without an error all tokens of the text are those of the items. -/
theorem sentence_of_error (h : (parse text).error = none) :
    (Entry.upToError (Lexer.fresh text).rest).2 = none ∧
      Phrase.Sentence spanOf (Entry.upToError (Lexer.fresh text).rest).1 (parse text).items := by
  have hlex : (Entry.upToError (Lexer.fresh text).rest).2 = none := by
    cases he : (Entry.upToError (Lexer.fresh text).rest).2 with
    | none => rfl
    | some e =>
        obtain hx | ⟨x, hx, -⟩ := error_cases he
        · rw [h] at hx
          cases hx
        · rw [h] at hx
          cases hx
  refine ⟨hlex, ?_⟩
  have hrest := Entry.upToError_eq_none hlex
  generalize (Entry.upToError (Lexer.fresh text).rest).1 = ts at hrest ⊢
  have hlen : (ts.map .ok : List Entry).length < TokenSource.pending (ts.map .ok : List Entry) := Nat.lt_succ_self _
  obtain ⟨us, vs, hes, hs, hend⟩ := Grammar.readItems_sound hlen
  rw [error_eq, hrest, Grammar.readAll] at h
  rw [items_eq, hrest, Grammar.readAll]
  obtain ⟨rfl, -⟩ := hend h
  rw [List.append_nil] at hes
  obtain rfl := (List.map_inj_right fun _ _ h => Except.ok.inj h).mp hes
  exact hs

end Program

/-! ### What a run makes of an error -/

namespace Session

open Lowering in
/-- Lowering items is refused only where all ids of a shape are given away. -/
theorem full_of_lowerAll {items : List (Item Span)} {t u : Interner} {accepted : List (Item Span × ItemTypes)}
    {e : InternError} (ht : t.Lawful) (h : lowerAll items t = (accepted, some (.refused e), u)) :
    ∃ s, TypeId.capacity ≤ (u.ofShape s).size := by
  induction items generalizing t accepted with
  | nil => cases h
  | cons i items ih =>
      obtain ⟨hv, -, hends⟩ := ends_item ht i
      rw [← lowerItem] at hv hends
      rcases hi : lowerItem i t with ⟨stop | types, v⟩
      · rw [hi] at hends
        rw [lowerAll_cons_error hi] at h
        cases h
        obtain ⟨s, -, hs⟩ := hends
        exact ⟨s, hs⟩
      · rw [lowerAll_cons_ok hi] at h
        rw [hi] at hv
        obtain ⟨-, hlater⟩ := Prod.mk.inj h
        exact ih hv (Prod.ext rfl hlater)

/-- A text that cannot be parsed has a diagnostic, unless all ids of a shape are given away before. -/
theorem diagnostic_of_error {text : String} {t : Interner} (ht : t.Lawful)
    (h : (Program.parse text).error.isSome = true) :
    (check text t).diagnostic.isSome = true ∨ ∃ s, TypeId.capacity ≤ ((check text t).types.ofShape s).size := by
  rcases hlower : Lowering.lowerAll (Program.parse text).items t with ⟨accepted, stop, u⟩
  rw [check_eq hlower]
  match stop with
  | none =>
      left
      rw [firstDiagnostic, Option.isSome_map]
      exact h
  | some (.error e) => exact .inl rfl
  | some (.refused e) => exact .inr (full_of_lowerAll ht hlower)

end Session

namespace Command

theorem tokensOf_eq {bound : Nat} {lx : Lexer} (h : lx.rest.length < bound) :
    ((tokensOf bound lx).1, (tokensOf bound lx).2.1) = Entry.upToError lx.rest := by
  induction bound generalizing lx with
  | zero => exact absurd h (Nat.not_lt_zero _)
  | succ bound ih =>
      have hanswer : lx.next.1 = Entry.front lx.rest := Lexer.lawful.next_fst lx
      have hrest : lx.next.2.rest = lx.rest.tail := Lexer.lawful.next_snd lx
      rw [tokensOf]
      rcases hnext : lx.next with ⟨o, lx'⟩
      rw [hnext] at hanswer hrest
      simp only at hanswer hrest
      subst hanswer
      cases hes : lx.rest with
      | nil => rfl
      | cons x es =>
          rw [hes] at h hrest
          simp only [List.tail_cons, List.length_cons] at h hrest
          cases x with
          | error e => rfl
          | ok t =>
              have hlater := @ih lx' (by rw [hrest]; omega)
              rw [hrest] at hlater
              simp only [Entry.front, Entry.upToError, ← hlater]

theorem failed_listTokens (colors : Bool) (name text : String) :
    (listTokens colors name text).failed = true ↔ ∃ e, tokens text = .error e := by
  have hread := tokensOf_eq (Lexer.length_rest_fresh_lt text)
  simp only [tokens_eq_error_iff, ← hread, ← Option.isSome_iff_exists]
  rfl

theorem failed_outlineItems (colors : Bool) (name text : String) :
    (outlineItems colors name text).failed = (Program.parse text).error.isSome := by
  unfold outlineItems
  dsimp only

theorem runBatch_eq (text : String) : runBatch text = (Session.start .batch .off text .initial).run := by
  have hstart : Session.start .batch .off text .initial = ⟨.batch, { unread := .ofText text none }, .initial⟩ := rfl
  unfold runBatch
  rw [hstart]

theorem failed_runSource_eq (colors : Bool) (text : String) :
    (runSource colors text).failed = ((runBatch text).errors != 0) := by
  unfold runSource
  dsimp only

/-- A run reports an error in a text that cannot be parsed, unless all ids of a shape are given away before. -/
theorem failed_runSource (colors : Bool) {text : String} (h : (Program.parse text).error.isSome = true) :
    (runSource colors text).failed = true ∨
      ∃ s, TypeId.capacity ≤ ((runBatch text).final.types.ofShape s).size := by
  obtain ⟨later, hturns, hend⟩ := Session.turns_start .off text .initial .batch
  obtain ⟨rfl, htypes⟩ := hend (.inl rfl)
  obtain ⟨-, herrors, -⟩ := Session.run_eq_turns (Session.start .batch .off text .initial)
  rw [failed_runSource_eq, runBatch_eq, htypes, herrors, hturns]
  obtain hd | hfull := Session.diagnostic_of_error Interner.lawful_initial h
  · left
    obtain ⟨d, hd⟩ := Option.isSome_iff_exists.mp hd
    rw [hd]
    simp [Session.Turn.rejected?]
  · exact .inr hfull

/-- A lexical error that parsing reports is the one that a list of the tokens reports.  Where a list of the tokens
reports one, parsing reports it as well, or an error made of tokens before it.  Where parsing reports none, there is a
list of the tokens, and they are those of the items.  So where listing tokens fails parsing does, and where parsing fails
a run reports an error, if it does not end because all ids of a shape are given away. -/
theorem lexical_errors_agree (text : String) :
    (∀ e, (Program.parse text).error = some (.lexical e) → tokens text = .error e) ∧
    (∀ e, tokens text = .error e → ∃ ts us,
      TokenSource.entries (Lexer.fresh text) = ts.map .ok ++ .error e :: us ∧
        ((Program.parse text).error = some (.lexical e) ∨ ∃ x, (Program.parse text).error = some x ∧ x.From ts)) ∧
    ((Program.parse text).error = none →
      ∃ ts, tokens text = .ok ts ∧ Phrase.Sentence spanOf ts (Program.parse text).items) ∧
    ∀ colors name,
      ((listTokens colors name text).failed = true → (outlineItems colors name text).failed = true) ∧
      ((outlineItems colors name text).failed = true → (runSource colors text).failed = true ∨
        ∃ s, TypeId.capacity ≤ ((runBatch text).final.types.ofShape s).size) := by
  refine ⟨fun e he => ?_, fun e he => ?_, fun hnone => ?_, fun colors name => ?_⟩
  · rw [tokens_eq_error_iff]
    cases hlex : (Entry.upToError (Lexer.fresh text).rest).2 with
    | none => cases (Program.from_of_error hlex he).lexical?
    | some e' =>
        obtain hx | ⟨x, hx, hfrom⟩ := Program.error_cases hlex
        · rw [he] at hx
          cases hx
          rfl
        · rw [he] at hx
          cases hx
          cases hfrom.lexical?
  · have hlex := tokens_eq_error_iff.mp he
    obtain ⟨us, hus⟩ := Entry.upToError_eq_some hlex
    rw [Lexer.entries_fresh]
    exact ⟨_, us, hus, Program.error_cases hlex⟩
  · obtain ⟨hlex, hsentence⟩ := Program.sentence_of_error hnone
    exact ⟨_, tokens_eq_ok hlex, hsentence⟩
  · rw [failed_outlineItems, failed_listTokens]
    refine ⟨?_, failed_runSource colors⟩
    rintro ⟨e, he⟩
    obtain hx | ⟨x, hx, -⟩ := Program.error_cases (tokens_eq_error_iff.mp he)
    · rw [hx, Option.isSome_some]
    · rw [hx, Option.isSome_some]

end Command

end SoundLang
