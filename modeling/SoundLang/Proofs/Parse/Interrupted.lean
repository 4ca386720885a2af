import Mathlib.Control.Monad.Basic
import SoundLang.Proofs.Parse.Ending
import SoundLang.Proofs.Parse.Spans

/-! # Items in front of a lexical error

What is read in front of a lexical error is what is read where the input ends there, but for two things
(`Program.parse_interrupted`):

* where the end of the input would be an error, or none, the lexical error is the error;
* a last item that ends in an `if` without `else` is lost, since the parser looks for the `else` and meets the error
  (`Grammar.complete`).  No other item looks at what follows it. -/

namespace SoundLang

namespace Grammar

open Parse

/-- The items that are complete whatever follows: a last one that ends in an `if` could go on with an `else`. -/
def complete (items : List (Item Span)) : List (Item Span) :=
  if items.getLast?.any Item.endsInIf then items.dropLast else items

theorem complete_cons {i : Item Span} {items : List (Item Span)} (h : items ≠ []) :
    complete (i :: items) = i :: complete items := by
  obtain ⟨j, js, rfl⟩ := List.exists_cons_of_ne_nil h
  simp only [complete, List.getLast?_cons_cons, List.dropLast_cons_cons]
  split <;> rfl

@[simp] theorem readItems_nil (bound : Nat) : readItems bound ([] : List Entry) = ([], none, []) := by
  cases bound <;> rfl

section
variable {bound : Nat} {vs : List Entry}

/-- An error that is not due to the end of the input stands, whatever follows. -/
theorem readItems_append {e : ParseError} (he : e.atEnd = false) : ∀ {ts : List Token} {bound' : Nat},
    ts.length < bound → ts.length + vs.length < bound' →
    (readItems bound (ts.map .ok : List Entry)).2.1 = some e →
      readItems bound' (ts.map .ok ++ vs) = ((readItems bound (ts.map .ok : List Entry)).1, some e,
        (readItems bound (ts.map .ok : List Entry)).2.2 ++ vs) := by
  induction bound with
  | zero => exact fun h => absurd h (Nat.not_lt_zero _)
  | succ bound ih =>
      intro ts bound' h h' herr
      obtain ⟨bound', rfl⟩ : ∃ n, bound' = n + 1 := ⟨bound' - 1, by omega⟩
      rw [readItems_succ (by simp; omega)] at herr ⊢
      rw [readItems_succ (by simp; omega)]
      cases tells_outcome within_item ts vs with
      | read o us k' halone hwhole _ hQ hk' _ =>
          cases o with
          | none => exact absurd hQ hk'
          | some i =>
              have hlen := length_lt_of_item halone
              simp only [List.length_map] at hlen
              simp only [halone] at herr ⊢
              have := @ih us bound' (by omega) (by omega) herr
              simp only [hwhole, this]
      | ended o halone hQ hwhole =>
          cases o with
          | none => simp [halone] at herr
          | some i => simp [halone] at herr
      | failed e' us he' halone hwhole _ =>
          simp only [halone] at herr ⊢
          cases herr
          simp only [hwhole]
      | cutOff e' he' halone _ =>
          simp only [halone] at herr
          cases herr
          rw [he] at he'
          cases he'
      | tooDeep us halone => exact absurd halone (finished_outcome item _ us)

/-- An item that ends in an `if` has been read where no `else` follows. -/
theorem lacks_else_of_item {es us : List Entry} {i : Item Span} (h : outcome item es = .ok (some i) us)
    (hif : i.endsInIf = true) : Entry.Lacks (Token.isKeyword .elseWord) us := by
  have hs := ((outcome_eq_ok_iff item).mp h).mono (fun _ _ _ _ => Rule.Reads.spec)
  obtain ⟨-, o, ws, hs, hi, rfl⟩ | ⟨k, ws, -, -, d, -, -, hi, -⟩ := readsBy_nextIf_bind.mp hs
  · cases o with
    | none => cases hi
    | some s =>
        obtain ⟨ts, -, -, hfollow⟩ := hs
        cases hi
        exact hfollow hif
  · cases hi
    cases hif

/-- Without an item and without an error there were no tokens. -/
theorem eq_nil_of_readItems {ts : List Token} (hlen : ts.length < bound)
    (hitems : (readItems bound (ts.map .ok : List Entry)).1 = [])
    (herr : (readItems bound (ts.map .ok : List Entry)).2.1 = none) : ts = [] := by
  have hlen' : (ts.map .ok : List Entry).length < bound := by simpa using hlen
  obtain ⟨us, vs, hts, hs, hend⟩ := readItems_sound hlen'
  obtain ⟨rfl, -⟩ := hend herr
  rw [hitems] at hs
  cases hs
  simpa using hts

theorem readItems_interrupted (e : LexError) (ws : List Entry) : ∀ {ts : List Token} {bound' : Nat},
    ts.length < bound → ts.length + ws.length + 1 < bound' →
    (∀ e', (readItems bound (ts.map .ok : List Entry)).2.1 = some e' → e'.atEnd = true) →
      (readItems bound' (ts.map .ok ++ .error e :: ws)).2.1 = some (.lexical e) ∧
      (readItems bound' (ts.map .ok ++ .error e :: ws)).1 =
        if (readItems bound (ts.map .ok : List Entry)).2.1 = none then
          complete (readItems bound (ts.map .ok : List Entry)).1
        else (readItems bound (ts.map .ok : List Entry)).1 := by
  induction bound with
  | zero => exact fun h => absurd h (Nat.not_lt_zero _)
  | succ bound ih =>
      intro ts bound' h h' herr
      obtain ⟨bound', rfl⟩ : ∃ n, bound' = n + 1 := ⟨bound' - 1, by omega⟩
      rw [readItems_succ (by simp; omega)] at herr ⊢
      rw [readItems_succ (by simp; omega)]
      cases tells_outcome within_item ts (.error e :: ws) with
      | read o us k' halone hwhole _ hQ hk' _ =>
          cases o with
          | none => exact absurd hQ hk'
          | some i =>
              have hlen := length_lt_of_item halone
              simp only [List.length_map] at hlen
              simp only [halone] at herr ⊢
              obtain ⟨hlex, hitems⟩ := @ih us bound' (by omega) (by omega) herr
              simp only [hwhole, hlex, hitems, true_and]
              by_cases hnone : (readItems bound (us.map .ok : List Entry)).2.1 = none
              · rw [if_pos hnone, if_pos hnone]
                by_cases hnil : (readItems bound (us.map .ok : List Entry)).1 = []
                · -- the item stands right before the error, so no `else` can be looked for behind it
                  obtain rfl := eq_nil_of_readItems (by omega) hnil hnone
                  have hclosed : i.endsInIf = false := by
                    rw [Bool.eq_false_iff]
                    exact fun hif => Entry.Lacks.cons_error e (lacks_else_of_item hwhole hif)
                  simp [complete, hclosed]
                · exact (complete_cons hnil).symm
              · rw [if_neg hnone, if_neg hnone]
      | ended o halone hQ hwhole =>
          obtain ⟨us, hwhole⟩ := hwhole (by simp) e ws rfl
          cases o with
          | none => simp [halone, hwhole, complete]
          | some i => simp [halone, hwhole, complete, hQ]
      | failed e' us he' halone hwhole _ =>
          simp only [halone] at herr
          have := herr e' rfl
          rw [he'] at this
          cases this
      | cutOff e' he' halone hwhole =>
          obtain ⟨us, hwhole⟩ := hwhole (by simp) e ws rfl
          simp [halone, hwhole]
      | tooDeep us halone => exact absurd halone (finished_outcome item _ us)

end

/-- What is read in front of a lexical error, from what is read of the tokens before it. -/
theorem readAll_interrupted (ts : List Token) (e : LexError) (us : List Entry) :
    (readAll (ts.map .ok ++ .error e :: us)).2.1 =
        some (((readAll (ts.map .ok : List Entry)).2.1.filter fun x => !x.atEnd).getD (.lexical e)) ∧
      (readAll (ts.map .ok ++ .error e :: us)).1 =
        if (readAll (ts.map .ok : List Entry)).2.1 = none then complete (readAll (ts.map .ok : List Entry)).1
        else (readAll (ts.map .ok : List Entry)).1 := by
  have hlen : ts.length < TokenSource.pending (ts.map .ok : List Entry) := by simp [TokenSource.pending]
  have hwhole : ts.length + us.length + 1 < TokenSource.pending (ts.map .ok ++ .error e :: us : List Entry) := by
    simp only [TokenSource.pending, List.length_append, List.length_map, List.length_cons]
    omega
  unfold readAll
  generalize TokenSource.pending (ts.map .ok : List Entry) = bound at hlen ⊢
  generalize TokenSource.pending (ts.map .ok ++ .error e :: us : List Entry) = bound' at hwhole ⊢
  have hread := fun h => readItems_interrupted e us hlen hwhole h
  cases hx : (readItems bound (ts.map .ok : List Entry)).2.1 with
  | none =>
      rw [hx] at hread
      simpa using hread (by simp)
  | some x =>
      cases hfinal : x.atEnd with
      | true =>
          rw [hx] at hread
          simpa [Option.filter, hfinal] using hread (by simp [hfinal])
      | false =>
          rw [readItems_append hfinal hlen (by simp only [List.length_cons]; omega) hx]
          simp [Option.filter, hfinal]

end Grammar

namespace Program

/-- Where a lexical error stands behind tokens, the error is the one that the tokens alone lead to, if that is not due
to their end, and else the lexical error.  The items are those of the tokens alone, except that a last one which could
go on with an `else` is lost when the tokens alone have no error. -/
theorem parse_interrupted {text : String} {ts : List Token} {e : LexError} {us : List Entry}
    (h : TokenSource.entries (Lexer.fresh text) = ts.map .ok ++ .error e :: us) :
    (parse text).error =
        some (((Grammar.readAll (ts.map .ok : List Entry)).2.1.filter fun x => !x.atEnd).getD (.lexical e)) ∧
      (parse text).items =
        if (Grammar.readAll (ts.map .ok : List Entry)).2.1 = none then
          Grammar.complete (Grammar.readAll (ts.map .ok : List Entry)).1
        else (Grammar.readAll (ts.map .ok : List Entry)).1 := by
  rw [Lexer.entries_eq_rest] at h
  rw [error_eq, items_eq, h]
  exact Grammar.readAll_interrupted ts e us

/-- The tokens of `if (a) b;`. -/
def openIf : List Token :=
  [⟨.word "if", .onLine 0 0 2⟩, ⟨.symbol .lparen, .onLine 0 3 4⟩, ⟨.word "a", .onLine 0 4 5⟩,
    ⟨.symbol .rparen, .onLine 0 5 6⟩, ⟨.word "b", .onLine 0 7 8⟩, ⟨.symbol .semicolon, .onLine 0 8 9⟩]

theorem entries_openIf : TokenSource.entries (Lexer.fresh "if (a) b; @") =
    openIf.map .ok ++ .error (.unexpectedCharacter '@' (.onLine 0 10 11)) :: [] := by
  decide +kernel

theorem error_openIf : (Grammar.readAll (openIf.map .ok : List Entry)).2.1 = none := by
  decide +kernel

theorem parse_interrupted_openIf :
    TokenSource.entries (Lexer.fresh "if (a) b; @") =
      openIf.map .ok ++ .error (.unexpectedCharacter '@' (.onLine 0 10 11)) :: [] ∧
    (parse "if (a) b; @").error = some (.lexical (.unexpectedCharacter '@' (.onLine 0 10 11))) ∧
    (parse "if (a) b; @").items = Grammar.complete (Grammar.readAll (openIf.map .ok : List Entry)).1 := by
  obtain ⟨herror, hitems⟩ := parse_interrupted entries_openIf
  rw [error_openIf] at herror hitems
  exact ⟨entries_openIf, herror, hitems⟩

/-- The statement `if (a) b;` is lost where a lexical error follows it. -/
theorem openIf_lost :
    TokenSource.entries (Lexer.fresh "if (a) b; @") =
      openIf.map .ok ++ .error (.unexpectedCharacter '@' (.onLine 0 10 11)) :: [] ∧
    (Grammar.readAll (openIf.map .ok : List Entry)).2.1 = none ∧
    (Grammar.readAll (openIf.map .ok : List Entry)).1.length = 1 ∧
    (parse "if (a) b; @").items = [] :=
  ⟨entries_openIf, error_openIf, by decide +kernel, List.isEmpty_iff.mp (by decide +kernel)⟩

end Program

end SoundLang
