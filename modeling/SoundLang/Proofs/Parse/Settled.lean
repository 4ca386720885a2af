import SoundLang.Proofs.Parse.Interrupted

/-! # What an error settles

Parsing stops at its first error, and the error tells what more input could change
(`Grammar.readAll_error_settled`):

* an error that does not say that the input has ended was found without a look at the end, so it stands, with the items
  before it, whatever follows;
* one that says so was found at the end, behind all tokens. -/

namespace SoundLang.Grammar

open Parse

/-- Where the end of the input is the error, all tokens have been taken. -/
theorem left_of_atEnd {bound : Nat} {e : ParseError} (he : e.atEnd = true) : ∀ {ts : List Token}, ts.length < bound →
    (readItems bound (ts.map .ok : List Entry)).2.1 = some e →
      (readItems bound (ts.map .ok : List Entry)).2.2 = [] := by
  induction bound with
  | zero => exact fun h => absurd h (Nat.not_lt_zero _)
  | succ bound ih =>
      intro ts h herr
      rw [readItems_succ (by simp; omega)] at herr ⊢
      cases tells_outcome within_item ts [] with
      | read o us k' halone _ _ hQ hk' _ =>
          cases o with
          | none => exact absurd hQ hk'
          | some i =>
              have hlen := length_lt_of_item halone
              simp only [List.length_map] at hlen
              simp only [halone] at herr ⊢
              exact ih (by omega) herr
      | ended o halone hQ _ => cases o <;> simp [halone] at herr
      | failed e' us he' halone _ _ =>
          simp only [halone] at herr
          cases herr
          rw [he] at he'
          cases he'
      | cutOff e' he' halone _ => simp only [halone]
      | tooDeep us halone => exact absurd halone (finished_outcome item _ us)

/-- An error on tokens stands with the items before it, whatever follows, unless it says that the input has ended; in
that case all tokens have been taken. -/
theorem readAll_error_settled {ts : List Token} {e : ParseError}
    (h : (readAll (ts.map .ok : List Entry)).2.1 = some e) :
    (e.atEnd = false → ∀ us : List Entry, readAll (ts.map .ok ++ us) =
      ((readAll (ts.map .ok : List Entry)).1, some e, (readAll (ts.map .ok : List Entry)).2.2 ++ us)) ∧
    (e.atEnd = true → (readAll (ts.map .ok : List Entry)).2.2 = []) := by
  have hlen : ts.length < TokenSource.pending (ts.map .ok : List Entry) := by simp [TokenSource.pending]
  refine ⟨fun he us => ?_, fun he => left_of_atEnd he hlen h⟩
  exact readItems_append he hlen (by simp [TokenSource.pending]) h

/-- The tokens of `a; )`. -/
def strayParen : List Token :=
  [⟨.word "a", .onLine 0 0 1⟩, ⟨.symbol .semicolon, .onLine 0 1 2⟩, ⟨.symbol .rparen, .onLine 0 3 4⟩]

/-- The tokens of `a; f(b`. -/
def openParen : List Token :=
  [⟨.word "a", .onLine 0 0 1⟩, ⟨.symbol .semicolon, .onLine 0 1 2⟩, ⟨.word "f", .onLine 0 3 4⟩,
    ⟨.symbol .lparen, .onLine 0 4 5⟩, ⟨.word "b", .onLine 0 5 6⟩]

theorem error_settled_of_parens :
    ((readAll (strayParen.map .ok : List Entry)).2.1 =
        some (.noStatement ⟨.symbol .rparen, .onLine 0 3 4⟩) ∧
      readAll (strayParen.map .ok ++ [.error (.unterminatedString ⟨0, 5⟩)] : List Entry) =
        ((readAll (strayParen.map .ok : List Entry)).1, some (.noStatement ⟨.symbol .rparen, .onLine 0 3 4⟩),
          (readAll (strayParen.map .ok : List Entry)).2.2 ++ [.error (.unterminatedString ⟨0, 5⟩)])) ∧
    ((readAll (openParen.map .ok : List Entry)).2.1 = some (.unclosedBracket .round (.onLine 0 4 5)) ∧
      (readAll (openParen.map .ok : List Entry)).2.2 = []) := by
  have hstray : (readAll (strayParen.map .ok : List Entry)).2.1 =
      some (.noStatement ⟨.symbol .rparen, .onLine 0 3 4⟩) := by decide +kernel
  have hopen : (readAll (openParen.map .ok : List Entry)).2.1 = some (.unclosedBracket .round (.onLine 0 4 5)) := by
    decide +kernel
  exact ⟨⟨hstray, (readAll_error_settled hstray).1 rfl _⟩, hopen, (readAll_error_settled hopen).2 rfl⟩

end SoundLang.Grammar
