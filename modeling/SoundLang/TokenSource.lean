import SoundLang.LexError

/-! # Sources of tokens

What a parser reads from: a state with a next token to look at or to take.  A lexical error stands in the order
of the tokens and is met when it is next.  A plain list of entries is the simplest source. -/

namespace SoundLang

/-- A source of tokens with one token of lookahead.  Both calls give `none` at the end. -/
class TokenSource (σ : Type) where
  /-- Looks at the next token. -/
  peek : σ → Except LexError (Option Token) × σ
  /-- Takes the next token, or the error in its place. -/
  next : σ → Except LexError (Option Token) × σ
  /-- At least the number of entries that can still be taken. -/
  pending : σ → Nat

/-- What comes first in a list of entries. -/
def Entry.front : List Entry → Except LexError (Option Token)
  | [] => .ok none
  | .ok t :: _ => .ok (some t)
  | .error e :: _ => .error e

/-- A list of entries is a source. -/
instance : TokenSource (List Entry) where
  peek es := (Entry.front es, es)
  next es := (Entry.front es, es.tail)
  pending es := es.length + 1

namespace TokenSource

variable {σ : Type} [TokenSource σ]

/-- The entries that a source gives, `limit` of them at most. -/
def take : Nat → σ → List Entry
  | 0, _ => []
  | limit + 1, s =>
    match next s with
    | (.ok none, _) => []
    | (.ok (some t), s) => .ok t :: take limit s
    | (.error e, s) => .error e :: take limit s

/-- All entries that a source gives. -/
def entries (s : σ) : List Entry := take (pending s) s

end TokenSource

end SoundLang
