import SoundLang.TokenSource

/-! # Lawful sources

A source is lawful when it serves a fixed list of entries: to look at the next token is to look at the first entry
of the list and leaves the list as it is, and to take it is to take that entry (`TokenSource.Lawful`).  More generally
a map takes one source to another when the image of each state answers what the state answers (`TokenSource.Maps`).  So
it is with a lawful source and the lists of entries that it serves (`TokenSource.Lawful.maps`). -/

namespace SoundLang

/-- The first entry, when it is a token. -/
theorem Entry.front_eq_some {es : List Entry} {t : Token} (h : Entry.front es = .ok (some t)) :
    ∃ us, es = .ok t :: us := by
  match es, h with
  | .ok _ :: us, rfl => exact ⟨us, rfl⟩

/-- The first entry, when it is an error. -/
theorem Entry.front_eq_error {es : List Entry} {e : LexError} (h : Entry.front es = .error e) :
    ∃ us, es = .error e :: us := by
  match es, h with
  | .error _ :: us, rfl => exact ⟨us, rfl⟩

namespace TokenSource

/-- The source serves the entries that `rest` tells of its states. -/
structure Lawful {σ : Type} [TokenSource σ] (rest : σ → List Entry) : Prop where
  peek_fst : ∀ s, (peek s).1 = Entry.front (rest s)
  peek_snd : ∀ s, rest (peek s).2 = rest s
  next_fst : ∀ s, (next s).1 = Entry.front (rest s)
  next_snd : ∀ s, rest (next s).2 = (rest s).tail

/-- The image of a state answers what the state answers, and goes on to the image of the next state. -/
structure Maps {σ τ : Type} [TokenSource σ] [TokenSource τ] (f : σ → τ) : Prop where
  peek : ∀ s, TokenSource.peek (f s) = ((TokenSource.peek s).1, f (TokenSource.peek s).2)
  next : ∀ s, TokenSource.next (f s) = ((TokenSource.next s).1, f (TokenSource.next s).2)

theorem Lawful.maps {σ : Type} [TokenSource σ] {rest : σ → List Entry} (h : Lawful rest) : Maps rest where
  peek s := Prod.ext (h.peek_fst s).symm (h.peek_snd s).symm
  next s := Prod.ext (h.next_fst s).symm (h.next_snd s).symm

end TokenSource

end SoundLang
