import SoundLang.Parse.Error
import SoundLang.TokenSource

/-! # Parse procedures

A `Parse` describes how to read a phrase: which tokens to look at and to take, which grammar rules to follow,
and when to fail.  The description is data, so that what holds of every way of reading tokens is proved once,
by induction on it.  `Parse.run` carries it out on a source of tokens; what a grammar rule means is a
parameter, and `Parse.runRule` ties the knot with a bound on the depth of rules. -/

namespace SoundLang

/-- A procedure that reads a phrase and gives an `α`; `ρ β` are the grammar rules that give a `β`. -/
inductive Parse (ρ : Type → Type) : Type → Type 1 where
  /-- Reads nothing. -/
  | done {α : Type} (a : α) : Parse ρ α
  /-- One procedure after the other. -/
  | andThen {α β : Type} (first : Parse ρ β) (rest : β → Parse ρ α) : Parse ρ α
  /-- Stops with an error. -/
  | fail {α : Type} (e : ParseError) : Parse ρ α
  /-- Looks at the next token. -/
  | peek : Parse ρ (Option Token)
  /-- Takes the next token. -/
  | next : Parse ρ (Option Token)
  /-- Follows a grammar rule. -/
  | call {α : Type} (rule : ρ α) : Parse ρ α

namespace Parse

variable {ρ : Type → Type} {σ : Type} {α : Type}

instance : Monad (Parse ρ) where
  pure := done
  bind := andThen

/-- Why a run has no result. -/
inductive Stop where
  | error (e : ParseError)
  /-- Rules were followed deeper than allowed. -/
  | tooDeep
deriving DecidableEq, Repr

/-- Hands on a token, or the lexical error in its place. -/
def answer : Except LexError (Option Token) × σ → EStateM.Result Stop σ (Option Token)
  | (.ok t, s) => .ok t s
  | (.error e, s) => .error (.error (.lexical e)) s

/-- Carries out a procedure, given how to follow a rule. -/
def run [TokenSource σ] (follow : {β : Type} → ρ β → EStateM Stop σ β) {α : Type} :
    Parse ρ α → EStateM Stop σ α
  | done a, s => .ok a s
  | andThen first rest, s =>
    match first.run follow s with
    | .ok b s => (rest b).run follow s
    | .error e s => .error e s
  | fail e, s => .error (.error e) s
  | peek, s => answer (TokenSource.peek s)
  | next, s => answer (TokenSource.next s)
  | call rule, s => follow rule s

/-- Follows a rule, at most `depth` rules deep. -/
def runRule [TokenSource σ] (body : {β : Type} → ρ β → Parse ρ β) : Nat → {β : Type} → ρ β → EStateM Stop σ β
  | 0, _, _, s => .error .tooDeep s
  | depth + 1, _, rule, s => (body rule).run (runRule body depth) s

section

variable [TokenSource σ] (follow : {β : Type} → ρ β → EStateM Stop σ β) (s : σ)

@[simp] theorem run_pure (a : α) : (pure a : Parse ρ α).run follow s = .ok a s := rfl

@[simp] theorem run_bind {β : Type} (p : Parse ρ β) (f : β → Parse ρ α) :
    (p >>= f).run follow s =
      match p.run follow s with
      | .ok b s => (f b).run follow s
      | .error e s => .error e s := by
  rw [show p >>= f = andThen p f from rfl, run]

@[simp] theorem run_fail (e : ParseError) :
    (fail e : Parse ρ α).run follow s = .error (.error e) s := rfl

@[simp] theorem run_peek : (peek : Parse ρ (Option Token)).run follow s = answer (TokenSource.peek s) := rfl

@[simp] theorem run_next : (next : Parse ρ (Option Token)).run follow s = answer (TokenSource.next s) := rfl

@[simp] theorem run_call (rule : ρ α) : (call rule : Parse ρ α).run follow s = follow rule s := rfl

end

/-- Takes the next token if `accept` holds of it. -/
def nextIf (accept : Token → Bool) : Parse ρ (Option Token) := do
  let t ← peek
  if t.any accept then next else return none

/-- Takes the next token, which has to be accepted. -/
def expect (context : Construct) (keyword : Span) (expected : Expectation) (accept : Token → Bool) :
    Parse ρ Token := do
  match ← next with
  | some t => if accept t then return t else fail (.unexpected context keyword expected t)
  | none => fail (.cutOff context keyword expected)

end Parse

end SoundLang
