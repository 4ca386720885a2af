import SoundLang.Proofs.Lexer.Serve

/-! # Calls of a lexer

Whoever reads from a lexer makes one call after the other.  The calls of `next` take one entry each of those that are
still to come, and the other calls take none (`rest_call`), unless pending entries are dropped.  So what is served
depends on the input and on the number of calls of `next` alone (`served_eq`), whatever was looked at in between and
whatever became of the prompts.  A lexer that has been looked at has read all that the next call asks for
(`next_of_peeked`). -/

namespace SoundLang

namespace Lexer

/-- What can be asked of a lexer. -/
inductive Call where
  | peek
  | next
  | beginStatement
  | discard
deriving DecidableEq, Repr

/-- The lexer after a call. -/
def call (lx : Lexer) : Call → Lexer
  | .peek => lx.peek.2
  | .next => lx.next.2
  | .beginStatement => lx.beginStatement
  | .discard => lx.discard

/-- The lexer after calls, one after the other. -/
def calls (lx : Lexer) (cs : List Call) : Lexer := cs.foldl call lx

@[simp] theorem calls_nil (lx : Lexer) : lx.calls [] = lx := rfl

@[simp] theorem calls_cons (lx : Lexer) (c : Call) (cs : List Call) : lx.calls (c :: cs) = (lx.call c).calls cs := rfl

/-- A lexer that has read nothing of an input. -/
def opened (input : Input) (prompting : Prompting) : Lexer := { unread := input, prompting }

/-- What the calls of `next` give, in order. -/
def served : List Call → Lexer → List (Except LexError (Option Token))
  | [], _ => []
  | .next :: cs, lx => lx.next.1 :: served cs lx.next.2
  | c :: cs, lx => served cs (lx.call c)

/-! ### What is to come after a call -/

/-- Prompts are no part of what is to come. -/
theorem rest_opened (input : Input) (prompting : Prompting) :
    (opened input prompting).rest = upcoming 0 .code input := rfl

/-- Unless entries are dropped, a call takes the first entry to come or none. -/
theorem rest_call {c : Call} (hc : c ≠ .discard) (lx : Lexer) :
    (lx.call c).rest = if c = .next then lx.rest.tail else lx.rest := by
  cases c with
  | peek => exact lawful.peek_snd lx
  | next => exact lawful.next_snd lx
  | beginStatement => rfl
  | discard => exact absurd rfl hc

/-- The calls of `next` give the entries to come, and then nothing, whatever calls are made in between. -/
theorem served_eq {cs : List Call} (hcs : .discard ∉ cs) (lx : Lexer) :
    served cs lx = (List.range (cs.count .next)).map fun n => Entry.front (lx.rest.drop n) := by
  induction cs generalizing lx with
  | nil => rfl
  | cons c cs ih =>
      rw [List.mem_cons, not_or] at hcs
      have hrest := rest_call (Ne.symm hcs.1) lx
      have htail := ih hcs.2 (lx.call c)
      by_cases hc : c = .next
      · subst hc
        rw [if_pos rfl] at hrest
        rw [hrest] at htail
        calc served (.next :: cs) lx
            = lx.next.1 :: served cs (lx.call .next) := rfl
          _ = Entry.front lx.rest :: (List.range (cs.count .next)).map fun n => Entry.front (lx.rest.tail.drop n) := by
              rw [htail, show lx.next.1 = Entry.front lx.rest from lawful.next_fst lx]
          _ = (List.range ((.next :: cs).count .next)).map fun n => Entry.front (lx.rest.drop n) := by
              rw [List.count_cons_self, List.range_succ_eq_map, List.map_cons, List.map_map, List.drop_zero]
              simp [Function.comp_def]
      · rw [if_neg hc] at hrest
        rw [List.count_cons_of_ne hc, ← hrest, ← htail]
        cases c with
        | next => exact absurd rfl hc
        | peek | beginStatement | discard => rfl

/-! ### After a look -/

theorem fill_of_filled {lx : Lexer} (h : lx.Filled) : lx.fill = lx := by
  unfold fill
  split
  · next hc =>
      simp only [Bool.and_eq_true, List.isEmpty_iff, Bool.not_eq_true'] at hc
      rw [h hc.1] at hc
      cases hc.2
  · rfl

/-- What was looked at stays in place while nothing is taken. -/
theorem calls_of_filled {cs : List Call} (hcs : ∀ c ∈ cs, c = .peek ∨ c = .beginStatement) {lx : Lexer}
    (h : lx.Filled) :
    (lx.calls cs).Filled ∧ (lx.calls cs).queue = lx.queue ∧ (lx.calls cs).log = lx.log := by
  induction cs generalizing lx with
  | nil => exact ⟨h, rfl, rfl⟩
  | cons c cs ih =>
      rw [List.forall_mem_cons] at hcs
      have hstep : (lx.call c).Filled ∧ (lx.call c).queue = lx.queue ∧ (lx.call c).log = lx.log := by
        obtain ⟨rfl | rfl, -⟩ := hcs
        · rw [show lx.call .peek = lx from fill_of_filled h]
          exact ⟨h, rfl, rfl⟩
        · exact ⟨h, rfl, rfl⟩
      obtain ⟨hfilled, hqueue, hlog⟩ := ih hcs.2 hstep.1
      exact ⟨hfilled, hqueue.trans hstep.2.1, hlog.trans hstep.2.2⟩

/-- The call of `next` that follows a look gives what the look gave, and reads nothing more. -/
theorem next_of_peeked {cs : List Call} (hcs : ∀ c ∈ cs, c = .peek ∨ c = .beginStatement) (lx : Lexer) :
    (lx.peek.2.calls cs).next.1 = lx.peek.1 ∧ (lx.peek.2.calls cs).next.2.log = lx.peek.2.log := by
  obtain ⟨hfilled, hqueue, hlog⟩ := calls_of_filled hcs lx.fill_filled
  have hfill := fill_of_filled hfilled
  constructor
  · change Entry.front (lx.fill.calls cs).fill.queue = Entry.front lx.fill.queue
    rw [hfill, hqueue]
  · change (lx.fill.calls cs).fill.log = lx.fill.log
    rw [hfill, hlog]

/-- From one input the calls of `next` give the same, whatever is looked at in between, whether or not statements are
begun, and whether prompts are off, shown or lost.  A look gives what the following call of `next` gives, and that call
reads no further line. -/
theorem served_by_count (input : Input) (p q : Prompting) {cs ds : List Call} (hcs : .discard ∉ cs)
    (hds : .discard ∉ ds) (hcount : cs.count .next = ds.count .next) :
    served cs (opened input p) = served ds (opened input q) ∧
      ∀ es : List Call, (∀ c ∈ es, c = .peek ∨ c = .beginStatement) →
        ((((opened input p).calls cs).peek.2).calls es).next.1 = ((opened input p).calls cs).peek.1 ∧
        ((((opened input p).calls cs).peek.2).calls es).next.2.log = ((opened input p).calls cs).peek.2.log := by
  refine ⟨?_, fun es hes => next_of_peeked hes _⟩
  rw [served_eq hcs, served_eq hds, rest_opened, rest_opened, hcount]

/-- A lexical error between two tokens, and a reader that fails. -/
theorem served_by_count_of_failure :
    served [.peek, .next, .beginStatement, .peek, .peek, .next, .next, .next]
        (opened [.line "a @ b", .line "/* c", .failed "gone"] .shown) =
      served [.next, .next, .next, .peek, .next] (opened [.line "a @ b", .line "/* c", .failed "gone"] .lost) :=
  (served_by_count _ _ _ (by decide) (by decide) (by decide)).1

end Lexer

end SoundLang
