import SoundLang.Parse.Grammar
import SoundLang.Proofs.TokenSource

/-! # Runs of parse procedures

A run of a procedure is given a bound on how deep rules may be followed.  Here the bound is shown to be no part
of the meaning of a procedure:

* a run that comes to its own end gives the same result under every larger bound (`runRule_mono`);
* on `n` entries every procedure of the grammar comes to its own end within `2 * n + 2` levels
  (`finished_of_le`), since a rule that has taken no token only follows rules of smaller `Rule.rank`.

So `Grammar.outcome`, the result on a list of entries, obeys the equations of the procedures with no bound in
them (`outcome_bind`, `outcome_call`). -/

namespace SoundLang

namespace Parse

variable {ρ : Type → Type} {α β : Type}

/-! ### Results that do not depend on the bound -/

/-- The run came to its own end: no rule was followed deeper than allowed. -/
def Finished {σ : Type} (r : EStateM.Result Stop σ α) : Prop := ∀ s, r ≠ .error .tooDeep s

@[simp] theorem finished_ok {σ : Type} (a : α) (s : σ) :
    Finished (.ok a s : EStateM.Result Stop σ α) := by
  intro s' h
  cases h

@[simp] theorem finished_error {σ : Type} (e : ParseError) (s : σ) :
    Finished (.error (.error e) s : EStateM.Result Stop σ α) := by
  intro s' h
  cases h

@[simp] theorem finished_answer {σ : Type} (r : Except LexError (Option Token) × σ) :
    Finished (answer r) := by
  obtain ⟨t | t, s⟩ := r <;> simp [answer]

section bound
variable {σ : Type} [TokenSource σ] {f g : {β : Type} → ρ β → EStateM Stop σ β}

/-- A finished run is the same when finished runs of rules are. -/
theorem run_mono (h : ∀ {β : Type} (rule : ρ β) s, Finished (f rule s) → g rule s = f rule s)
    (p : Parse ρ α) (s : σ) (hp : Finished (p.run f s)) : p.run g s = p.run f s := by
  induction p generalizing s with
  | done a => rfl
  | andThen p q ihp ihq =>
      simp only [run] at hp ⊢
      cases hr : p.run f s with
      | ok b s' =>
          rw [hr] at hp
          rw [ihp s (by rw [hr]; simp), hr]
          exact ihq b s' hp
      | error e s' =>
          rw [hr] at hp
          have hp' : Finished (p.run f s) := by
            rw [hr]
            intro s'' he
            cases he
            exact hp s' rfl
          rw [ihp s hp', hr]
  | fail e => rfl
  | peek => rfl
  | next => rfl
  | call rule => exact h rule s hp

variable (body : {β : Type} → ρ β → Parse ρ β)

theorem runRule_succ (d : Nat) : ∀ {β : Type} (rule : ρ β) (s : σ),
    Finished (runRule body d rule s) → runRule body (d + 1) rule s = runRule body d rule s := by
  induction d with
  | zero => exact fun _ s h => absurd rfl (h s)
  | succ d ih => exact fun rule s h => run_mono ih (body rule) s h

/-- A larger bound does not change a finished run of a rule. -/
theorem runRule_mono {d d' : Nat} (hd : d ≤ d') (rule : ρ β) (s : σ)
    (h : Finished (runRule body d rule s)) : runRule body d' rule s = runRule body d rule s := by
  induction hd with
  | refl => rfl
  | step _ ih => rw [runRule_succ body _ rule s (by rw [ih]; exact h), ih]

end bound

/-! ### Runs on a list of entries -/

section list
variable {f : {β : Type} → ρ β → EStateM Stop (List Entry) β}

theorem length_le_of_answer {t : Option Token} {es us vs : List Entry}
    (h : answer (Entry.front es, us) = .ok t vs) : vs = us := by
  cases he : Entry.front es <;> simp_all [answer]

/-- No run puts entries back. -/
theorem length_le_of_run
    (h : ∀ {β : Type} (rule : ρ β) es b us, f rule es = .ok b us → us.length ≤ es.length)
    (p : Parse ρ α) {es us : List Entry} {a : α} (hp : p.run f es = .ok a us) :
    us.length ≤ es.length := by
  induction p generalizing es us with
  | done a => cases hp; exact Nat.le_refl _
  | andThen p q ihp ihq =>
      simp only [run] at hp
      cases hr : p.run f es with
      | ok b vs =>
          rw [hr] at hp
          exact Nat.le_trans (ihq b hp) (ihp hr)
      | error e vs => simp [hr] at hp
  | fail e => cases hp
  | peek => exact Nat.le_of_eq (by rw [length_le_of_answer hp])
  | next => rw [length_le_of_answer hp]; simp
  | call rule => exact h rule _ _ _ hp

theorem length_le_of_runRule (body : {β : Type} → ρ β → Parse ρ β) (d : Nat) :
    ∀ {β : Type} (rule : ρ β) (es : List Entry) (b : β) (us : List Entry),
      runRule body d rule es = .ok b us → us.length ≤ es.length := by
  induction d with
  | zero => intro _ rule es b us h; cases h
  | succ d ih => exact fun rule es b us h => length_le_of_run ih (body rule) h

/-- `P` holds of every rule that a procedure follows and of the entries it follows it on. -/
def Calls (f : {β : Type} → ρ β → EStateM Stop (List Entry) β)
    (P : {β : Type} → ρ β → List Entry → Prop) : {α : Type} → Parse ρ α → List Entry → Prop
  | _, andThen p q, es => p.Calls f P es ∧ ∀ b us, p.run f es = .ok b us → (q b).Calls f P us
  | _, call rule, es => P rule es
  | _, done _, _ => True
  | _, fail _, _ => True
  | _, peek, _ => True
  | _, next, _ => True

theorem finished_of_calls (p : Parse ρ α) (es : List Entry)
    (h : p.Calls f (fun rule es => Finished (f rule es)) es) : Finished (p.run f es) := by
  induction p generalizing es with
  | done a => exact finished_ok _ _
  | andThen p q ihp ihq =>
      simp only [run]
      cases hr : p.run f es with
      | ok b us => exact ihq b us (h.2 b us hr)
      | error e us =>
          have := ihp es h.1
          rw [hr] at this
          intro s he
          cases he
          exact this us rfl
  | fail e => exact finished_error _ _
  | peek => exact finished_answer _
  | next => exact finished_answer _
  | call rule => exact h

theorem Calls.imp {P Q : {β : Type} → ρ β → List Entry → Prop}
    (hPQ : ∀ {β : Type} (rule : ρ β) es, P rule es → Q rule es) (p : Parse ρ α) (es : List Entry)
    (h : p.Calls f P es) : p.Calls f Q es := by
  induction p generalizing es with
  | andThen p q ihp ihq => exact ⟨ihp es h.1, fun b us hr => ihq b us (h.2 b us hr)⟩
  | call rule => exact hPQ rule es h
  | _ => trivial

section
variable {P : {β : Type} → ρ β → List Entry → Prop} {es : List Entry}

@[simp] theorem calls_pure (a : α) : (pure a : Parse ρ α).Calls f P es := trivial

@[simp] theorem calls_bind {p : Parse ρ β} {q : β → Parse ρ α} : (p >>= q).Calls f P es ↔
    p.Calls f P es ∧ ∀ b us, p.run f es = .ok b us → (q b).Calls f P us := Iff.rfl

@[simp] theorem calls_fail (e : ParseError) : (fail e : Parse ρ α).Calls f P es := trivial

@[simp] theorem calls_peek : (peek : Parse ρ (Option Token)).Calls f P es := trivial

@[simp] theorem calls_next : (next : Parse ρ (Option Token)).Calls f P es := trivial

@[simp] theorem calls_call (rule : ρ α) : (call rule).Calls f P es ↔ P rule es := Iff.rfl

end

end list

end Parse

/-! ### The rules of the grammar -/

/-- A rule that has taken no token follows only rules of smaller rank. -/
def Rule.rank : {α : Type} → Rule α → Nat
  | _, suffixes .. | _, climb .. | _, items .. | _, typeExpr .. | _, params .. | _, statement => 0
  | _, factor .. | _, types .. | _, block .. => 1

theorem Rule.rank_le {α : Type} (rule : Rule α) : rule.rank ≤ 1 := by
  cases rule <;> simp [rank]

namespace Grammar

open Parse

variable {α β : Type}

section takes
variable {f : {β : Type} → Rule β → EStateM Stop (List Entry) β} {es us : List Entry}

theorem run_next_ok {t : Option Token} (h : (next : Parse Rule _).run f es = .ok t us) :
    (t = none ∧ es = [] ∧ us = []) ∨ ∃ t', t = some t' ∧ es = .ok t' :: us := by
  rw [run_next] at h
  cases es with
  | nil => simp_all [TokenSource.next, Entry.front, answer]
  | cons e es => cases e <;> simp_all [TokenSource.next, Entry.front, answer]

theorem run_peek_ok {t : Option Token} (h : (peek : Parse Rule _).run f es = .ok t us) :
    us = es ∧ Entry.front es = .ok t := by
  rw [run_peek] at h
  cases he : Entry.front es <;> simp_all [TokenSource.peek, answer]

/-- The procedure follows no rule, and takes an entry unless it fails. -/
def Takes (f : {β : Type} → Rule β → EStateM Stop (List Entry) β) (p : Parse Rule α) : Prop :=
  (∀ (P : {β : Type} → Rule β → List Entry → Prop) es, p.Calls f P es) ∧
    ∀ es a us, p.run f es = .ok a us → us.length < es.length

theorem takes_next {q : Option Token → Parse Rule α} (h0 : ∀ a us, (q none).run f [] ≠ .ok a us)
    (hc : ∀ (P : {β : Type} → Rule β → List Entry → Prop) t us, (q t).Calls f P us)
    (hl : ∀ t us a vs, (q (some t)).run f us = .ok a vs → vs.length ≤ us.length) : Takes f (next >>= q) := by
  refine ⟨fun P es => ⟨trivial, fun t us _ => hc P t us⟩, ?_⟩
  intro es a us h
  rw [run_bind] at h
  cases hr : (next : Parse Rule _).run f es with
  | error e vs => simp [hr] at h
  | ok t vs =>
      rw [hr] at h
      obtain ⟨rfl, rfl, rfl⟩ | ⟨t', rfl, rfl⟩ := run_next_ok hr
      · exact absurd h (h0 a us)
      · have := hl t' vs a us h
        simp only [List.length_cons]
        omega

theorem takes_operand (want : Want) : Takes f (operand want) := by
  refine takes_next (by simp) ?_ ?_
  · intro P t us
    cases t with
    | none => trivial
    | some t => cases h : t.head? <;> simp [h]
  · intro t us a vs h
    cases ht : t.head? <;> simp_all

theorem takes_name (context : Construct) (keyword : Span) : Takes f (name context keyword) := by
  refine takes_next (by simp) ?_ ?_
  · intro P t us
    cases t with
    | none => trivial
    | some t => cases h : t.kind.name? <;> simp [h]
  · intro t us a vs h
    cases ht : t.kind.name? <;> simp_all

theorem takes_expect (context : Construct) (keyword : Span) (expected : Expectation)
    (accept : Token → Bool) : Takes f (expect context keyword expected accept : Parse Rule _) := by
  refine takes_next (by simp) ?_ ?_
  · intro P t us
    cases t with
    | none => trivial
    | some t => cases h : accept t <;> simp [h]
  · intro t us a vs h
    cases ht : accept t <;> simp_all

theorem calls_nextIf (accept : Token → Bool) : (nextIf accept).Calls f P es := by
  refine ⟨trivial, fun t us _ => ?_⟩
  cases h : t.any accept <;> simp [h]

theorem run_nextIf_some {accept : Token → Bool} {t : Token}
    (h : (nextIf accept).run f es = .ok (some t) us) : es = .ok t :: us := by
  simp only [nextIf, run_bind] at h
  cases hp : (peek : Parse Rule _).run f es with
  | error e vs => simp [hp] at h
  | ok t' vs =>
      obtain ⟨rfl, -⟩ := run_peek_ok hp
      rw [hp] at h
      cases ha : t'.any accept with
      | false => simp [ha] at h
      | true =>
          simp only [ha, if_true] at h
          obtain ⟨h', -⟩ | ⟨t'', h', rfl⟩ := run_next_ok h
          · cases h'
          · cases h'
            rfl

theorem run_nextIf_none {accept : Token → Bool} (h : (nextIf accept).run f es = .ok none us) :
    us = es := by
  simp only [nextIf, run_bind] at h
  cases hp : (peek : Parse Rule _).run f es with
  | error e vs => simp [hp] at h
  | ok t' vs =>
      obtain ⟨rfl, -⟩ := run_peek_ok hp
      rw [hp] at h
      cases ha : t'.any accept with
      | false => simp_all
      | true =>
          simp only [ha, if_true] at h
          obtain ⟨-, rfl, rfl⟩ | ⟨t'', h', -⟩ := run_next_ok h
          · rfl
          · cases h'

theorem calls_operator? (level : Nat) : (operator? level).Calls f P es := by
  refine ⟨trivial, fun t us _ => ?_⟩
  simp only
  split <;> simp

theorem run_operator?_some {level : Nat} {r : BinaryOp × Span}
    (h : (operator? level).run f es = .ok (some r) us) : us.length < es.length := by
  simp only [operator?, run_bind] at h
  cases hp : (peek : Parse Rule _).run f es with
  | error e vs => simp [hp] at h
  | ok t vs =>
      obtain ⟨rfl, ht⟩ := run_peek_ok hp
      rw [hp] at h
      simp only at h
      split at h
      · cases hn : (next : Parse Rule _).run f vs with
        | error e ws => simp [hn] at h
        | ok t' ws =>
            simp only [run_bind, hn, run_pure] at h
            cases h
            obtain ⟨-, rfl, -⟩ | ⟨t'', -, rfl⟩ := run_next_ok hn
            · cases ht
              simp_all
            · simp
      · simp at h
end takes

/-! ### The bound on the depth -/

/-- The measure of a rule and its entries is below `d`. -/
def Below (d : Nat) {β : Type} (rule : Rule β) (es : List Entry) : Prop := 2 * es.length + rule.rank < d

section below
variable {d : Nat} {es : List Entry}

/-- Where few entries are left every call is below the bound. -/
theorem calls_below (p : Parse Rule α) {es : List Entry} (h : 2 * es.length + 2 ≤ d) :
    p.Calls (runRule Rule.body d) (Below d) es := by
  induction p generalizing es with
  | andThen p q ihp ihq =>
      refine ⟨ihp h, fun b us hr => ihq b ?_⟩
      have := length_le_of_run (length_le_of_runRule Rule.body d) p hr
      omega
  | call rule =>
      have := rule.rank_le
      simp only [calls_call, Below]
      omega
  | _ => trivial

theorem calls_below_of_takes {p : Parse Rule β} (hp : Takes (runRule Rule.body d) p)
    (q : β → Parse Rule α) (h : 2 * es.length ≤ d) :
    (p >>= q).Calls (runRule Rule.body d) (Below d) es := by
  refine ⟨hp.1 _ es, fun b us hr => calls_below _ ?_⟩
  have := hp.2 es b us hr
  omega

theorem calls_below_of_next {q : Option Token → Parse Rule α} (h : 2 * es.length ≤ d)
    (h0 : (q none).Calls (runRule Rule.body d) (Below d) []) :
    (next >>= q).Calls (runRule Rule.body d) (Below d) es := by
  refine ⟨trivial, fun t us hr => ?_⟩
  obtain ⟨rfl, rfl, rfl⟩ | ⟨t', rfl, rfl⟩ := run_next_ok hr
  · exact h0
  · refine calls_below _ ?_
    simp only [List.length_cons] at h
    omega

theorem calls_below_of_front {t : Token} {q : Option Token → Parse Rule α} (h : 2 * es.length ≤ d)
    (ht : Entry.front es = .ok (some t)) : (next >>= q).Calls (runRule Rule.body d) (Below d) es := by
  obtain ⟨us, rfl⟩ := Entry.front_eq_some ht
  refine ⟨trivial, fun t us hr => calls_below _ ?_⟩
  obtain ⟨-, h', -⟩ | ⟨t', -, h'⟩ := run_next_ok hr <;> cases h'
  simp only [List.length_cons] at h
  omega

theorem calls_below_of_nextIf {accept : Token → Bool} {q : Option Token → Parse Rule α}
    (h : 2 * es.length ≤ d) (h0 : (q none).Calls (runRule Rule.body d) (Below d) es) :
    (nextIf accept >>= q).Calls (runRule Rule.body d) (Below d) es := by
  refine ⟨calls_nextIf accept, fun t us hr => ?_⟩
  cases t with
  | none =>
      rw [run_nextIf_none hr]
      exact h0
  | some t =>
      refine calls_below _ ?_
      rw [run_nextIf_some hr] at h
      simp only [List.length_cons] at h
      omega

theorem length_lt_of_wanted {want : Want} {e : Expr Span} {us : List Entry}
    (h : (wanted want).run (runRule Rule.body d) es = .ok e us) : us.length < es.length := by
  simp only [wanted, run_bind] at h
  cases hr : (operand want).run (runRule Rule.body d) es with
  | error e vs => simp [hr] at h
  | ok head vs =>
      rw [hr] at h
      have h1 := (takes_operand want).2 es head vs hr
      have h2 := length_le_of_run (length_le_of_runRule Rule.body d) (expressionFrom head) h
      omega

theorem length_lt_of_statement {s : Stmt Span} {us : List Entry}
    (h : runRule Rule.body d .statement es = .ok (some s) us) : us.length < es.length := by
  cases d with
  | zero => cases h
  | succ d =>
      simp only [runRule, Rule.body, statement, run_bind] at h
      cases hr : (next : Parse Rule _).run (runRule Rule.body d) es with
      | error e vs => simp [hr] at h
      | ok t vs =>
          rw [hr] at h
          obtain ⟨rfl, rfl, rfl⟩ | ⟨t', rfl, rfl⟩ := run_next_ok hr
          · simp at h
          · have := length_le_of_run (length_le_of_runRule Rule.body d) _ h
            simp only [List.length_cons]
            omega

/-- The body of a rule follows rules of smaller measure only. -/
theorem calls_below_body (rule : Rule α) (h : 2 * es.length + rule.rank ≤ d) :
    rule.body.Calls (runRule Rule.body d) (Below d) es := by
  have hlen : 2 * es.length ≤ d := by omega
  cases rule with
  | factor head =>
      simp only [Rule.rank] at h
      cases head with
      | leaf e => exact h
      | unary op operator => exact calls_below_of_takes (takes_operand _) _ hlen
      | opening b span =>
          refine ⟨h, fun l us hr => ?_⟩
          have := length_le_of_runRule Rule.body d _ _ _ _ hr
          simp only [calls_call, Below, Rule.rank]
          omega
  | suffixes base =>
      refine ⟨trivial, fun t us hr => ?_⟩
      obtain ⟨rfl, ht⟩ := run_peek_ok hr
      cases t with
      | none => trivial
      | some t =>
          simp only
          split
          · trivial
          all_goals exact calls_below_of_front hlen ht
  | climb level left =>
      refine ⟨calls_operator? level, fun r us hr => ?_⟩
      cases r with
      | none => trivial
      | some r =>
          have := run_operator?_some hr
          exact calls_below _ (by omega)
  | items b opening trailing =>
      refine ⟨trivial, fun t us hr => ?_⟩
      obtain ⟨rfl, ht⟩ := run_peek_ok hr
      simp only
      split
      · split
        · simp
        · trivial
      · refine calls_below_of_nextIf hlen ?_
        refine ⟨calls_below_of_takes (takes_operand _) _ hlen, fun e vs hr => calls_below _ ?_⟩
        have := length_lt_of_wanted hr
        omega
  | typeExpr context keyword => exact calls_below_of_next hlen trivial
  | types b context keyword =>
      simp only [Rule.rank] at h
      refine ⟨h, fun t us hr => ?_⟩
      have := length_le_of_runRule Rule.body d _ _ _ _ hr
      exact calls_below_of_takes (takes_expect ..) _ (by omega)
  | params keyword => exact calls_below_of_takes (takes_name _ _) _ hlen
  | statement => exact calls_below_of_next hlen trivial
  | block opening =>
      simp only [Rule.rank] at h
      refine calls_below_of_nextIf hlen ⟨h, fun s us hr => ?_⟩
      cases s with
      | none => trivial
      | some s =>
          have := length_lt_of_statement hr
          refine ⟨?_, fun _ _ _ => trivial⟩
          simp only [calls_call, Below, Rule.rank]
          omega

end below

theorem finished_runRule (d : Nat) : ∀ {α : Type} (rule : Rule α) (es : List Entry),
    Below d rule es → Finished (runRule Rule.body d rule es) := by
  induction d with
  | zero => exact fun rule es h => absurd h (Nat.not_lt_zero _)
  | succ d ih =>
      intro α rule es h
      exact finished_of_calls _ es
        (Calls.imp ih _ es (calls_below_body rule (Nat.le_of_lt_succ h)))

/-- On few entries every procedure comes to its own end. -/
theorem finished_of_le (p : Parse Rule α) {es : List Entry} {d : Nat} (h : 2 * es.length + 2 ≤ d) :
    Finished (p.run (runRule Rule.body d) es) :=
  finished_of_calls p es (Calls.imp (finished_runRule d) p es (calls_below p h))


/-! ### Outcomes -/

/-- What a procedure makes of a list of entries. -/
def outcome (p : Parse Rule α) (es : List Entry) : EStateM.Result Stop (List Entry) α :=
  p.run (runRule Rule.body (depth es.length)) es

theorem run_eq_run (p : Parse Rule α) {es : List Entry} {d d' : Nat} (h : 2 * es.length + 2 ≤ d)
    (hd : d ≤ d') : p.run (runRule Rule.body d') es = p.run (runRule Rule.body d) es :=
  run_mono (fun rule es h => runRule_mono Rule.body hd rule es h) p es (finished_of_le p h)

theorem run_eq_outcome (p : Parse Rule α) {es : List Entry} {d : Nat} (h : 2 * es.length + 2 ≤ d) :
    p.run (runRule Rule.body d) es = outcome p es := by
  have hd : 2 * es.length + 2 ≤ depth es.length := by
    unfold depth
    omega
  rcases Nat.le_total d (depth es.length) with hle | hle
  · exact (run_eq_run p h hle).symm
  · exact run_eq_run p hd hle

theorem finished_outcome (p : Parse Rule α) (es : List Entry) : Finished (outcome p es) :=
  finished_of_le p (by unfold depth; omega)

theorem outcome_bind (p : Parse Rule β) (q : β → Parse Rule α) (es : List Entry) :
    outcome (p >>= q) es =
      match outcome p es with
      | .ok b us => outcome (q b) us
      | .error e us => .error e us := by
  unfold outcome
  rw [run_bind]
  cases hr : p.run (runRule Rule.body (depth es.length)) es with
  | error e us => rfl
  | ok b us =>
      have := length_le_of_run (length_le_of_runRule Rule.body _) p hr
      exact run_eq_outcome (q b) (by unfold depth; omega)

theorem outcome_call (rule : Rule α) (es : List Entry) :
    outcome (call rule) es = outcome rule.body es :=
  run_eq_outcome rule.body (d := 4 * es.length + 7) (by omega)

end Grammar

end SoundLang
