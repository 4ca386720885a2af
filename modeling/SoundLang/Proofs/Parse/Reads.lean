import SoundLang.Proofs.Parse.Runs

/-! # What procedures read

`Parse.ReadsBy S p es a us` says that the procedure `p`, started before the entries `es`, gives `a` and leaves
`us`, when `S` says so of the rules it follows.  It is the procedure turned into a relation, node by node, and
has no bound on the depth.  `Rule.Reads` is what the rules of the grammar read, and it is characterised twice:

* it is a solution of the equations of the rules (`Rule.reads_iff`);
* it is the least one: whatever the bodies keep holds of the rules (`Rule.Reads.least`). -/

namespace SoundLang

/-- What comes first is neither an error nor a token that is accepted. -/
def Entry.Lacks (accept : Token → Bool) (es : List Entry) : Prop :=
  ∃ t, Entry.front es = .ok t ∧ t.any accept = false

namespace Entry.Lacks

variable {accept : Token → Bool} {es : List Entry} {t : Token}

@[simp] theorem nil : Lacks accept [] := ⟨none, rfl, rfl⟩

@[simp] theorem cons_ok : Lacks accept (.ok t :: es) ↔ accept t = false := by
  simp [Lacks, Entry.front]

@[simp] theorem cons_error (e : LexError) : ¬ Lacks accept (.error e :: es) := by
  simp [Lacks, Entry.front]

theorem mono {accept' : Token → Bool} (h : ∀ t, accept' t = true → accept t = true)
    (hl : Lacks accept es) : Lacks accept' es := by
  obtain ⟨t, ht, ha⟩ := hl
  refine ⟨t, ht, ?_⟩
  cases t with
  | none => rfl
  | some t =>
      simp only [Option.any_some] at ha ⊢
      cases h' : accept' t with
      | false => rfl
      | true => rw [h t h'] at ha; cases ha

end Entry.Lacks

namespace Parse

variable {ρ : Type → Type} {α β : Type}

/-- The relation of a procedure, given the relations of the rules. -/
def ReadsBy (S : {β : Type} → ρ β → List Entry → β → List Entry → Prop) :
    {α : Type} → Parse ρ α → List Entry → α → List Entry → Prop
  | _, done a, es, b, us => b = a ∧ us = es
  | _, andThen p q, es, a, us => ∃ b vs, p.ReadsBy S es b vs ∧ (q b).ReadsBy S vs a us
  | _, fail _, _, _, _ => False
  | _, peek, es, t, us => Entry.front es = .ok t ∧ us = es
  | _, next, es, t, us => Entry.front es = .ok t ∧ us = es.tail
  | _, call rule, es, a, us => S rule es a us

section
variable {S : {β : Type} → ρ β → List Entry → β → List Entry → Prop} {es us : List Entry}

@[simp] theorem readsBy_pure {a b : α} :
    (pure a : Parse ρ α).ReadsBy S es b us ↔ b = a ∧ us = es := Iff.rfl

theorem readsBy_bind {p : Parse ρ β} {q : β → Parse ρ α} {a : α} :
    (p >>= q).ReadsBy S es a us ↔ ∃ b vs, p.ReadsBy S es b vs ∧ (q b).ReadsBy S vs a us := Iff.rfl

@[simp] theorem readsBy_fail {e : ParseError} {a : α} :
    (fail e : Parse ρ α).ReadsBy S es a us ↔ False := Iff.rfl

@[simp] theorem readsBy_call {rule : ρ α} {a : α} :
    (call rule).ReadsBy S es a us ↔ S rule es a us := Iff.rfl

theorem readsBy_peek_bind {q : Option Token → Parse ρ α} {a : α} :
    (peek >>= q).ReadsBy S es a us ↔ ∃ t, Entry.front es = .ok t ∧ (q t).ReadsBy S es a us := by
  constructor
  · rintro ⟨t, vs, ⟨ht, rfl⟩, h⟩
    exact ⟨t, ht, h⟩
  · rintro ⟨t, ht, h⟩
    exact ⟨t, es, ⟨ht, rfl⟩, h⟩

theorem readsBy_next {t : Option Token} : (next : Parse ρ _).ReadsBy S es t us ↔
    (t = none ∧ es = [] ∧ us = []) ∨ ∃ t', t = some t' ∧ es = .ok t' :: us := by
  constructor
  · rintro ⟨h, rfl⟩
    match es, h with
    | [], rfl => exact .inl ⟨rfl, rfl, rfl⟩
    | .ok t' :: es, rfl => exact .inr ⟨t', rfl, rfl⟩
  · rintro (⟨rfl, rfl, rfl⟩ | ⟨t', rfl, rfl⟩) <;> exact ⟨rfl, rfl⟩

theorem readsBy_next_bind {q : Option Token → Parse ρ α} {a : α} :
    (next >>= q).ReadsBy S es a us ↔
      (es = [] ∧ (q none).ReadsBy S [] a us) ∨
        ∃ t vs, es = .ok t :: vs ∧ (q (some t)).ReadsBy S vs a us := by
  simp only [readsBy_bind, readsBy_next]
  constructor
  · rintro ⟨t, vs, ⟨rfl, rfl, rfl⟩ | ⟨t', rfl, rfl⟩, h⟩
    · exact .inl ⟨rfl, h⟩
    · exact .inr ⟨t', vs, rfl, h⟩
  · rintro (⟨rfl, h⟩ | ⟨t, vs, rfl, h⟩)
    · exact ⟨none, [], .inl ⟨rfl, rfl, rfl⟩, h⟩
    · exact ⟨some t, vs, .inr ⟨t, rfl, rfl⟩, h⟩

@[simp] theorem readsBy_next_bind_cons {q : Option Token → Parse ρ α} {t : Token} {a : α} :
    (next >>= q).ReadsBy S (.ok t :: es) a us ↔ (q (some t)).ReadsBy S es a us := by
  rw [readsBy_next_bind]
  constructor
  · rintro (⟨⟨⟩, -⟩ | ⟨t', vs, ⟨⟩, h⟩)
    exact h
  · exact fun h => .inr ⟨t, es, rfl, h⟩

theorem readsBy_nextIf {accept : Token → Bool} {t : Option Token} :
    (nextIf accept : Parse ρ _).ReadsBy S es t us ↔
      (t = none ∧ us = es ∧ Entry.Lacks accept es) ∨
        ∃ t', t = some t' ∧ es = .ok t' :: us ∧ accept t' = true := by
  rw [nextIf, readsBy_peek_bind]
  constructor
  · rintro ⟨t₀, ht, h⟩
    cases ha : t₀.any accept with
    | false =>
        simp only [ha, Bool.false_eq_true, if_false, readsBy_pure] at h
        exact .inl ⟨h.1, h.2, t₀, ht, ha⟩
    | true =>
        simp only [ha, if_true, readsBy_next] at h
        obtain ⟨-, rfl, -⟩ | ⟨t', rfl, rfl⟩ := h
        · cases ht
          cases ha
        · cases ht
          exact .inr ⟨t', rfl, rfl, ha⟩
  · rintro (⟨rfl, rfl, t₀, ht, ha⟩ | ⟨t', rfl, rfl, ha⟩)
    · exact ⟨t₀, ht, by simp [ha]⟩
    · exact ⟨some t', rfl, by simp [ha, readsBy_next]⟩

theorem readsBy_nextIf_bind {accept : Token → Bool} {q : Option Token → Parse ρ α} {a : α} :
    (nextIf accept >>= q).ReadsBy S es a us ↔
      (Entry.Lacks accept es ∧ (q none).ReadsBy S es a us) ∨
        ∃ t vs, es = .ok t :: vs ∧ accept t = true ∧ (q (some t)).ReadsBy S vs a us := by
  simp only [readsBy_bind, readsBy_nextIf]
  constructor
  · rintro ⟨t, vs, ⟨rfl, rfl, hl⟩ | ⟨t', rfl, rfl, ha⟩, h⟩
    · exact .inl ⟨hl, h⟩
    · exact .inr ⟨t', vs, rfl, ha, h⟩
  · rintro (⟨hl, h⟩ | ⟨t, vs, rfl, ha, h⟩)
    · exact ⟨none, es, .inl ⟨rfl, rfl, hl⟩, h⟩
    · exact ⟨some t, vs, .inr ⟨t, rfl, rfl, ha⟩, h⟩

@[simp] theorem readsBy_expect {context : Construct} {keyword : Span} {expected : Expectation}
    {accept : Token → Bool} {t : Token} :
    (expect context keyword expected accept : Parse ρ _).ReadsBy S es t us ↔
      es = .ok t :: us ∧ accept t = true := by
  rw [expect, readsBy_next_bind]
  constructor
  · rintro (⟨-, h⟩ | ⟨t', vs, rfl, h⟩)
    · exact h.elim
    · cases ha : accept t' with
      | false => simp [ha] at h
      | true =>
          simp only [ha, if_true, readsBy_pure] at h
          obtain ⟨rfl, rfl⟩ := h
          exact ⟨rfl, ha⟩
  · rintro ⟨rfl, ha⟩
    exact .inr ⟨t, us, rfl, by simp [ha]⟩

end

/-- A successful run is in the relation of its procedure. -/
theorem readsBy_of_run {f : {β : Type} → ρ β → EStateM Stop (List Entry) β}
    {S : {β : Type} → ρ β → List Entry → β → List Entry → Prop}
    (h : ∀ {β : Type} (rule : ρ β) es b us, f rule es = .ok b us → S rule es b us)
    (p : Parse ρ α) {es us : List Entry} {a : α} (hp : p.run f es = .ok a us) :
    p.ReadsBy S es a us := by
  induction p generalizing es us with
  | done b => cases hp; exact ⟨rfl, rfl⟩
  | andThen p q ihp ihq =>
      simp only [run] at hp
      cases hr : p.run f es with
      | ok b vs =>
          rw [hr] at hp
          exact ⟨b, vs, ihp hr, ihq b hp⟩
      | error e vs => simp [hr] at hp
  | fail e => cases hp
  | peek =>
      simp only [run, TokenSource.peek] at hp
      cases he : Entry.front es <;> simp_all [answer, ReadsBy]
  | next =>
      simp only [run, TokenSource.next] at hp
      cases he : Entry.front es <;> simp_all [answer, ReadsBy]
  | call rule => exact h rule es _ us hp

end Parse

/-- What a rule of the grammar reads. -/
def Rule.Reads {α : Type} (rule : Rule α) (es : List Entry) (a : α) (us : List Entry) : Prop :=
  Grammar.outcome (.call rule) es = .ok a us

namespace Grammar

open Parse

variable {α : Type}

theorem outcome_eq_ok_iff (p : Parse Rule α) {es us : List Entry} {a : α} :
    outcome p es = .ok a us ↔ p.ReadsBy Rule.Reads es a us := by
  induction p generalizing es us with
  | andThen p q ihp ihq =>
      show outcome (p >>= q) es = _ ↔ _
      rw [outcome_bind]
      constructor
      · intro h
        cases hr : outcome p es with
        | ok b vs =>
            rw [hr] at h
            exact ⟨b, vs, ihp.mp hr, (ihq b).mp h⟩
        | error e vs => simp [hr] at h
      · rintro ⟨b, vs, hp, hq⟩
        rw [ihp.mpr hp]
        exact (ihq b).mpr hq
  | done b =>
      simp only [outcome, run, ReadsBy, EStateM.Result.ok.injEq]
      exact and_congr eq_comm eq_comm
  | fail e => simp [outcome, run, ReadsBy]
  | peek =>
      simp only [outcome, run, TokenSource.peek, ReadsBy]
      cases Entry.front es <;> simp [answer, eq_comm]
  | next =>
      simp only [outcome, run, TokenSource.next, ReadsBy]
      cases Entry.front es <;> simp [answer, eq_comm]
  | call rule => exact Iff.rfl

end Grammar

namespace Rule

variable {α : Type} {es us : List Entry} {a : α}

theorem reads_iff {rule : Rule α} : rule.Reads es a us ↔ rule.body.ReadsBy Rule.Reads es a us := by
  rw [Reads, Grammar.outcome_call, Grammar.outcome_eq_ok_iff]

/-- What the bodies of the rules keep holds of all that the rules read. -/
theorem Reads.least {S : {β : Type} → Rule β → List Entry → β → List Entry → Prop}
    (step : ∀ {β : Type} (rule : Rule β) es b us, rule.body.ReadsBy S es b us → S rule es b us)
    {rule : Rule α} (h : rule.Reads es a us) : S rule es a us := by
  have aux : ∀ (d : Nat) {β : Type} (rule : Rule β) (es : List Entry) (b : β) (us : List Entry),
      Parse.runRule Rule.body d rule es = .ok b us → S rule es b us := by
    intro d
    induction d with
    | zero => intro β rule es b us h; cases h
    | succ d ih => exact fun rule es b us h => step rule es b us (Parse.readsBy_of_run ih _ h)
  exact aux _ rule es a us h

end Rule

end SoundLang
