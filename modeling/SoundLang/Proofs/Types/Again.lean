import SoundLang.Proofs.Types.Settled

/-! # The same item lowered again

A lowering that comes to a wrong annotation leaves what it stored before.  Where it is started again, each step up to
that annotation finds what the first time stored, and the step that stopped stops again, as nothing was stored since
(`Lowering.Built.run_again`).  So an item lowered twice has one answer, and the second time stores nothing
(`Interner.Reachable.lowered_again`). -/

namespace SoundLang

/-- Started again where it ended, a computation gives the same answer and stores nothing. -/
theorem Lowering.Built.run_again {α : Type} {m : Lowering α} (hm : Built m) {t u : Interner} {r : Except Stop α}
    (ht : t.Lawful) (h : m.run.run t = (r, u)) : m.run.run u = (r, u) := by
  induction hm generalizing t u with
  | pure a =>
      cases h
      rfl
  | throw e =>
      cases h
      rfl
  | intern d =>
      match r with
      | .ok id =>
          have hu := (interns_intern d).extends ht h
          exact run_intern_of_get? hu.1 (get?_of_run_intern ht h)
      | .error e =>
          -- a refusal stores nothing, so it is refused by the same interner
          obtain rfl : u = t := by
            rw [run_intern] at h
            cases hi : t.intern d <;> rw [hi] at h <;> cases h
            rfl
          exact h
  | bind hm hf ihm ihf =>
      obtain ⟨e, rfl, hstop⟩ | ⟨a, w, hfirst, hrest⟩ := run_bind_cases h
      · exact run_bind_of_error _ (ihm ht hstop)
      · -- the first step finds all that it stored, and then the second starts where it ended
        have hw := hm.interns.extends ht hfirst
        have hu := (hf a).interns.extends hw.1 hrest
        rw [run_bind_of_ok _ (hm.repeats.again ht hfirst hu.1 hu.2 nofun)]
        exact ihf a hw.1 hrest

namespace Interner

open Lowering (lowerItem)

/-- An item that is lowered a second time, after any run, gets the same types or the same error, and the interner stays
as the first time left it.  Unless the interner refused a type, this is so also where other types were stored since. -/
theorem Reachable.lowered_again {t : Interner} (ht : t.Reachable) (i : Item Span) :
    lowerItem i (lowerItem i t).2 = lowerItem i t ∧
    (lowerItem i (lowerItem i t).2).2.size = (lowerItem i t).2.size ∧
    ((∀ e, (lowerItem i t).1 ≠ .error (.refused e)) → ∀ ops,
      lowerItem i ((lowerItem i t).2.after ops) = ((lowerItem i t).1, (lowerItem i t).2.after ops)) := by
  have hbuilt := Lowering.built_item i
  have hfirst : (Lowering.item i).run.run t = ((lowerItem i t).1, (lowerItem i t).2) := rfl
  have hsecond : lowerItem i (lowerItem i t).2 = lowerItem i t := hbuilt.run_again ht.lawful hfirst
  refine ⟨hsecond, ?_, fun hanswer ops => ?_⟩
  · rw [hsecond]
  · have hlawful := (hbuilt.interns.extends ht.lawful hfirst).1
    obtain ⟨hlater, hext⟩ := hlawful.after ops
    exact hbuilt.repeats.again ht.lawful hfirst hlater hext hanswer

/-- The definition `def f(a: (int, str)): sound[float] { let b: (bool, x) = 1; }`. -/
def halfRight : Item Span :=
  .definition {
    note := .onLine 0 0 61
    name := ⟨"f", .onLine 0 4 5⟩
    params := [⟨.onLine 0 6 19, ⟨"a", .onLine 0 6 7⟩,
      some (.tuple (.onLine 0 9 19) [.named (.onLine 0 10 13) "int", .named (.onLine 0 15 18) "str"])⟩]
    result := some (.applied (.onLine 0 22 34) ⟨"sound", .onLine 0 22 27⟩ [.named (.onLine 0 28 33) "float"])
    body := .block [.decl (.onLine 0 37 59) ⟨"b", .onLine 0 41 42⟩
      (some (.tuple (.onLine 0 44 53) [.named (.onLine 0 45 49) "bool", .named (.onLine 0 51 52) "x"]))
      (.number (.onLine 0 56 57) "1")] }

/-- The types of the parameter, of the result and of the definition are stored before the wrong annotation in the body
is found.  The second time finds them, and the same error, at once or after other types were stored. -/
theorem lowered_again_halfRight :
    (lowerItem halfRight initial).1 = .error (.error (.unknownType "x" (.onLine 0 51 52))) ∧
    (lowerItem halfRight initial).2.size = initial.size + 3 ∧
    (lowerItem halfRight (lowerItem halfRight initial).2).1 =
      .error (.error (.unknownType "x" (.onLine 0 51 52))) ∧
    (lowerItem halfRight (lowerItem halfRight initial).2).2.size = initial.size + 3 ∧
    ∀ ops, (lowerItem halfRight ((lowerItem halfRight initial).2.after ops)).1 =
      .error (.error (.unknownType "x" (.onLine 0 51 52))) := by
  have herror : (lowerItem halfRight initial).1 = .error (.error (.unknownType "x" (.onLine 0 51 52))) := by
    decide +kernel
  have hsize : (lowerItem halfRight initial).2.size = initial.size + 3 := by decide +kernel
  have hreachable : initial.Reachable := ⟨[], rfl⟩
  obtain ⟨hsecond, hkept, hlater⟩ := hreachable.lowered_again halfRight
  refine ⟨herror, hsize, ?_, ?_, fun ops => ?_⟩
  · rw [hsecond, herror]
  · rw [hkept, hsize]
  · rw [hlater (by simp [herror]) ops, herror]

end Interner

end SoundLang
