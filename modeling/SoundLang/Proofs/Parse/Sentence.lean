import SoundLang.Proofs.Parse.Complete
import SoundLang.Proofs.Parse.Plain

/-! # Sentences

`Grammar.readAll` reads one item after the other.  On a list of entries its bounds are never reached
(`readItems_succ`), and

* the items it has read when it stops are the items of a sentence made of the tokens it has taken
  (`readItems_sound`);
* it reads every sentence to its end (`readItems_complete`).

So it accepts just the sentences of the grammar, and each has one tree (`readAll_accepts_sentences`). -/

namespace SoundLang

open Phrase

namespace Grammar

open Parse

/-! ### One item after the other -/

/-- Where the bound is larger than the number of entries, items are read by the equation of the loop. -/
theorem readItems_succ {bound : Nat} {es : List Entry} (h : es.length ≤ bound) :
    readItems (bound + 1) es =
      match outcome item es with
      | .ok none us => ([], none, us)
      | .ok (some i) us => (i :: (readItems bound us).1, (readItems bound us).2)
      | .error (.error e) us => ([], some e, us)
      | .error .tooDeep us => ([], none, us) := by
  rw [readItems, readWithin, run_eq_outcome item (by unfold depth; omega)]
  cases outcome item es with
  | ok o us => cases o <;> rfl
  | error stop us => cases stop <;> rfl

theorem length_lt_of_item {es us : List Entry} {i : Item Span} (h : outcome item es = .ok (some i) us) :
    us.length < es.length := by
  obtain ⟨ts, rfl, hi⟩ := spec_item h
  have := List.length_pos_iff.mpr hi.ne_nil
  simp only [List.length_append, List.length_map]
  omega

/-- A larger bound reads the same items. -/
theorem readItems_eq_readItems {bound : Nat} : ∀ {bound' : Nat} {es : List Entry}, es.length < bound →
    es.length < bound' → readItems bound es = readItems bound' es := by
  induction bound with
  | zero => exact fun h => absurd h (Nat.not_lt_zero _)
  | succ bound ih =>
      intro bound' es h h'
      obtain ⟨bound', rfl⟩ : ∃ n, bound' = n + 1 := ⟨bound' - 1, by omega⟩
      rw [readItems_succ (by omega), readItems_succ (by omega)]
      cases ho : outcome item es with
      | error stop us => cases stop <;> rfl
      | ok o us =>
          cases o with
          | none => rfl
          | some i =>
              have := length_lt_of_item ho
              simp only [@ih bound' us (by omega) (by omega)]

/-- The items that are read are those of a sentence, and without an error no entry is left. -/
theorem readItems_sound {bound : Nat} : ∀ {es : List Entry}, es.length < bound →
    ∃ (ts : List Token) (us : List Entry), es = ts.map .ok ++ us ∧
      Sentence spanOf ts (readItems bound es).1 ∧
        ((readItems bound es).2.1 = none → us = [] ∧ (readItems bound es).2.2 = []) := by
  induction bound with
  | zero => exact fun h => absurd h (Nat.not_lt_zero _)
  | succ bound ih =>
      intro es h
      rw [readItems_succ (by omega)]
      cases ho : outcome item es with
      | error stop us =>
          cases stop with
          | error e => exact ⟨[], es, rfl, .nil, fun h => by cases h⟩
          | tooDeep => exact absurd ho (finished_outcome item es us)
      | ok o us =>
          cases o with
          | none =>
              obtain ⟨rfl, rfl⟩ := spec_item ho
              exact ⟨[], [], rfl, .nil, fun _ => ⟨rfl, rfl⟩⟩
          | some i =>
              obtain ⟨ts, rfl, hi⟩ := spec_item ho
              have hlen := length_lt_of_item ho
              obtain ⟨ts', vs, rfl, hs, hend⟩ := @ih us (by omega)
              exact ⟨ts ++ ts', vs, by simp, .cons hi hs, hend⟩

end Grammar

theorem Phrase.Sentence.lacks_else {ts : List Token} {items : List (Item Span)}
    (h : Sentence spanOf ts items) :
    Entry.Lacks (Token.isKeyword .elseWord) (ts.map Except.ok) := by
  cases h with
  | nil => exact Entry.Lacks.nil
  | @cons ts us i items h _ =>
      rw [List.map_append]
      cases h with
      | stmt h => exact h.reads.lacks fun t ht => (Token.isKeyword_of_startsStmt ht).1
      | definition h =>
          obtain ⟨k, rest, rfl, hk, -⟩ := h.reads []
          refine Entry.Lacks.cons_ok.mpr ?_
          rw [Token.isKeyword_iff] at hk
          simp [Token.isKeyword, hk]

namespace Grammar

/-- Every sentence is read to its end. -/
theorem readItems_complete {ts : List Token} {items : List (Item Span)} (h : Sentence spanOf ts items) :
    ∀ {bound : Nat}, ts.length < bound → readItems bound (ts.map Except.ok : List Entry) = (items, none, []) := by
  induction h with
  | nil =>
      intro bound hb
      obtain ⟨bound, rfl⟩ : ∃ n, bound = n + 1 := ⟨bound - 1, by omega⟩
      rfl
  | @cons ts us i items hi hs ih =>
      intro bound hb
      obtain ⟨bound, rfl⟩ : ∃ n, bound = n + 1 := ⟨bound - 1, by omega⟩
      have hpos := List.length_pos_iff.mpr hi.ne_nil
      rw [List.length_append] at hb
      rw [List.map_append, readItems_succ (by simp; omega), hi.reads fun _ => hs.lacks_else]
      simp only [@ih bound (by omega)]

/-- On tokens without errors the loop over the items ends without an error if and only if the tokens are a
sentence, and then it gives the one tree of the sentence. -/
theorem readAll_accepts_sentences (ts : List Token) :
    ((readAll (ts.map Except.ok : List Entry)).2.1 = none ↔
        ∃ items, Sentence (fun _ => ()) ts items) ∧
      ∀ items, Sentence (fun _ => ()) ts items ↔
        (readAll (ts.map Except.ok : List Entry)).2 = (none, []) ∧
          (readAll (ts.map Except.ok : List Entry)).1.map Item.plain = items := by
  have hbound : ts.length < TokenSource.pending (ts.map Except.ok : List Entry) := by
    simp [TokenSource.pending]
  have hcomplete : ∀ items, Sentence (fun _ => ()) ts items →
      (readAll (ts.map Except.ok : List Entry)).2 = (none, []) ∧
        (readAll (ts.map Except.ok : List Entry)).1.map Item.plain = items := by
    intro items h
    obtain ⟨items', h', rfl⟩ := @Sentence.lift _ _ (fun _ => ()) spanOf _ _ h
    rw [readAll, readItems_complete h' hbound]
    exact ⟨rfl, rfl⟩
  have hsound : (readAll (ts.map Except.ok : List Entry)).2.1 = none →
      Sentence (fun _ => ()) ts ((readAll (ts.map Except.ok : List Entry)).1.map Item.plain) := by
    intro h
    have hlen : (ts.map Except.ok : List Entry).length < TokenSource.pending (ts.map Except.ok : List Entry) := by
      simpa using hbound
    obtain ⟨ts', us, hes, hs, hend⟩ := readItems_sound hlen
    obtain ⟨rfl, -⟩ := hend h
    have hts : ts = ts' := by
      rw [List.append_nil] at hes
      exact (List.map_inj_right fun _ _ h => Except.ok.inj h).mp hes
    subst hts
    exact hs.map fun _ => ()
  refine ⟨⟨fun h => ⟨_, hsound h⟩, ?_⟩, fun items => ⟨hcomplete items, ?_⟩⟩
  · rintro ⟨items, h⟩
    rw [(hcomplete items h).1]
  · rintro ⟨h, rfl⟩
    exact hsound (by rw [h])

end Grammar

end SoundLang
