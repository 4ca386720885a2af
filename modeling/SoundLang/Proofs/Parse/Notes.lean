import SoundLang.Proofs.Parse.Phrase

/-! # Annotations of phrases

Every node of a phrase is annotated with `note ts`, where `ts` are the tokens of the node, at least one
(`IsExpr`, `IsStmt`, … each have a lemma `note_eq` and a lemma `ne_nil`).  The annotation `spanOf` is the stretch
from the first token to the last; spans of longer lists are joined from spans of their parts. -/

namespace SoundLang

/-! ### Spans of tokens -/

/-- From the start of the first token to the end of the last one. -/
def spanOf (ts : List Token) : Span :=
  ⟨(ts.head?.map (·.span.start)).getD ⟨0, 0⟩, (ts.getLast?.map (·.span.stop)).getD ⟨0, 0⟩⟩

section spanOf
variable {ts us : List Token} (t c : Token)

@[simp] theorem spanOf_singleton : spanOf [t] = t.span := rfl

@[simp] theorem spanOf_cons_start : (spanOf (t :: ts)).start = t.span.start := rfl

theorem spanOf_append_start (h : ts ≠ []) : (spanOf (ts ++ us)).start = (spanOf ts).start := by
  cases ts with
  | nil => exact absurd rfl h
  | cons t ts => rfl

theorem spanOf_append_stop (h : us ≠ []) : (spanOf (ts ++ us)).stop = (spanOf us).stop := by
  simp [spanOf, List.getLast?_eq_some_getLast h]

theorem spanOf_cons_stop (h : us ≠ []) : (spanOf (t :: us)).stop = (spanOf us).stop :=
  @spanOf_append_stop [t] us h

@[simp] theorem spanOf_append_singleton_stop : (spanOf (ts ++ [c])).stop = c.span.stop :=
  spanOf_append_stop (by simp)

theorem spanOf_cons (h : us ≠ []) : spanOf (t :: us) = t.span.join (spanOf us) := by
  rw [Span.join, ← spanOf_cons_stop t h]
  rfl

theorem spanOf_append (ht : ts ≠ []) (hu : us ≠ []) :
    spanOf (ts ++ us) = (spanOf ts).join (spanOf us) := by
  rw [Span.join, ← @spanOf_append_stop ts us hu, ← @spanOf_append_start ts us ht]

theorem spanOf_append_cons (ht : ts ≠ []) (hu : us ≠ []) :
    spanOf (ts ++ c :: us) = (spanOf ts).join (spanOf us) := by
  rw [spanOf_append ht (by simp), spanOf_cons c hu]
  rfl

theorem spanOf_cons_append (h : us ≠ []) : spanOf (t :: (ts ++ us)) = t.span.join (spanOf us) := by
  rw [spanOf_cons t (by simp [h]), Span.join, spanOf_append_stop h]
  rfl

theorem spanOf_enclosed : spanOf (t :: (ts ++ [c])) = t.span.join c.span := by
  rw [spanOf_cons_append t (by simp), spanOf_singleton]

end spanOf

/-! ### The annotation at the root of a phrase -/

namespace Phrase

variable {α : Type} {note : List Token → α} {ts : List Token}

theorem IsType.ne_nil {t : TypeExpr α} (h : IsType note ts t) : ts ≠ [] := by
  cases h <;> simp

theorem IsType.note_eq {t : TypeExpr α} (h : IsType note ts t) : t.note = note ts := by
  cases h <;> rfl

theorem Operand.ne_nil {e : Expr α} (h : Operand note ts e) : ts ≠ [] := by
  cases h <;> simp

theorem Operand.note_eq {e : Expr α} (h : Operand note ts e) : e.note = note ts := by
  cases h <;> rfl

theorem Factor.ne_nil {e : Expr α} (h : Factor note ts e) : ts ≠ [] := by
  cases h with
  | operand h => exact h.ne_nil
  | prefixed _ _ => simp

theorem Factor.note_eq {e : Expr α} (h : Factor note ts e) : e.note = note ts := by
  cases h with
  | operand h => exact h.note_eq
  | prefixed _ _ => rfl

theorem Layer.ne_nil {e : Expr α} : ∀ {n : Nat} {ts : List Token}, Layer note n ts e → ts ≠ []
  | _, _, .factor h => h.ne_nil
  | _, _, .tighter h => h.ne_nil
  | _, _, .left .. => by simp
  | _, _, .right .. => by simp

theorem Layer.note_eq {e : Expr α} : ∀ {n : Nat} {ts : List Token}, Layer note n ts e → e.note = note ts
  | _, _, .factor h => h.note_eq
  | _, _, .tighter h => h.note_eq
  | _, _, .left .. => rfl
  | _, _, .right .. => rfl

theorem IsStmt.ne_nil {s : Stmt α} (h : IsStmt note ts s) : ts ≠ [] := by
  cases h <;> simp

theorem IsStmt.note_eq {s : Stmt α} (h : IsStmt note ts s) : s.note = note ts := by
  cases h <;> rfl

theorem IsParam.ne_nil {p : Param α} (h : IsParam note ts p) : ts ≠ [] := by
  cases h
  simp

theorem IsParam.note_eq {p : Param α} (h : IsParam note ts p) : p.note = note ts := by
  cases h
  rfl

theorem IsBody.ne_nil {b : Body α} (h : IsBody note ts b) : ts ≠ [] := by
  cases h <;> simp

theorem IsDefinition.ne_nil {d : Definition α} (h : IsDefinition note ts d) : ts ≠ [] := by
  cases h
  simp

theorem IsItem.ne_nil {i : Item α} (h : IsItem note ts i) : ts ≠ [] := by
  cases h with
  | stmt h => exact h.ne_nil
  | definition h => exact h.ne_nil

theorem IsItem.note_eq {i : Item α} (h : IsItem note ts i) : i.note = note ts := by
  cases h with
  | stmt h => exact h.note_eq
  | definition h => cases h; rfl

/-- A layer contains the tighter ones. -/
theorem Layer.mono {n m : Nat} {e : Expr α} (hnm : n ≤ m) (h : Layer note n ts e) :
    Layer note m ts e := by
  induction hnm with
  | refl => exact h
  | step _ ih => exact .tighter ih

end Phrase

end SoundLang
