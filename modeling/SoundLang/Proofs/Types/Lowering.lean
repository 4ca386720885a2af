import SoundLang.Proofs.Types.Canonical

/-! # What lowering does to the interner

Lowering an annotation or an item is made of steps that stop, or intern a layer (`Lowering.Built`).  So layers are
interned one after the other, and nothing else changes (`Lowering.Interns`), and lowering keeps what interning one layer
keeps. -/

namespace SoundLang

namespace Interner

/-- The interner after it was asked for a layer; it stays as it is if it does not take the layer. -/
def interned (t : Interner) (d : TypeData) : Interner :=
  match t.intern d with
  | .ok (_, u) => u
  | .error _ => t

/-- The interner after it was asked for layers, in order. -/
def internedAll (t : Interner) (ds : List TypeData) : Interner := ds.foldl interned t

theorem internedAll_append (t : Interner) (ds ds' : List TypeData) :
    t.internedAll (ds ++ ds') = (t.internedAll ds).internedAll ds' := List.foldl_append

theorem Lawful.interned {t : Interner} (h : t.Lawful) (d : TypeData) :
    (t.interned d).Lawful ∧ t.Extends (t.interned d) := by
  unfold Interner.interned
  split
  · next hi => exact ⟨(h.intern hi).1, (h.intern hi).2.1⟩
  · exact ⟨h, Extends.refl t⟩

theorem Lawful.internedAll {t : Interner} (h : t.Lawful) (ds : List TypeData) :
    (t.internedAll ds).Lawful ∧ t.Extends (t.internedAll ds) := by
  induction ds generalizing t with
  | nil => exact ⟨h, Extends.refl t⟩
  | cons d ds ih =>
      obtain ⟨hd, hext⟩ := h.interned d
      obtain ⟨hds, hext'⟩ := ih hd
      exact ⟨hds, hext.trans hext'⟩

end Interner

namespace Lowering

variable {α β : Type}

/-! ### One step after the other -/

@[simp] theorem run_pure (a : α) (t : Interner) : (pure a : Lowering α).run.run t = (.ok a, t) := rfl

@[simp] theorem run_get (t : Interner) : (get : Lowering Interner).run.run t = (.ok t, t) := rfl

@[simp] theorem run_throw (e : Stop) (t : Interner) : (throw e : Lowering α).run.run t = (.error e, t) := rfl

theorem run_bind (m : Lowering α) (f : α → Lowering β) (t : Interner) :
    (m >>= f).run.run t =
      match m.run.run t with
      | (.ok a, u) => (f a).run.run u
      | (.error e, u) => (.error e, u) := by
  change (ExceptT.bindCont f (m.run.run t).1).run (m.run.run t).2 = _
  rcases m.run.run t with ⟨a | e, u⟩ <;> rfl

theorem run_intern (d : TypeData) (t : Interner) :
    (intern d).run.run t =
      match t.intern d with
      | .ok (id, u) => (.ok id, u)
      | .error e => (.error (.refused e), t) := by
  unfold Lowering.intern
  rw [run_bind, run_get]
  simp only
  cases t.intern d <;> rfl

/-! ### Lowering interns -/

/-- The computation changes the interner by interning layers only. -/
def Interns (m : Lowering α) : Prop := ∀ t, ∃ ds, (m.run.run t).2 = t.internedAll ds

theorem interns_pure (a : α) : Interns (pure a) := fun _ => ⟨[], rfl⟩

theorem interns_throw (e : Stop) : Interns (throw e : Lowering α) := fun _ => ⟨[], rfl⟩

theorem interns_intern (d : TypeData) : Interns (intern d) := by
  refine fun t => ⟨[d], ?_⟩
  rw [run_intern]
  change _ = t.interned d
  unfold Interner.interned
  cases t.intern d <;> rfl

theorem Interns.bind {m : Lowering α} {f : α → Lowering β} (hm : Interns m) (hf : ∀ a, Interns (f a)) :
    Interns (m >>= f) := by
  intro t
  obtain ⟨ds, hds⟩ := hm t
  rw [run_bind]
  split
  · next a u h =>
      rw [h] at hds
      obtain ⟨ds', hds'⟩ := hf a u
      exact ⟨ds ++ ds', by rw [hds', Interner.internedAll_append, ← hds]⟩
  · next h => exact ⟨ds, by simpa [h] using hds⟩

/-! ### What lowering is made of -/

/-- The computation is made of steps each of which gives what it has, stops, or interns a layer. -/
inductive Built : {α : Type} → Lowering α → Prop
  | pure {α : Type} (a : α) : Built (pure a)
  | throw {α : Type} (e : Stop) : Built (throw e : Lowering α)
  | intern (d : TypeData) : Built (intern d)
  | bind {α β : Type} {m : Lowering α} {f : α → Lowering β} (hm : Built m) (hf : ∀ a, Built (f a)) : Built (m >>= f)

theorem Built.interns {m : Lowering α} (h : Built m) : Interns m := by
  induction h with
  | pure a => exact interns_pure a
  | throw e => exact interns_throw e
  | intern d => exact interns_intern d
  | bind _ _ hm hf => exact hm.bind hf

theorem built_named (span : Span) (name : String) : Built (named span name) := by
  unfold named
  split
  · exact .pure _
  · split <;> exact .throw _

mutual

theorem built_type : (type : TypeExpr Span) → Built (Lowering.type type)
  | .named span name => by
      rw [Lowering.type]
      exact built_named span name
  | .applied span name args => by
      unfold Lowering.type
      split
      · split
        · exact .pure _
        · exact .throw _
      · split
        · split
          · next inner => exact (built_type inner).bind fun _ => .intern _
          · exact .throw _
        · exact .throw _
  | .tuple _ elems => by
      rw [Lowering.type]
      exact (built_types elems).bind fun _ => .intern _

theorem built_types : (types : List (TypeExpr Span)) → Built (Lowering.types types)
  | [] => by
      rw [Lowering.types]
      exact .pure _
  | type :: types => by
      rw [Lowering.types]
      exact (built_type type).bind fun _ => (built_types types).bind fun _ => .pure _

end

theorem built_annotations (types : List (TypeExpr Span)) : Built (annotations types) :=
  (built_types types).bind fun _ => .pure _

theorem built_signature (d : Definition Span) (params result : List (Span × TypeId)) :
    Built (signature d params result) := by
  unfold signature
  split
  · split
    · rw [map_eq_pure_bind]
      exact (Built.intern _).bind fun _ => .pure _
    · exact .pure _
  · exact .pure _

theorem built_item (i : Item Span) : Built (item i) := by
  cases i with
  | stmt s => exact (built_annotations _).bind fun _ => .pure _
  | definition d =>
      exact (built_annotations _).bind fun _ => (built_annotations _).bind fun _ =>
        (built_signature d _ _).bind fun _ => (built_annotations _).bind fun _ => .pure _

theorem interns_type (type : TypeExpr Span) : Interns (Lowering.type type) := (built_type type).interns

theorem interns_item (i : Item Span) : Interns (item i) := (built_item i).interns

end Lowering

end SoundLang
