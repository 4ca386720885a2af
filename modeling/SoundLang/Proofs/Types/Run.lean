import SoundLang.Proofs.Types.Lowering

/-! # Runs of an interner

Whatever is asked of an interner one after the other, its ids stay canonical (`Interner.Reachable.ids_canonical`). -/

namespace SoundLang

namespace Interner

/-- What can be asked of an interner. -/
inductive Op where
  /-- To store a primitive type, a tuple, a function or a sound. -/
  | intern (d : TypeData)
  /-- To store again what an id names. -/
  | reintern (id : TypeId)
  /-- To store the type of an annotation. -/
  | lower (type : TypeExpr Span)
  /-- To store the types of an item. -/
  | lowerItem (i : Item Span)

/-- The interner after an operation.  Lowering that fails keeps the types before the wrong one. -/
def perform (t : Interner) : Op → Interner
  | .intern d => t.interned d
  | .reintern id => match t.get? id with
    | some d => t.interned d
    | none => t
  | .lower type => ((Lowering.type type).run.run t).2
  | .lowerItem i => (Lowering.lowerItem i t).2

/-- The interner after a run of operations. -/
def after (t : Interner) (ops : List Op) : Interner := ops.foldl perform t

/-- A run of operations from the start leads to the interner. -/
def Reachable (t : Interner) : Prop := ∃ ops, t = initial.after ops

variable {t : Interner}

/-- An operation interns layers. -/
theorem perform_eq (t : Interner) (op : Op) : ∃ ds, t.perform op = t.internedAll ds := by
  cases op with
  | intern d => exact ⟨[d], rfl⟩
  | reintern id =>
      cases hd : t.get? id with
      | none => exact ⟨[], by simp [perform, hd, internedAll]⟩
      | some d => exact ⟨[d], by simp [perform, hd, internedAll]⟩
  | lower type => exact Lowering.interns_type type t
  | lowerItem i => exact Lowering.interns_item i t

theorem Lawful.perform (h : t.Lawful) (op : Op) : (t.perform op).Lawful ∧ t.Extends (t.perform op) := by
  obtain ⟨ds, hds⟩ := perform_eq t op
  rw [hds]
  exact h.internedAll ds

theorem Lawful.after (h : t.Lawful) (ops : List Op) : (t.after ops).Lawful ∧ t.Extends (t.after ops) := by
  induction ops generalizing t with
  | nil => exact ⟨h, Extends.refl t⟩
  | cons op ops ih =>
      obtain ⟨hop, hext⟩ := h.perform op
      obtain ⟨hops, hext'⟩ := ih hop
      exact ⟨hops, hext.trans hext'⟩

theorem Reachable.lawful (h : t.Reachable) : t.Lawful := by
  obtain ⟨ops, rfl⟩ := h
  exact (lawful_initial.after ops).1

/-- The full form of a type is its layer with the full forms of its parts. -/
theorem Lawful.expand?_eq (h : t.Lawful) (id : TypeId) :
    t.expand? id = (t.get? id).bind fun d => d.assemble t.expand? := by
  cases hd : t.get? id with
  | none => rw [expand?, expandWithin_succ, hd, Option.bind_none, Option.bind_none]
  | some d =>
      obtain ⟨ty, hty⟩ := h.expands_of_get? hd
      have hlayer := hty
      rw [expand?, expandWithin_succ, hd] at hlayer
      have hmono : ∀ id ∈ d.children, ∀ ty, t.expandWithin t.size id = some ty → t.expand? id = some ty :=
        fun _ _ _ => expandWithin_mono (Extends.refl t) (Nat.le_succ _)
      exact hty.trans (TypeData.assemble_mono hmono hlayer).symm

/-- After any run, two known ids are equal just where their types in full are.  What an id names is interned under that
id, and nothing is stored.  An id keeps its entry in all that follows; it tells the shape and the place of the entry,
for as many places as a shape can have. -/
theorem Reachable.ids_canonical (h : t.Reachable) :
    (∀ a b d d', t.get? a = some d → t.get? b = some d' →
      ∃ x y, t.expand? a = some x ∧ t.expand? b = some y ∧ (a = b ↔ x = y)) ∧
    (∀ id, t.expand? id = (t.get? id).bind fun d => d.assemble t.expand?) ∧
    (∀ id d, t.get? id = some d → t.intern d = .ok (id, t)) ∧
    (∀ d id u, t.intern d = .ok (id, u) → ∀ ops, (u.after ops).get? id = some d) ∧
    (∀ id e, t.entry? id = some e → ∀ ops, entry? (t.after ops) id = some e) ∧
    (∀ s, (t.ofShape s).size ≤ TypeId.capacity) ∧
    ∀ s place, place < TypeId.capacity →
      (TypeId.ofParts s place).shapeNumber = s.number ∧ (TypeId.ofParts s place).place = place ∧
        t.entry? (.ofParts s place) = (t.ofShape s).entries[place]? := by
  have h := h.lawful
  refine ⟨fun a b d d' ha hb => ?_, h.expand?_eq, fun id d => h.intern_get?, fun d id u hu ops => ?_,
    fun id e he ops => (h.after ops).2 id e he, fun s => ?_, fun s place hplace => ?_⟩
  · obtain ⟨x, hx⟩ := h.expands_of_get? ha
    obtain ⟨y, hy⟩ := h.expands_of_get? hb
    refine ⟨x, y, hx, hy, ?_, ?_⟩
    · rintro rfl
      exact Option.some.inj (hx.symm.trans hy)
    · rintro rfl
      exact h.expandWithin_inj hx hy
  · obtain ⟨hlawful, -, hd⟩ := h.intern hu
    exact (hlawful.after ops).2.get? hd
  · cases s with
    | primitive =>
        rw [ofShape, h.primitives]
        decide
    | tuple | function | sound => exact (h.bucket (by decide)).size_le
  · exact ⟨TypeId.shapeNumber_ofParts hplace, TypeId.place_ofParts hplace, entry?_ofParts t hplace⟩

/-- A tuple of a sound after both are stored. -/
theorem ids_canonical_of_sound :
    ∃ x y, (initial.after [.intern (.sound Primitive.float.id), .intern (.tuple [.ofParts .sound 0])]).expand?
        (.ofParts .sound 0) = some x ∧
      (initial.after [.intern (.sound Primitive.float.id), .intern (.tuple [.ofParts .sound 0])]).expand?
        (.ofParts .tuple 1) = some y ∧ (TypeId.ofParts .sound 0 = .ofParts .tuple 1 ↔ x = y) :=
  (Reachable.ids_canonical ⟨_, rfl⟩).1 _ _ (.sound Primitive.float.id) (.tuple [.ofParts .sound 0])
    (by decide) (by decide)

end Interner

end SoundLang
