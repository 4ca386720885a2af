import SoundLang.Proofs.Types.Meaning

/-! # What interning does

An interner that is asked for a layer finds it, or stores it behind the others of its shape, or refuses it and stays
as it is.  It looks at the parts of a layer only if the layer is new; but the parts of what is stored are known
(`Interner.Lawful.unknownPart?_of_get?`), so a layer with an unknown part is never found.  Hence the parts alone tell
whether a layer is refused for one of them (`Interner.Reachable.interning_atomic`). -/

namespace SoundLang

namespace Interner

variable {t u : Interner} {id part : TypeId} {d : TypeData}

/-! ### Unknown parts -/

/-- The first part of a layer that names nothing here. -/
def unknownPart? (t : Interner) (d : TypeData) : Option TypeId := d.children.find? fun id => (t.get? id).isNone

theorem isNone_get? (t : Interner) (id : TypeId) : (t.get? id).isNone = (t.flags? id).isNone := by
  unfold get? flags?
  cases t.entry? id <;> rfl

theorem partFlags_eq (t : Interner) (parts : List TypeId) :
    t.partFlags parts =
      match parts.find? (fun id => (t.get? id).isNone) with
      | some id => .error (.foreign id)
      | none => .ok (parts.filterMap t.flags?) := by
  induction parts with
  | nil => rfl
  | cons id parts ih =>
      unfold partFlags at ih ⊢
      rw [List.mapM_cons, ih, List.find?_cons, isNone_get?]
      cases hflags : t.flags? id with
      | none => rfl
      | some flags =>
          simp only [Option.isNone_some, List.filterMap_cons, hflags]
          cases parts.find? (fun id => (t.get? id).isNone) <;> rfl

/-- A layer is looked up, then its parts are, and then there must be room for it. -/
theorem intern_eq (t : Interner) (d : TypeData) :
    t.intern d =
      match t.find? d with
      | some id => .ok (id, t)
      | none =>
        match t.unknownPart? d with
        | some id => .error (.foreign id)
        | none =>
          if (t.ofShape d.shape).size < TypeId.capacity then
            .ok (.ofParts d.shape (t.ofShape d.shape).size, t.push ⟨d, .compute d (d.children.filterMap t.flags?)⟩)
          else .error (.full d.shape) := by
  unfold intern unknownPart?
  rw [partFlags_eq]
  cases t.find? d with
  | some id => rfl
  | none =>
      cases d.children.find? (fun id => (t.get? id).isNone) <;> rfl

/-- The parts of a known type are known. -/
theorem Lawful.unknownPart?_of_get? (h : t.Lawful) (hd : t.get? id = some d) : t.unknownPart? d = none := by
  unfold unknownPart?
  rw [List.find?_eq_none]
  intro part hpart hnone
  obtain ⟨ty, hty⟩ := h.expands_of_get? hd
  rw [h.expand?_eq, hd, Option.bind_some] at hty
  obtain ⟨ty', hty'⟩ := TypeData.exists_of_assemble hty part hpart
  obtain ⟨d', hd'⟩ := exists_of_expand? hty'
  rw [hd'] at hnone
  cases hnone

/-- Unless some id names it, a layer is looked up in vain. -/
theorem Lawful.find?_eq_none (h : t.Lawful) : t.find? d = none ↔ ∀ id, t.get? id ≠ some d := by
  rw [Option.eq_none_iff_forall_ne_some]
  constructor
  · intro hnone id hd
    exact hnone id (h.find?_iff.mpr hd)
  · intro hnone id hfind
    exact hnone id (h.find?_iff.mp hfind)

/-! ### The outcome -/

/-- One entry is stored behind the others of its shape, and nothing else changes. -/
structure Appends (t u : Interner) (e : Entry) : Prop where
  same : u.ofShape e.data.shape = (t.ofShape e.data.shape).push e
  others : ∀ s, s ≠ e.data.shape → u.ofShape s = t.ofShape s

theorem eq_of_ofShape (h : ∀ s, t.ofShape s = u.ofShape s) : t = u := by
  obtain ⟨primitives, tuples, functions, sounds⟩ := t
  have hprimitives : primitives = u.primitives := h .primitive
  have htuples : tuples = u.tuples := h .tuple
  have hfunctions : functions = u.functions := h .function
  have hsounds : sounds = u.sounds := h .sound
  rw [hprimitives, htuples, hfunctions, hsounds]

theorem appends_iff {e : Entry} : t.Appends u e ↔ u = t.push e := by
  constructor
  · intro h
    apply eq_of_ofShape
    intro s
    rw [ofShape_push]
    by_cases hs : s = e.data.shape
    · subst hs
      rw [if_pos rfl, h.same]
    · rw [if_neg hs, h.others s hs]
  · rintro rfl
    constructor
    · rw [ofShape_push, if_pos rfl]
    · intro s hs
      rw [ofShape_push, if_neg hs]

/-- The entry that is stored for a new layer. -/
def entryFor (t : Interner) (d : TypeData) : Entry := ⟨d, .compute d (d.children.filterMap t.flags?)⟩

/-- A layer with an unknown part is not known. -/
theorem Lawful.new_of_unknown (h : t.Lawful) (hpart : t.unknownPart? d = some part) : ∀ id, t.get? id ≠ some d := by
  intro id hd
  rw [h.unknownPart?_of_get? hd] at hpart
  cases hpart

theorem Lawful.intern_of_unknown (h : t.Lawful) (hpart : t.unknownPart? d = some part) :
    t.intern d = .error (.foreign part) := by
  simp only [intern_eq, h.find?_eq_none.mpr (h.new_of_unknown hpart), hpart]

theorem Lawful.intern_of_new (h : t.Lawful) (hparts : t.unknownPart? d = none) (hnew : ∀ id, t.get? id ≠ some d) :
    t.intern d =
      if (t.ofShape d.shape).size < TypeId.capacity then
        .ok (.ofParts d.shape (t.ofShape d.shape).size, t.push (t.entryFor d))
      else .error (.full d.shape) := by
  simp only [intern_eq, h.find?_eq_none.mpr hnew, hparts, entryFor]

/-- After any run, an interner refuses a layer for its parts just if it has an unknown one, and names the first of them.
A layer with known parts it finds, or stores behind the others of its shape under the next id, or refuses because all
ids of the shape are given away.  A refusal leaves everything as it is. -/
theorem Reachable.interning_atomic (h : t.Reachable) (d : TypeData) :
    (∀ id u, (Lowering.intern d).run.run t = (.error (.refused (.foreign id)), u) ↔
      d.shape ≠ .primitive ∧ t.unknownPart? d = some id ∧ u = t) ∧
    (∀ s u, (Lowering.intern d).run.run t = (.error (.refused (.full s)), u) ↔
      t.unknownPart? d = none ∧ (∀ id, t.get? id ≠ some d) ∧ TypeId.capacity ≤ (t.ofShape d.shape).size ∧
        s = d.shape ∧ u = t) ∧
    (∀ id u, (Lowering.intern d).run.run t = (.ok id, u) ↔
      (t.get? id = some d ∧ u = t) ∨
      (t.unknownPart? d = none ∧ (∀ id, t.get? id ≠ some d) ∧ (t.ofShape d.shape).size < TypeId.capacity ∧
        id = .ofParts d.shape (t.ofShape d.shape).size ∧ t.Appends u (t.entryFor d))) ∧
    ((∃ id u, (Lowering.intern d).run.run t = (.ok id, u)) ↔
      t.unknownPart? d = none ∧ ((∃ id, t.get? id = some d) ∨ (t.ofShape d.shape).size < TypeId.capacity)) := by
  have h := h.lawful
  have hrun : ∀ r u, (Lowering.intern d).run.run t = (r, u) ↔
      ((Lowering.intern d).run.run t).1 = r ∧ ((Lowering.intern d).run.run t).2 = u := fun _ _ => Prod.ext_iff
  simp only [hrun, appends_iff]
  rw [Lowering.run_intern]
  cases hpart : t.unknownPart? d with
  | some part =>
      have hnew := h.new_of_unknown hpart
      have hshape : d.shape ≠ .primitive := by
        intro hs
        cases d <;> cases hs
        cases hpart
      simp [h.intern_of_unknown hpart, hnew, hshape, eq_comm]
  | none =>
      by_cases hknown : ∃ id, t.get? id = some d
      · obtain ⟨id, hd⟩ := hknown
        have hid : ∀ id', t.get? id' = some d ↔ id = id' := by
          intro id'
          rw [← h.find?_iff, h.find?_iff.mpr hd, Option.some.injEq]
        simp [h.intern_get? hd, hid, eq_comm]
      · have hnew : ∀ id, t.get? id ≠ some d := fun id hd => hknown ⟨id, hd⟩
        by_cases hroom : (t.ofShape d.shape).size < TypeId.capacity
        · simp [h.intern_of_new hpart hnew, hnew, hroom, eq_comm]
        · have hfull : TypeId.capacity ≤ (t.ofShape d.shape).size := Nat.le_of_not_lt hroom
          simp [h.intern_of_new hpart hnew, hnew, hroom, hfull, eq_comm]

/-- The interner after `sound[float]` was stored in it. -/
def withSound : Interner := initial.after [.intern (.sound Primitive.float.id)]

/-- The result of a function is looked at before its parameters.  No tuple can be a part of itself: the id that it would
get is unknown.  A tuple of the stored sound gets that id. -/
theorem interning_atomic_withSound :
    (Lowering.intern (.function [.ofParts .sound 7] (.ofParts .tuple 1))).run.run withSound =
      (.error (.refused (.foreign (.ofParts .tuple 1))), withSound) ∧
    (Lowering.intern (.tuple [.ofParts .sound 0, .ofParts .tuple 1])).run.run withSound =
      (.error (.refused (.foreign (.ofParts .tuple 1))), withSound) ∧
    ∃ id u, (Lowering.intern (.tuple [.ofParts .sound 0])).run.run withSound = (.ok id, u) := by
  have hreachable : withSound.Reachable := ⟨_, rfl⟩
  refine ⟨?_, ?_, ?_⟩
  · exact ((hreachable.interning_atomic _).1 _ _).mpr ⟨by decide, by decide, rfl⟩
  · exact ((hreachable.interning_atomic _).1 _ _).mpr ⟨by decide, by decide, rfl⟩
  · exact (hreachable.interning_atomic _).2.2.2.mpr ⟨by decide, .inr (by decide)⟩

end Interner

end SoundLang
