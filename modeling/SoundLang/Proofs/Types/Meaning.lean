import Mathlib.Data.List.Forall2
import SoundLang.Proofs.Types.Order

/-! # What annotations mean

An annotation means a type, or something in it is wrong; neither depends on an interner (`TypeExpr.meaning`,
`Item.meaning`).  Lowering finds out just that: from a lawful interner it ends with ids whose full forms are the types
meant, or with the error meant, unless as many types of a shape are stored as ids can tell apart
(`Lowering.ends_item`). -/

namespace SoundLang

mutual

/-- The type that an annotation means, or the first thing in it that is wrong. -/
def TypeExpr.meaning : TypeExpr Span → Except TypeError Ty
  | .named span name =>
    match Primitive.ofName? name with
    | some p => .ok (.primitive p)
    | none =>
      if name = Lowering.soundWord then .error (.wrongArity name 1 0 span)
      else .error (.unknownType name span)
  | .applied span name args =>
    match Primitive.ofName? name.text with
    | some p => if args.isEmpty then .ok (.primitive p) else .error (.wrongArity name.text 0 args.length span)
    | none =>
      if name.text = Lowering.soundWord then
        match args with
        | [inner] => do return .sound (← inner.meaning)
        | _ => .error (.wrongArity name.text 1 args.length span)
      else .error (.unknownType name.text name.note)
  | .tuple _ elems => do return .tuple (← TypeExpr.meanings elems)

/-- The types that annotations mean, in order, or the first thing in them that is wrong. -/
def TypeExpr.meanings : List (TypeExpr Span) → Except TypeError (List Ty)
  | [] => return []
  | t :: ts => do
    let ty ← t.meaning
    let tys ← TypeExpr.meanings ts
    return ty :: tys

end

/-- The types of an item in full. -/
structure ItemMeaning where
  /-- Every annotation's span with the type that it means, in the order of the source. -/
  annotations : List (Span × Ty)
  /-- The function type of a definition that is annotated throughout. -/
  signature : Option Ty

/-- The function type of a definition, from what its annotated parameters and its result mean. -/
def Definition.functionType (d : Definition Span) (params result : List (Span × Ty)) : Option Ty :=
  match result with
  | [(_, result)] => if d.params.all (·.type.isSome) then some (.function (params.map (·.2)) result) else none
  | _ => none

/-- The spans of annotations with the types that they mean. -/
def TypeExpr.located (ts : List (TypeExpr Span)) : Except TypeError (List (Span × Ty)) := do
  return (ts.map (·.note)).zip (← TypeExpr.meanings ts)

/-- What the annotations of an item mean, or the first thing in them that is wrong. -/
def Item.meaning : Item Span → Except TypeError ItemMeaning
  | .stmt s => do return ⟨← TypeExpr.located s.annotations, none⟩
  | .definition d => do
    let params ← TypeExpr.located (d.params.filterMap (·.type))
    let result ← TypeExpr.located d.result.toList
    let body ← TypeExpr.located (Lowering.bodyAnnotations d.body)
    return ⟨params ++ result ++ body, d.functionType params result⟩

/-- Every element has a value, and these are the values. -/
theorem mapM_eq_some_iff {α β : Type} {f : α → Option β} {as : List α} {bs : List β} :
    as.mapM f = some bs ↔ List.Forall₂ (fun a b => f a = some b) as bs := by
  induction as generalizing bs with
  | nil => cases bs <;> simp
  | cons a as ih =>
      simp only [List.mapM_cons, Option.bind_eq_bind, Option.bind_eq_some_iff, List.forall₂_cons_left_iff]
      constructor
      · rintro ⟨b, hb, bs', hbs, ⟨⟩⟩
        exact ⟨b, bs', hb, ih.mp hbs, rfl⟩
      · rintro ⟨b, bs', hb, hbs, rfl⟩
        exact ⟨b, hb, bs', ih.mpr hbs, rfl⟩

theorem TypeData.exists_of_assemble {f : TypeId → Option Ty} {d : TypeData} {ty : Ty} (h : d.assemble f = some ty) :
    ∀ id ∈ d.children, ∃ ty, f id = some ty := by
  have hparts : ∀ {ids : List TypeId} {tys : List Ty}, ids.mapM f = some tys → ∀ id ∈ ids, ∃ ty, f id = some ty := by
    intro ids tys h
    rw [mapM_eq_some_iff] at h
    induction h with
    | nil => exact fun _ hid => absurd hid List.not_mem_nil
    | cons h _ ih => exact List.forall_mem_cons.mpr ⟨⟨_, h⟩, ih⟩
  cases d with
  | primitive p => exact fun _ hid => absurd hid List.not_mem_nil
  | tuple elems =>
      simp only [assemble, Option.bind_eq_bind, Option.bind_eq_some_iff] at h
      obtain ⟨tys, htys, -⟩ := h
      exact hparts htys
  | function params result =>
      simp only [assemble, Option.bind_eq_bind, Option.bind_eq_some_iff] at h
      obtain ⟨tys, htys, r, hr, -⟩ := h
      exact List.forall_mem_cons.mpr ⟨⟨r, hr⟩, hparts htys⟩
  | sound inner =>
      simp only [assemble, Option.bind_eq_bind, Option.bind_eq_some_iff] at h
      obtain ⟨ty, hty, -⟩ := h
      exact List.forall_mem_singleton.mpr ⟨ty, hty⟩

namespace Interner

variable {t u : Interner} {id : TypeId}

/-- An id behind a span, in full. -/
def locate? (t : Interner) (a : Span × TypeId) : Option (Span × Ty) := do return (a.1, ← t.expand? a.2)

/-- The types of an item in full, if all their ids are known. -/
def inFull? (t : Interner) (types : ItemTypes) : Option ItemMeaning := do
  let annotations ← types.annotations.mapM t.locate?
  let signature ← types.signature.mapM t.expand?
  return ⟨annotations, signature⟩

theorem locate?_eq_some_iff {a : Span × TypeId} {b : Span × Ty} :
    t.locate? a = some b ↔ b.1 = a.1 ∧ t.expand? a.2 = some b.2 := by
  simp only [locate?, Option.bind_eq_bind, Option.bind_eq_some_iff]
  constructor
  · rintro ⟨ty, hty, ⟨⟩⟩
    exact ⟨rfl, hty⟩
  · rintro ⟨hspan, hty⟩
    exact ⟨b.2, hty, by rw [← hspan]; rfl⟩

theorem exists_of_expand? {ty : Ty} (h : t.expand? id = some ty) : ∃ d, t.get? id = some d := by
  rw [expand?, expandWithin_succ, Option.bind_eq_some_iff] at h
  obtain ⟨d, hd, -⟩ := h
  exact ⟨d, hd⟩

theorem Lawful.expand?_mono (ht : t.Lawful) (hu : u.Lawful) (hext : t.Extends u) {ty : Ty}
    (h : t.expand? id = some ty) : u.expand? id = some ty := by
  obtain ⟨d, hd⟩ := exists_of_expand? h
  rw [ht.expand?_extends hu hext hd, h]

theorem Lawful.locate?_mono (ht : t.Lawful) (hu : u.Lawful) (hext : t.Extends u) {as : List (Span × TypeId)}
    {bs : List (Span × Ty)} (h : as.mapM t.locate? = some bs) : as.mapM u.locate? = some bs := by
  refine mapM_mono (fun a _ b hb => ?_) h
  simp only [locate?, Option.bind_eq_bind, Option.bind_eq_some_iff] at hb ⊢
  obtain ⟨ty, hty, hb⟩ := hb
  exact ⟨ty, ht.expand?_mono hu hext hty, hb⟩

theorem Lawful.optional_mono (ht : t.Lawful) (hu : u.Lawful) (hext : t.Extends u) {o : Option TypeId}
    {ty : Option Ty} (h : o.mapM t.expand? = some ty) : o.mapM u.expand? = some ty := by
  cases o with
  | none => exact h
  | some id =>
      simp only [Option.mapM_some, Option.map_eq_map, Option.map_eq_some_iff] at h ⊢
      obtain ⟨ty, hty, heq⟩ := h
      exact ⟨ty, ht.expand?_mono hu hext hty, heq⟩

/-- What the types of an item are in full stays so where more types are known. -/
theorem Lawful.inFull?_mono (ht : t.Lawful) (hu : u.Lawful) (hext : t.Extends u) {types : ItemTypes} {m : ItemMeaning}
    (h : t.inFull? types = some m) : u.inFull? types = some m := by
  simp only [inFull?, Option.bind_eq_bind, Option.bind_eq_some_iff] at h ⊢
  obtain ⟨bs, hbs, signature, hsignature, hm⟩ := h
  exact ⟨bs, ht.locate?_mono hu hext hbs, signature, ht.optional_mono hu hext hsignature, hm⟩

theorem partFlags_of_expand? {parts : List TypeId} (h : ∀ id ∈ parts, ∃ ty, t.expand? id = some ty) :
    ∃ flags, t.partFlags parts = .ok flags := by
  induction parts with
  | nil => exact ⟨[], rfl⟩
  | cons id parts ih =>
      obtain ⟨ty, hty⟩ := h id List.mem_cons_self
      obtain ⟨d, hd⟩ := exists_of_expand? hty
      obtain ⟨e, he, -⟩ := get?_eq_some_iff.mp hd
      obtain ⟨flags, hflags⟩ := ih fun id hid => h id (List.mem_cons_of_mem _ hid)
      refine ⟨e.flags :: flags, ?_⟩
      unfold partFlags at hflags ⊢
      rw [List.mapM_cons, hflags]
      simp [flags?, he, bind, Except.bind, pure, Except.pure]

end Interner

namespace Lowering

variable {α β γ δ : Type} {t u : Interner}

/-- From `t` the computation ends with a result that is `x` in full, as `R` tells it, or with the error that `x` is, or
because all ids of a shape are given away.  What `t` knows stays known. -/
def Ends (m : Lowering α) (t : Interner) (x : Except TypeError β) (R : α → β → Interner → Prop) : Prop :=
  (m.run.run t).2.Lawful ∧ t.Extends (m.run.run t).2 ∧
    match (m.run.run t).1 with
    | .ok a => ∃ b, x = .ok b ∧ R a b (m.run.run t).2
    | .error (.error e) => x = .error e
    | .error (.refused e) => ∃ s, e = .full s ∧ TypeId.capacity ≤ ((m.run.run t).2.ofShape s).size

section
variable {R : α → β → Interner → Prop} {S : γ → δ → Interner → Prop}

theorem ends_pure (ht : t.Lawful) {a : α} {b : β} (h : R a b t) : Ends (pure a) t (.ok b) R :=
  ⟨ht, Interner.Extends.refl t, b, rfl, h⟩

theorem ends_throw (ht : t.Lawful) (e : TypeError) : Ends (throw (.error e)) t (.error e) R :=
  ⟨ht, Interner.Extends.refl t, rfl⟩

theorem Ends.bind {m : Lowering α} {f : α → Lowering γ} {x : Except TypeError β} {g : β → Except TypeError δ}
    (hm : Ends m t x R) (hf : ∀ a b u, u.Lawful → t.Extends u → R a b u → Ends (f a) u (g b) S) :
    Ends (m >>= f) t (x >>= g) S := by
  obtain ⟨hu, hext, hm⟩ := hm
  unfold Ends
  rw [run_bind]
  rcases hrun : m.run.run t with ⟨stop | a, u⟩
  · rw [hrun] at hu hext hm
    refine ⟨hu, hext, ?_⟩
    cases stop with
    | error e =>
        obtain rfl : x = .error e := hm
        rfl
    | refused e => exact hm
  · rw [hrun] at hu hext hm
    obtain ⟨b, rfl, hR⟩ := hm
    obtain ⟨hv, hext', hrest⟩ := hf a b u hu hext hR
    exact ⟨hv, hext.trans hext', hrest⟩

end

/-- Storing a layer whose parts are known. -/
theorem ends_intern {d : TypeData} {ty : Ty} (ht : t.Lawful) (hd : d.assemble t.expand? = some ty) :
    Ends (intern d) t (.ok ty) fun id ty u => u.expand? id = some ty := by
  unfold Ends
  rw [run_intern]
  cases hi : t.intern d with
  | ok r =>
      obtain ⟨id, u⟩ := r
      obtain ⟨hu, hext, hget⟩ := ht.intern hi
      refine ⟨hu, hext, ty, rfl, ?_⟩
      change u.expand? id = some ty
      rw [hu.expand?_eq, hget]
      exact TypeData.assemble_mono (fun _ _ _ h => ht.expand?_mono hu hext h) hd
  | error e =>
      obtain ⟨flags, hflags⟩ := Interner.partFlags_of_expand? (TypeData.exists_of_assemble hd)
      refine ⟨ht, Interner.Extends.refl t, ?_⟩
      rw [Interner.intern] at hi
      split at hi
      · cases hi
      · simp only [hflags, bind, Except.bind] at hi
        split at hi
        · cases hi
        · next hfull =>
            cases hi
            exact ⟨d.shape, rfl, Nat.le_of_not_lt hfull⟩

theorem ends_primitive (ht : t.Lawful) (p : Primitive) :
    Ends (pure p.id) t (.ok (.primitive p)) fun id ty u => u.expand? id = some ty := by
  refine ends_pure ht ?_
  rw [ht.expand?_eq, ht.get?_primitive.mpr rfl]
  rfl

mutual

theorem ends_type {t : Interner} (ht : t.Lawful) : (type : TypeExpr Span) →
    Ends (Lowering.type type) t type.meaning fun id ty u => u.expand? id = some ty
  | .named span name => by
      unfold Lowering.type named TypeExpr.meaning
      cases Primitive.ofName? name with
      | some p => exact ends_primitive ht p
      | none =>
          by_cases hs : name = soundWord
          · simpa only [if_pos hs] using ends_throw ht _
          · simpa only [if_neg hs] using ends_throw ht _
  | .applied span name args => by
      unfold Lowering.type TypeExpr.meaning
      cases Primitive.ofName? name.text with
      | some p =>
          by_cases hargs : args.isEmpty = true
          · simpa only [if_pos hargs] using ends_primitive ht p
          · simpa only [if_neg hargs] using ends_throw ht _
      | none =>
          by_cases hs : name.text = soundWord
          · simp only [if_pos hs]
            match args with
            | [inner] =>
                refine (ends_type ht inner).bind fun id ty u hu _ hid => ends_intern hu ?_
                simp [TypeData.assemble, hid]
            | [] | _ :: _ :: _ => exact ends_throw ht _
          · simpa only [if_neg hs] using ends_throw ht _
  | .tuple _ elems => by
      rw [Lowering.type, TypeExpr.meaning]
      refine (ends_types ht elems).bind fun ids tys u hu _ hids => ends_intern hu ?_
      simp [TypeData.assemble, hids]

theorem ends_types {t : Interner} (ht : t.Lawful) : (types : List (TypeExpr Span)) →
    Ends (Lowering.types types) t (TypeExpr.meanings types) fun ids tys u => ids.mapM u.expand? = some tys
  | [] => by
      rw [Lowering.types, TypeExpr.meanings]
      exact ends_pure ht rfl
  | type :: types => by
      rw [Lowering.types, TypeExpr.meanings]
      refine (ends_type ht type).bind fun id ty u hu _ hid => ?_
      refine (ends_types hu types).bind fun ids tys v hv hext hids => ends_pure hv ?_
      simp [List.mapM_cons, hu.expand?_mono hv hext hid, hids]

end

theorem ends_annotations (ht : t.Lawful) (types : List (TypeExpr Span)) :
    Ends (annotations types) t (TypeExpr.located types) fun found meant u => found.mapM u.locate? = some meant := by
  refine (ends_types ht types).bind fun ids tys u hu _ hids => ends_pure hu ?_
  generalize types.map (·.note) = spans
  rw [mapM_eq_some_iff] at hids ⊢
  induction hids generalizing spans with
  | nil => simp
  | cons h _ ih =>
      cases spans with
      | nil => exact .nil
      | cons span spans => exact .cons (Interner.locate?_eq_some_iff.mpr ⟨rfl, h⟩) (ih spans)

theorem ends_signature (ht : t.Lawful) (d : Definition Span) {params result : List (Span × TypeId)}
    {params' result' : List (Span × Ty)} (hparams : params.mapM t.locate? = some params')
    (hresult : result.mapM t.locate? = some result') :
    Ends (signature d params result) t (.ok (d.functionType params' result')) fun id ty u =>
      id.mapM u.expand? = some ty := by
  have htys : (params.map (·.2)).mapM t.expand? = some (params'.map (·.2)) := by
    rw [mapM_eq_some_iff] at hparams ⊢
    rw [List.forall₂_map_left_iff, List.forall₂_map_right_iff]
    exact hparams.imp fun _ _ h => (Interner.locate?_eq_some_iff.mp h).2
  rw [mapM_eq_some_iff] at hresult
  cases hresult with
  | nil => exact ends_pure ht rfl
  | @cons a b _ _ hb hrest =>
      cases hrest with
      | cons _ _ => exact ends_pure ht rfl
      | nil =>
          unfold signature Definition.functionType
          by_cases hall : d.params.all (·.type.isSome) = true
          · simp only [if_pos hall]
            rw [map_eq_pure_bind]
            have hd : (TypeData.function (params.map (·.2)) a.2).assemble t.expand? =
                some (.function (params'.map (·.2)) b.2) := by
              simp [TypeData.assemble, htys, (Interner.locate?_eq_some_iff.mp hb).2]
            exact (ends_intern ht hd).bind (g := fun ty => .ok (some ty)) fun id ty u hu _ hid =>
              ends_pure hu (by simp [hid])
          · simpa only [if_neg hall] using ends_pure ht rfl

/-- Lowering an item finds out what its annotations mean, and is refused only where all ids of a shape are given
away. -/
theorem ends_item (ht : t.Lawful) (i : Item Span) :
    Ends (item i) t i.meaning fun types meant u => u.inFull? types = some meant := by
  cases i with
  | stmt s =>
      refine (ends_annotations ht _).bind fun found meant u hu _ hfound => ends_pure hu ?_
      simp [Interner.inFull?, hfound]
  | definition d =>
      refine (ends_annotations ht _).bind fun params params' u hu _ hparams => ?_
      refine (ends_annotations hu _).bind fun result result' v hv hext hresult => ?_
      have hparams' := hu.locate?_mono hv hext hparams
      refine (ends_signature hv d hparams' hresult).bind
        (g := fun signature => do
          let body ← TypeExpr.located (bodyAnnotations d.body)
          return (⟨params' ++ result' ++ body, signature⟩ : ItemMeaning)) fun id ty w hw hext' hid => ?_
      refine (ends_annotations hw _).bind fun body body' x hx hext'' hbody => ends_pure hx ?_
      have hextAll := hext'.trans hext''
      simp [Interner.inFull?, List.mapM_append, hv.locate?_mono hx hextAll hparams',
        hv.locate?_mono hx hextAll hresult, hbody, hw.optional_mono hx hext'' hid]

end Lowering

end SoundLang
