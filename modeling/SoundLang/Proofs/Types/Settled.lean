import SoundLang.Proofs.Types.Places

/-! # What is lowered stays lowered

A lowering that was not refused an id gives the same answer in every interner that knows what the first one knew in the
end, and then stores nothing (`Lowering.Repeats`).  So the types found for the annotations of an item are those that the
interner gives for each of them in the end, and an error is the one that the interner gives for the first of them that
is wrong (`Lowering.judges_item`). -/

namespace SoundLang

namespace Lowering

variable {α β : Type} {t u v : Interner}

/-! ### One step after the other -/

theorem run_bind_of_ok {m : Lowering α} {a : α} (f : α → Lowering β) (h : m.run.run t = (.ok a, u)) :
    (m >>= f).run.run t = (f a).run.run u := by
  rw [run_bind, h]

theorem run_bind_of_error {m : Lowering α} {e : Stop} (f : α → Lowering β) (h : m.run.run t = (.error e, u)) :
    (m >>= f).run.run t = (.error e, u) := by
  rw [run_bind, h]

/-- Either the first of two steps stops, or the second starts where the first ends. -/
theorem run_bind_cases {m : Lowering α} {f : α → Lowering β} {r : Except Stop β}
    (h : (m >>= f).run.run t = (r, u)) :
    (∃ e, r = .error e ∧ m.run.run t = (.error e, u)) ∨
      ∃ a w, m.run.run t = (.ok a, w) ∧ (f a).run.run w = (r, u) := by
  rw [run_bind] at h
  rcases hrun : m.run.run t with ⟨e | a, w⟩
  · rw [hrun] at h
    cases h
    exact .inl ⟨e, rfl, rfl⟩
  · rw [hrun] at h
    exact .inr ⟨a, w, rfl, h⟩

theorem Interns.extends {m : Lowering α} {r : Except Stop α} (hm : Interns m) (ht : t.Lawful)
    (h : m.run.run t = (r, u)) : u.Lawful ∧ t.Extends u := by
  obtain ⟨ds, hds⟩ := hm t
  rw [h] at hds
  obtain rfl : u = t.internedAll ds := hds
  exact ht.internedAll ds

/-! ### The same again -/

/-- The computation interns layers only.  What it gives, unless it is refused, it gives again where all that it knew in
the end is known, and there it stores nothing. -/
structure Repeats (m : Lowering α) : Prop where
  interns : Interns m
  again : ∀ {t u v : Interner} {r : Except Stop α}, t.Lawful → m.run.run t = (r, u) → v.Lawful → u.Extends v →
    (∀ e, r ≠ .error (.refused e)) → m.run.run v = (r, v)

theorem repeats_pure (a : α) : Repeats (pure a) where
  interns := interns_pure a
  again := by
    rintro t u v r - ⟨⟩ - - -
    rfl

theorem repeats_throw (e : Stop) : Repeats (throw e : Lowering α) where
  interns := interns_throw e
  again := by
    rintro t u v r - ⟨⟩ - - -
    rfl

theorem run_intern_of_get? {d : TypeData} {id : TypeId} (ht : t.Lawful) (h : t.get? id = some d) :
    (intern d).run.run t = (.ok id, t) := by
  rw [run_intern, ht.intern_get? h]

/-- The id that interning gives names the layer. -/
theorem get?_of_run_intern {d : TypeData} {id : TypeId} (ht : t.Lawful) (h : (intern d).run.run t = (.ok id, u)) :
    u.get? id = some d := by
  rw [run_intern] at h
  cases hi : t.intern d with
  | error e =>
      rw [hi] at h
      cases h
  | ok p =>
      rw [hi] at h
      cases h
      exact (ht.intern hi).2.2

/-- A layer is interned or refused; nothing is found wrong with an annotation. -/
theorem run_intern_ne_error {d : TypeData} {e : TypeError} : (intern d).run.run t ≠ (.error (.error e), u) := by
  intro h
  rw [run_intern] at h
  cases hi : t.intern d <;> rw [hi] at h <;> cases h

theorem repeats_intern (d : TypeData) : Repeats (intern d) where
  interns := interns_intern d
  again := by
    intro t u v r ht hrun hv hext hr
    match r with
    | .ok id => exact run_intern_of_get? hv (hext.get? (get?_of_run_intern ht hrun))
    | .error (.refused e) => exact absurd rfl (hr e)
    | .error (.error e) => exact absurd hrun run_intern_ne_error

theorem Repeats.bind {m : Lowering α} {f : α → Lowering β} (hm : Repeats m) (hf : ∀ a, Repeats (f a)) :
    Repeats (m >>= f) where
  interns := hm.interns.bind fun a => (hf a).interns
  again := by
    intro t u v r ht hrun hv hext hr
    obtain ⟨e, rfl, hstop⟩ | ⟨a, w, hfirst, hrest⟩ := run_bind_cases hrun
    · have hagain := hm.again ht hstop hv hext fun e he => hr e (congrArg Except.error (Except.error.inj he))
      exact run_bind_of_error f hagain
    · -- what is known when the first step ends stays known up to the end of the second, and so in `v`
      have hw := (hm.interns.extends ht hfirst).1
      have hextends := ((hf a).interns.extends hw hrest).2.trans hext
      rw [run_bind_of_ok f (hm.again ht hfirst hv hextends nofun)]
      exact (hf a).again hw hrest hv hext hr

/-- What interns layers and else only stops or goes on repeats itself. -/
theorem Built.repeats {m : Lowering α} (h : Built m) : Repeats m := by
  induction h with
  | pure a => exact repeats_pure a
  | throw e => exact repeats_throw e
  | intern d => exact repeats_intern d
  | bind _ _ hm hf => exact hm.bind hf

end Lowering

/-! ### What an interner says of annotations -/

theorem exists_of_forall₂ {γ δ : Type} {R : γ → δ → Prop} {as : List γ} {bs : List δ} (h : List.Forall₂ R as bs) :
    ∀ a ∈ as, ∃ b, R a b := by
  induction h with
  | nil => exact nofun
  | cons h _ ih => exact List.forall_mem_cons.mpr ⟨⟨_, h⟩, ih⟩

namespace Interner

/-- The interner gives the id for the annotation, and need not store anything for it. -/
def Lowers (t : Interner) (type : TypeExpr Span) (id : TypeId) : Prop :=
  (Lowering.type type).run.run t = (.ok id, t)

/-- The interner gives ids for the annotations in front of a wrong one, and the error for that one. -/
inductive FailsAt (t : Interner) (e : TypeError) : List (TypeExpr Span) → Prop
  | here {type : TypeExpr Span} {types : List (TypeExpr Span)}
      (h : (Lowering.type type).run.run t = (.error (.error e), t)) : FailsAt t e (type :: types)
  | later {type : TypeExpr Span} {types : List (TypeExpr Span)} {id : TypeId} (h : t.Lowers type id)
      (hs : FailsAt t e types) : FailsAt t e (type :: types)

variable {t : Interner} {e : TypeError} {types types' : List (TypeExpr Span)}

theorem FailsAt.append (h : t.FailsAt e types) (types' : List (TypeExpr Span)) : t.FailsAt e (types ++ types') := by
  induction h with
  | here h => exact .here h
  | later h _ ih => exact .later h ih

theorem FailsAt.behind (h : t.FailsAt e types') (hok : ∀ type ∈ types, ∃ id, t.Lowers type id) :
    t.FailsAt e (types ++ types') := by
  induction types with
  | nil => exact h
  | cons type types ih =>
      obtain ⟨⟨id, hid⟩, htypes⟩ := List.forall_mem_cons.mp hok
      exact .later hid (ih htypes)

end Interner

namespace Lowering

variable {α β : Type}

/-- The computation looks at annotations: what it finds is so in every interner that knows what it knew in the end, and
its error is then the one of the first annotation that is wrong. -/
structure Judges (types : List (TypeExpr Span)) (m : Lowering α) (R : α → Interner → Prop) : Prop where
  interns : Interns m
  found : ∀ {t u v : Interner} {a : α}, t.Lawful → m.run.run t = (.ok a, u) → v.Lawful → u.Extends v → R a v
  failed : ∀ {t u v : Interner} {e : TypeError}, t.Lawful → m.run.run t = (.error (.error e), u) → v.Lawful →
    u.Extends v → v.FailsAt e types

section
variable {types types' : List (TypeExpr Span)} {m : Lowering α} {R R' : α → Interner → Prop}

theorem judges_pure (a : α) : Judges [] (pure a) fun b _ => b = a where
  interns := interns_pure a
  found := by
    rintro t u v b - ⟨⟩ - -
    rfl
  failed := by rintro t u v e - ⟨⟩

theorem Judges.imp (h : Judges types m R) (hR : ∀ a v, R a v → R' a v) : Judges types m R' where
  interns := h.interns
  found := fun ht hrun hv hext => hR _ _ (h.found ht hrun hv hext)
  failed := h.failed

theorem Judges.bind {f : α → Lowering β} {S : α → β → Interner → Prop} (hm : Judges types m R)
    (hR : ∀ a v, R a v → ∀ type ∈ types, ∃ id, v.Lowers type id) (hf : ∀ a, Judges types' (f a) (S a)) :
    Judges (types ++ types') (m >>= f) fun b v => ∃ a, R a v ∧ S a b v where
  interns := hm.interns.bind fun a => (hf a).interns
  found := by
    intro t u v b ht hrun hv hext
    obtain ⟨e, he, -⟩ | ⟨a, w, hfirst, hrest⟩ := run_bind_cases hrun
    · cases he
    · have hw := (hm.interns.extends ht hfirst).1
      have hextends := ((hf a).interns.extends hw hrest).2.trans hext
      exact ⟨a, hm.found ht hfirst hv hextends, (hf a).found hw hrest hv hext⟩
  failed := by
    intro t u v e ht hrun hv hext
    obtain ⟨_, ⟨⟩, hstop⟩ | ⟨a, w, hfirst, hrest⟩ := run_bind_cases hrun
    · exact (hm.failed ht hstop hv hext).append types'
    · -- the annotations of the first step are right, so the first wrong one is among those of the second
      have hw := (hm.interns.extends ht hfirst).1
      have hextends := ((hf a).interns.extends hw hrest).2.trans hext
      exact ((hf a).failed hw hrest hv hext).behind (hR a v (hm.found ht hfirst hv hextends))

end

/-! ### Annotations -/

theorem judges_type (type : TypeExpr Span) : Judges [type] (Lowering.type type) fun id v => v.Lowers type id where
  interns := interns_type type
  found := fun ht hrun hv hext => (built_type type).repeats.again ht hrun hv hext nofun
  failed := fun ht hrun hv hext => .here ((built_type type).repeats.again ht hrun hv hext nofun)

theorem judges_types (types : List (TypeExpr Span)) :
    Judges types (Lowering.types types) fun ids v => List.Forall₂ v.Lowers types ids := by
  induction types with
  | nil =>
      rw [Lowering.types]
      refine (judges_pure []).imp ?_
      rintro _ v rfl
      exact .nil
  | cons type types ih =>
      rw [Lowering.types]
      have hrest : ∀ id, Judges types (do return id :: (← Lowering.types types)) fun ids (v : Interner) =>
          ∃ ids', List.Forall₂ v.Lowers types ids' ∧ ids = id :: ids' := by
        intro id
        have := ih.bind (fun ids v h => exists_of_forall₂ h) fun ids => judges_pure (id :: ids)
        rwa [List.append_nil] at this
      have hfirst : ∀ id (v : Interner), v.Lowers type id → ∀ type' ∈ [type], ∃ id, v.Lowers type' id :=
        fun id v h => List.forall_mem_singleton.mpr ⟨id, h⟩
      refine ((judges_type type).bind hfirst hrest).imp ?_
      rintro _ v ⟨id, hid, ids, hids, rfl⟩
      exact .cons hid hids

/-- An id stands behind the span of an annotation, for which the interner gives it. -/
def Located (v : Interner) (type : TypeExpr Span) (a : Span × TypeId) : Prop := a.1 = type.note ∧ v.Lowers type a.2

theorem lowers_of_located {types : List (TypeExpr Span)} {found : List (Span × TypeId)} {v : Interner}
    (h : List.Forall₂ (Located v) types found) : ∀ type ∈ types, ∃ id, v.Lowers type id := by
  intro type htype
  obtain ⟨a, ha⟩ := exists_of_forall₂ h type htype
  exact ⟨a.2, ha.2⟩

theorem judges_annotations (types : List (TypeExpr Span)) :
    Judges types (annotations types) fun found v => List.Forall₂ (Located v) types found := by
  have := (judges_types types).bind (fun ids v h => exists_of_forall₂ h)
    fun ids => judges_pure ((types.map (·.note)).zip ids)
  rw [List.append_nil] at this
  refine this.imp ?_
  rintro _ v ⟨ids, hids, rfl⟩
  clear this
  induction hids with
  | nil => exact .nil
  | cons h _ ih => exact .cons ⟨rfl, h⟩ ih

/-! ### Items -/

theorem judges_intern (d : TypeData) : Judges [] (intern d) fun id v => v.get? id = some d where
  interns := interns_intern d
  found := fun ht hrun _ hext => hext.get? (get?_of_run_intern ht hrun)
  failed := fun _ hrun _ _ => absurd hrun run_intern_ne_error

/-- What the type of a definition as a function is: there is one if all its parameters and its result are annotated. -/
structure Signature (d : Definition Span) (params result : List (Span × TypeId)) (s : Option TypeId) (v : Interner) :
    Prop where
  isSome_iff : s.isSome ↔ d.params.all (·.type.isSome) ∧ ∃ a, result = [a]
  get? : ∀ id ∈ s, ∃ a, result = [a] ∧ v.get? id = some (.function (params.map (·.2)) a.2)

theorem judges_signature (d : Definition Span) (params result : List (Span × TypeId)) :
    Judges [] (signature d params result) (Signature d params result) := by
  have hnone (hnot : ¬ (d.params.all (·.type.isSome) ∧ ∃ a, result = [a])) :
      Judges [] (pure none) (Signature d params result) := by
    refine (judges_pure none).imp ?_
    rintro _ v rfl
    exact ⟨⟨nofun, fun h => absurd h hnot⟩, nofun⟩
  unfold signature
  split
  · next span a =>
      split
      · next hall =>
          rw [map_eq_pure_bind]
          refine ((judges_intern _).bind (fun _ _ _ => nofun) fun id => judges_pure (some id)).imp ?_
          rintro _ v ⟨id, hid, rfl⟩
          refine ⟨⟨fun _ => ⟨hall, _, rfl⟩, fun _ => rfl⟩, ?_⟩
          rintro _ ⟨⟩
          exact ⟨_, rfl, hid⟩
      · next hall => exact hnone fun h => hall h.1
  · next hne => exact hnone fun ⟨_, a, ha⟩ => hne a.1 a.2 ha

end Lowering

/-- All parameters of the item, which is a definition, and its result are annotated. -/
inductive Item.Signed {α : Type} : Item α → List (TypeExpr α) → TypeExpr α → Prop
  | definition {d : Definition α} {params : List (TypeExpr α)} {result : TypeExpr α}
      (hparams : d.params.map (·.type) = params.map some) (hresult : d.result = some result) :
      Signed (.definition d) params result

theorem map_eq_map_some_iff {α β : Type} {f : α → Option β} {as : List α} {bs : List β} :
    as.map f = bs.map some ↔ as.all (fun a => (f a).isSome) ∧ as.filterMap f = bs := by
  induction as generalizing bs with
  | nil => cases bs <;> simp
  | cons a as ih =>
      cases hfa : f a with
      | none => cases bs <;> simp [hfa]
      | some b => cases bs <;> simp [hfa, ih, and_left_comm]

theorem Item.signed_iff {α : Type} {d : Definition α} {params : List (TypeExpr α)} {result : TypeExpr α} :
    Item.Signed (.definition d) params result ↔
      d.params.all (·.type.isSome) ∧ d.params.filterMap (·.type) = params ∧ d.result = some result := by
  rw [← and_assoc, ← map_eq_map_some_iff]
  constructor
  · rintro ⟨hparams, hresult⟩
    exact ⟨hparams, hresult⟩
  · rintro ⟨hparams, hresult⟩
    exact ⟨hparams, hresult⟩

/-- The types are those of the item: every annotation has its span and its id, and a definition that is annotated
throughout has the function type of the ids of its parameters and its result. -/
structure ItemTypes.Settled (types : ItemTypes) (i : Item Span) (v : Interner) : Prop where
  located : List.Forall₂ (Lowering.Located v) i.annotations types.annotations
  isSome_iff : types.signature.isSome ↔ ∃ params result, i.Signed params result
  function : ∀ id ∈ types.signature, ∃ params result found a, i.Signed params result ∧
    found ++ [a] <+: types.annotations ∧ List.Forall₂ (Lowering.Located v) params found ∧
    Lowering.Located v result a ∧ v.get? id = some (.function (found.map (·.2)) a.2)

namespace Lowering

theorem settled_definition {d : Definition Span} {params result body : List (Span × TypeId)} {s : Option TypeId}
    {v : Interner} (hparams : List.Forall₂ (Located v) (d.params.filterMap (·.type)) params)
    (hresult : List.Forall₂ (Located v) d.result.toList result) (hs : Signature d params result s v)
    (hbody : List.Forall₂ (Located v) (bodyAnnotations d.body) body) :
    (⟨params ++ result ++ body, s⟩ : ItemTypes).Settled (.definition d) v where
  located := List.rel_append (List.rel_append hparams hresult) hbody
  isSome_iff := by
    rw [hs.isSome_iff]
    constructor
    · rintro ⟨hall, a, rfl⟩
      cases hd : d.result with
      | none =>
          rw [hd] at hresult
          cases hresult
      | some type => exact ⟨_, type, Item.signed_iff.mpr ⟨hall, rfl, hd⟩⟩
    · rintro ⟨types, type, hsigned⟩
      obtain ⟨hall, -, hd⟩ := Item.signed_iff.mp hsigned
      rw [hd] at hresult
      obtain ⟨a, _, -, hnil, rfl⟩ := List.forall₂_cons_left_iff.mp hresult
      exact ⟨hall, a, by rw [List.forall₂_nil_left_iff.mp hnil]⟩
  function := by
    intro id hid
    obtain ⟨a, rfl, hfunction⟩ := hs.get? id hid
    obtain ⟨hall, -⟩ := hs.isSome_iff.mp (Option.isSome_of_mem hid)
    cases hd : d.result with
    | none =>
        rw [hd] at hresult
        cases hresult
    | some type =>
        rw [hd] at hresult
        obtain ⟨ha, -⟩ := List.forall₂_cons.mp hresult
        exact ⟨_, type, params, a, Item.signed_iff.mpr ⟨hall, rfl, hd⟩, ⟨body, rfl⟩, hparams, ha, hfunction⟩

/-- Lowering an item finds the types of the item, or the error of its first wrong annotation. -/
theorem judges_item (i : Item Span) : Judges i.annotations (item i) fun types v => types.Settled i v := by
  cases i with
  | stmt s =>
      have := (judges_annotations s.annotations).bind (fun _ _ => lowers_of_located)
        fun found => judges_pure (⟨found, none⟩ : ItemTypes)
      rw [List.append_nil] at this
      refine this.imp ?_
      rintro _ v ⟨found, hfound, rfl⟩
      exact ⟨hfound, ⟨nofun, nofun⟩, nofun⟩
  | definition d =>
      have := (judges_annotations (d.params.filterMap (·.type))).bind (fun _ _ => lowers_of_located) fun params =>
        (judges_annotations d.result.toList).bind (fun _ _ => lowers_of_located) fun result =>
          (judges_signature d params result).bind (fun _ _ _ => nofun) fun s =>
            (judges_annotations (bodyAnnotations d.body)).bind (fun _ _ => lowers_of_located) fun body =>
              judges_pure (⟨params ++ result ++ body, s⟩ : ItemTypes)
      rw [List.append_nil, List.nil_append, ← List.append_assoc] at this
      refine this.imp ?_
      rintro _ v ⟨params, hparams, result, hresult, s, hs, body, hbody, rfl⟩
      exact settled_definition hparams hresult hs hbody

end Lowering

end SoundLang
