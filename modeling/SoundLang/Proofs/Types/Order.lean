import Mathlib.Data.List.Nodup
import Mathlib.Logic.Relation
import SoundLang.Proofs.Types.Run

/-! # The order of storing

Types are stored one behind the other and stay as they are (`Interner.Stores`), the parts of a type before the type
(`Interner.Ordered`).  So going down from a type to its parts comes to an end, which is what lets a type be shown
(`Interner.types_stored_in_order`). -/

namespace SoundLang

namespace Interner

variable {t u v : Interner} {id part : TypeId} {ids ids' : List TypeId} {d : TypeData} {e : Entry}

/-- The first id is one of the parts of what the second names. -/
def PartOf (t : Interner) (part id : TypeId) : Prop := ∃ d, t.get? id = some d ∧ part ∈ d.children

/-- The ids that are there from the start. -/
def startIds : List TypeId := Primitive.all.map Primitive.id ++ [.unit]

/-- The ids are all that name something, each once, and a part of a type comes before the type. -/
structure Ordered (t : Interner) (ids : List TypeId) : Prop where
  nodup : ids.Nodup
  mem_iff : ∀ {id}, id ∈ ids ↔ ∃ e, t.entry? id = some e
  parts : ∀ {part id}, t.PartOf part id → ids.idxOf part < ids.idxOf id

namespace Ordered

theorem mem_iff_get? (h : t.Ordered ids) : id ∈ ids ↔ ∃ d, t.get? id = some d := by
  rw [h.mem_iff]
  constructor
  · rintro ⟨e, he⟩
    exact ⟨e.data, get?_eq_some_iff.mpr ⟨e, he, rfl⟩⟩
  · rintro ⟨d, hd⟩
    obtain ⟨e, he, -⟩ := get?_eq_some_iff.mp hd
    exact ⟨e, he⟩

theorem mem_of_partOf (h : t.Ordered ids) (hpart : t.PartOf part id) : part ∈ ids :=
  List.idxOf_lt_length_iff.mp (Nat.lt_of_lt_of_le (h.parts hpart) List.idxOf_le_length)

/-- Going down from a type to its parts comes to an end. -/
theorem wellFounded (h : t.Ordered ids) : WellFounded t.PartOf :=
  Subrelation.wf (fun hpart => h.parts hpart) (InvImage.wf ids.idxOf Nat.lt_wfRel.wf)

/-- Below a type that is known everything is known. -/
theorem mem_of_below (h : t.Ordered ids) (hid : id ∈ ids) (hbelow : Relation.ReflTransGen t.PartOf part id) :
    part ∈ ids := by
  cases hbelow.cases_head with
  | inl heq => exact heq ▸ hid
  | inr hstep =>
      obtain ⟨_, hpart, -⟩ := hstep
      exact h.mem_of_partOf hpart

/-- The place behind the others of a shape names nothing yet. -/
theorem notMem_next (h : t.Ordered ids) {s : Shape} (hroom : (t.ofShape s).size < TypeId.capacity) :
    .ofParts s (t.ofShape s).size ∉ ids := by
  rw [h.mem_iff, entry?_ofParts t hroom]
  rintro ⟨e, he⟩
  exact absurd (Bucket.lt_size he) (Nat.lt_irrefl _)

theorem push (h : t.Ordered ids) (hparts : ∀ id ∈ e.data.children, ∃ e', t.entry? id = some e')
    (hroom : (t.ofShape e.data.shape).size < TypeId.capacity) :
    (t.push e).Ordered (ids ++ [.ofParts e.data.shape (t.ofShape e.data.shape).size]) := by
  have hnew := h.notMem_next hroom
  have hstays {id : TypeId} (hid : id ∈ ids) (ids' : List TypeId) : (ids ++ ids').idxOf id = ids.idxOf id :=
    List.idxOf_append_of_mem hid
  refine ⟨?_, ?_, ?_⟩
  · rw [List.nodup_append]
    refine ⟨h.nodup, List.nodup_singleton _, fun id hid id' hid' heq => hnew ?_⟩
    rwa [← List.mem_singleton.mp hid', ← heq]
  · intro id
    rw [List.mem_append, List.mem_singleton]
    constructor
    · rintro (hid | rfl)
      · obtain ⟨e', he'⟩ := h.mem_iff.mp hid
        exact ⟨e', extends_push t e id e' he'⟩
      · exact ⟨e, entry?_push_last hroom⟩
    · rintro ⟨e', he'⟩
      by_cases hid : id = .ofParts e.data.shape (t.ofShape e.data.shape).size
      · exact .inr hid
      · exact .inl (h.mem_iff.mpr ⟨e', entry?_of_push he' hid⟩)
  · rintro part id ⟨d, hd, hpart⟩
    obtain ⟨e', he', rfl⟩ := get?_eq_some_iff.mp hd
    by_cases hid : id = .ofParts e.data.shape (t.ofShape e.data.shape).size
    · -- the parts of the new type are known already
      subst hid
      rw [entry?_push_last hroom, Option.some.injEq] at he'
      subst he'
      have hmem : part ∈ ids := h.mem_iff.mpr (hparts part hpart)
      have hlt := List.idxOf_lt_length_iff.mpr hmem
      rw [hstays hmem, List.idxOf_append_of_notMem hnew]
      omega
    · have hold : t.PartOf part id := ⟨e'.data, get?_eq_some_iff.mpr ⟨e', entry?_of_push he' hid, rfl⟩, hpart⟩
      rw [hstays (h.mem_of_partOf hold), hstays (h.mem_iff.mpr ⟨e', entry?_of_push he' hid⟩)]
      exact h.parts hold

end Ordered

theorem ordered_initial : initial.Ordered startIds where
  nodup := by decide
  mem_iff {id} := by
    constructor
    · intro hid
      have hall : ∀ id ∈ startIds, (initial.entry? id).isSome := by decide
      exact Option.isSome_iff_exists.mp (hall id hid)
    · rintro ⟨e, he⟩
      obtain ⟨s, hid, he⟩ := exists_place_of_entry? he
      have hplace := Bucket.lt_size he
      have hall : ∀ s, ∀ i < (initial.ofShape s).size, TypeId.ofParts s i ∈ startIds := by
        intro s
        cases s <;> decide
      rw [hid]
      exact hall s id.place hplace
  parts {part id} hpart := by
    obtain ⟨d, hd, hpart⟩ := hpart
    rw [children_of_initial hd] at hpart
    cases hpart

/-! ### What is stored along a run -/

/-- From one interner to another, types with the given ids are stored one after the other, and nothing else changes. -/
inductive Stores : Interner → Interner → List TypeId → Prop
  | nothing (t : Interner) : Stores t t []
  | more {t u v : Interner} {ids : List TypeId} {d : TypeData} {id : TypeId} (h : Stores t u ids)
      (hnew : u.find? d = none) (hi : u.intern d = .ok (id, v)) : Stores t v (ids ++ [id])

theorem Stores.trans (h : Stores t u ids) (h' : Stores u v ids') : Stores t v (ids ++ ids') := by
  induction h' with
  | nothing => simpa using h
  | more _ hnew hi ih =>
      rw [← List.append_assoc]
      exact .more ih hnew hi

theorem Stores.ordered (h : Stores t u ids') (ht : t.Ordered ids) : u.Ordered (ids ++ ids') := by
  induction h with
  | nothing => simpa using ht
  | more _ hnew hi ih =>
      obtain ⟨hfind, -⟩ | ⟨flags, -, hflags, hroom, rfl, rfl⟩ := intern_cases hi
      · rw [hnew] at hfind
        cases hfind
      · rw [← List.append_assoc]
        exact ih.push (entry?_of_partFlags hflags) hroom

theorem stores_interned (t : Interner) (d : TypeData) : ∃ ids, Stores t (t.interned d) ids := by
  unfold interned
  split
  · next id u hi =>
      cases hfind : t.find? d with
      | none => exact ⟨[id], .more (.nothing t) hfind hi⟩
      | some id' =>
          rw [intern, hfind] at hi
          cases hi
          exact ⟨[], .nothing t⟩
  · exact ⟨[], .nothing t⟩

theorem stores_internedAll (t : Interner) (ds : List TypeData) : ∃ ids, Stores t (t.internedAll ds) ids := by
  induction ds generalizing t with
  | nil => exact ⟨[], .nothing t⟩
  | cons d ds ih =>
      obtain ⟨ids, hd⟩ := stores_interned t d
      obtain ⟨ids', hds⟩ := ih (t.interned d)
      exact ⟨ids ++ ids', hd.trans hds⟩

theorem stores_after (t : Interner) (ops : List Op) : ∃ ids, Stores t (t.after ops) ids := by
  induction ops generalizing t with
  | nil => exact ⟨[], .nothing t⟩
  | cons op ops ih =>
      obtain ⟨ds, hds⟩ := perform_eq t op
      obtain ⟨ids, hop⟩ := stores_internedAll t ds
      obtain ⟨ids', hops⟩ := ih (t.perform op)
      rw [← hds] at hop
      exact ⟨ids ++ ids', hop.trans hops⟩

/-! ### What is shown -/

theorem Lawful.render?_isSome (h : t.Lawful) (hd : t.get? id = some d) : ∃ text, t.render? id = some text := by
  obtain ⟨ty, hty⟩ := h.expands_of_get? hd
  exact ⟨ty.render, by rw [render?, hty, Option.map_some]⟩

/-- The full form of a type is the same where more types are known. -/
theorem Lawful.expand?_extends (h : t.Lawful) (hu : u.Lawful) (hext : t.Extends u) (hd : t.get? id = some d) :
    u.expand? id = t.expand? id := by
  obtain ⟨ty, hty⟩ := h.expands_of_get? hd
  obtain ⟨ty', hty'⟩ := hu.expands_of_get? (hext.get? hd)
  -- both are the full form within as many layers as either looks at
  have hmax := expandWithin_mono hext (Nat.le_max_left _ (u.size + 1)) hty
  have hmax' := expandWithin_mono (Extends.refl u) (Nat.le_max_right (t.size + 1) _) hty'
  rw [hty, hty', ← hmax, ← hmax']

/-- What an id names in one interner it names in the other, with the same flags and the same text. -/
structure Kept (t u : Interner) (id : TypeId) : Prop where
  get? : u.get? id = t.get? id
  flags? : u.flags? id = t.flags? id
  render? : u.render? id = t.render? id

theorem Lawful.kept (h : t.Lawful) (hu : u.Lawful) (hext : t.Extends u) (hd : t.get? id = some d) : t.Kept u id := by
  obtain ⟨e, he, -⟩ := get?_eq_some_iff.mp hd
  have hentry : u.entry? id = t.entry? id := by rw [he, hext id e he]
  refine ⟨?_, ?_, ?_⟩
  · rw [Interner.get?, Interner.get?, hentry]
  · rw [Interner.flags?, Interner.flags?, hentry]
  · rw [Interner.render?, Interner.render?, h.expand?_extends hu hext hd]

/-- After any run, whatever ids were given to it, the known ids are those of the start and those stored since, in the
order of the storing, and the parts of a type come before it.  A layer that is found has known parts.  Going down from
a type to its parts comes to an end and meets known types only, so every type has a text, made of those of its parts.
All that follows stores further types behind and keeps what the known ids name, its flags and its text. -/
theorem types_stored_in_order (ops : List Op) :
    ∃ ids, Stores initial (initial.after ops) ids ∧ (initial.after ops).Ordered (startIds ++ ids) ∧
      (∀ d id, (initial.after ops).find? d = some id → ∀ part ∈ d.children, part ∈ startIds ++ ids) ∧
      WellFounded (initial.after ops).PartOf ∧
      (∀ id, (initial.after ops).expand? id =
        ((initial.after ops).get? id).bind fun d => d.assemble (initial.after ops).expand?) ∧
      ∀ id d, (initial.after ops).get? id = some d →
        (∃ text, (initial.after ops).render? id = some text) ∧
        (∀ part, Relation.ReflTransGen (initial.after ops).PartOf part id →
          ∃ d', (initial.after ops).get? part = some d') ∧
        ∀ ops', (∃ ids', Stores (initial.after ops) (initial.after (ops ++ ops')) ids' ∧
            (initial.after (ops ++ ops')).Ordered (startIds ++ ids ++ ids')) ∧
          (initial.after ops).Kept (initial.after (ops ++ ops')) id := by
  obtain ⟨ids, hids⟩ := stores_after initial ops
  have hordered := hids.ordered ordered_initial
  have hlawful := (lawful_initial.after ops).1
  refine ⟨ids, hids, hordered, fun d id hid part hpart => ?_, hordered.wellFounded, hlawful.expand?_eq,
    fun id d hd => ⟨hlawful.render?_isSome hd, fun part hbelow => ?_, fun ops' => ?_⟩⟩
  · exact hordered.mem_of_partOf ⟨d, hlawful.find?_iff.mp hid, hpart⟩
  · have hid := hordered.mem_iff_get?.mpr ⟨d, hd⟩
    exact hordered.mem_iff_get?.mp (hordered.mem_of_below hid hbelow)
  · have happend : initial.after (ops ++ ops') = (initial.after ops).after ops' := List.foldl_append
    obtain ⟨hlawful', hext⟩ := hlawful.after ops'
    obtain ⟨ids', hids'⟩ := stores_after (initial.after ops) ops'
    rw [happend]
    exact ⟨⟨ids', hids', hids'.ordered hordered⟩, hlawful.kept hlawful' hext hd⟩

end Interner

end SoundLang
