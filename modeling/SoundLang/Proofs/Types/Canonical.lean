import SoundLang.Proofs.Types.Bucket

/-! # Ids are canonical

What the interner keeps (`Interner.Lawful`): its buckets agree with themselves, and every type that it knows has a
full form.  So the id that `find?` gives for a layer is the one that names it (`Lawful.find?_iff`), and two ids of one
full form are one id, by induction over the layers (`Lawful.expandWithin_inj`). -/

namespace SoundLang

/-! ### A layer with its parts in full -/

section
variable {α β γ : Type} {f : α → Option β} {g : α → Option β}

theorem mapM_mono {l : List α} (hfg : ∀ a ∈ l, ∀ b, f a = some b → g a = some b) :
    ∀ {bs : List β}, l.mapM f = some bs → l.mapM g = some bs := by
  induction l with
  | nil => exact fun h => h
  | cons a l ih =>
      intro bs h
      simp only [List.mapM_cons, Option.bind_eq_bind, Option.bind_eq_some_iff] at h ⊢
      obtain ⟨b, hb, bs, hbs, h⟩ := h
      exact ⟨b, hfg a List.mem_cons_self b hb, bs,
        ih (fun a' ha' => hfg a' (List.mem_cons_of_mem a ha')) hbs, h⟩

theorem mapM_isSome {l : List α} (hf : ∀ a ∈ l, ∃ b, f a = some b) : ∃ bs, l.mapM f = some bs := by
  induction l with
  | nil => exact ⟨[], rfl⟩
  | cons a l ih =>
      obtain ⟨b, hb⟩ := hf a List.mem_cons_self
      obtain ⟨bs, hbs⟩ := ih fun a' ha' => hf a' (List.mem_cons_of_mem a ha')
      exact ⟨b :: bs, by simp [List.mapM_cons, hb, hbs]⟩

theorem mapM_inj (hfg : ∀ a a' b, f a = some b → g a' = some b → a = a') : ∀ {l l' : List α} {bs : List β},
    l.mapM f = some bs → l'.mapM g = some bs → l = l' := by
  intro l
  induction l with
  | nil =>
      intro l' bs h h'
      cases h
      cases l' with
      | nil => rfl
      | cons a' l' => simp [List.mapM_cons, Option.bind_eq_some_iff] at h'
  | cons a l ih =>
      intro l' bs h h'
      simp only [List.mapM_cons, Option.bind_eq_bind, Option.bind_eq_some_iff] at h
      obtain ⟨b, hb, bs, hbs, ⟨⟩⟩ := h
      cases l' with
      | nil => cases h'
      | cons a' l' =>
          simp only [List.mapM_cons, Option.bind_eq_bind, Option.bind_eq_some_iff] at h'
          obtain ⟨b', hb', bs', hbs', ⟨⟩⟩ := h'
          rw [hfg a a' b hb hb', ih hbs hbs']

end

namespace TypeData

variable {f g : TypeId → Option Ty} {d d' : TypeData} {ty : Ty}

/-- The layer in full, where `f` gives its parts in full. -/
def assemble (f : TypeId → Option Ty) : TypeData → Option Ty
  | primitive p => some (.primitive p)
  | tuple elems => do return .tuple (← elems.mapM f)
  | function params result => do return .function (← params.mapM f) (← f result)
  | sound inner => do return .sound (← f inner)

theorem assemble_eq_primitive {p : Primitive} (h : d.assemble f = some (.primitive p)) : d = primitive p := by
  cases d <;> simp_all [assemble, Option.bind_eq_some_iff]

theorem assemble_eq_tuple {tys : List Ty} (h : d.assemble f = some (.tuple tys)) :
    ∃ elems, d = tuple elems ∧ elems.mapM f = some tys := by
  cases d <;> simp_all [assemble, Option.bind_eq_some_iff]

theorem assemble_eq_sound (h : d.assemble f = some (.sound ty)) : ∃ inner, d = sound inner ∧ f inner = some ty := by
  cases d <;> simp_all [assemble, Option.bind_eq_some_iff]

theorem assemble_mono (hfg : ∀ id ∈ d.children, ∀ ty, f id = some ty → g id = some ty)
    (h : d.assemble f = some ty) : d.assemble g = some ty := by
  cases d with
  | primitive p => exact h
  | tuple elems =>
      simp only [assemble, Option.bind_eq_bind, Option.bind_eq_some_iff] at h ⊢
      obtain ⟨tys, htys, h⟩ := h
      exact ⟨tys, mapM_mono hfg htys, h⟩
  | function params result =>
      simp only [assemble, Option.bind_eq_bind, Option.bind_eq_some_iff] at h ⊢
      obtain ⟨tys, htys, r, hr, h⟩ := h
      exact ⟨tys, mapM_mono (fun id hid => hfg id (List.mem_cons_of_mem result hid)) htys, r,
        hfg result List.mem_cons_self r hr, h⟩
  | sound inner =>
      simp only [assemble, Option.bind_eq_bind, Option.bind_eq_some_iff] at h ⊢
      obtain ⟨i, hi, h⟩ := h
      exact ⟨i, hfg inner List.mem_cons_self i hi, h⟩

theorem assemble_isSome (hf : ∀ id ∈ d.children, ∃ ty, f id = some ty) : ∃ ty, d.assemble f = some ty := by
  cases d with
  | primitive p => exact ⟨.primitive p, rfl⟩
  | tuple elems =>
      obtain ⟨tys, htys⟩ := mapM_isSome (l := elems) hf
      exact ⟨.tuple tys, by simp [assemble, htys]⟩
  | function params result =>
      obtain ⟨tys, htys⟩ := mapM_isSome fun id hid => hf id (List.mem_cons_of_mem result hid)
      obtain ⟨r, hr⟩ := hf result List.mem_cons_self
      exact ⟨.function tys r, by simp [assemble, htys, hr]⟩
  | sound inner =>
      obtain ⟨i, hi⟩ := hf inner List.mem_cons_self
      exact ⟨.sound i, by simp [assemble, hi]⟩

theorem assemble_inj (hfg : ∀ id id' ty, f id = some ty → g id' = some ty → id = id')
    (h : d.assemble f = some ty) (h' : d'.assemble g = some ty) : d = d' := by
  cases d <;> cases d' <;>
    simp only [assemble, Option.bind_eq_bind, Option.bind_eq_some_iff, Option.pure_def, Option.some.injEq] at h h'
  case primitive.primitive =>
    subst h
    cases h'
    rfl
  case tuple.tuple =>
    obtain ⟨tys, htys, rfl⟩ := h
    obtain ⟨tys', htys', ⟨⟩⟩ := h'
    rw [mapM_inj hfg htys htys']
  case function.function =>
    obtain ⟨tys, htys, r, hr, rfl⟩ := h
    obtain ⟨tys', htys', r', hr', ⟨⟩⟩ := h'
    rw [mapM_inj hfg htys htys', hfg _ _ _ hr hr']
  case sound.sound =>
    obtain ⟨i, hi, rfl⟩ := h
    obtain ⟨i', hi', ⟨⟩⟩ := h'
    rw [hfg _ _ _ hi hi']
  all_goals grind

end TypeData

namespace Interner

/-! ### What ids name -/

section
variable {t u : Interner} {id : TypeId} {e e' : Entry} {d : TypeData} {ty : Ty} {n m : Nat}

theorem entry?_ofParts (t : Interner) {s : Shape} {place : Nat} (h : place < TypeId.capacity) :
    t.entry? (.ofParts s place) = (t.ofShape s).entries[place]? := by
  simp [TypeId.shapeNumber_ofParts h, TypeId.place_ofParts h, entry?]

theorem exists_place_of_entry? (h : t.entry? id = some e) :
    ∃ s, id = .ofParts s id.place ∧ (t.ofShape s).entries[id.place]? = some e := by
  simp only [Option.bind_eq_bind, Option.bind_eq_some_iff, entry?] at h
  obtain ⟨s, hs, he⟩ := h
  exact ⟨s, (TypeId.ofParts_place hs).symm, he⟩

theorem get?_eq_some_iff : t.get? id = some d ↔ ∃ e, t.entry? id = some e ∧ e.data = d := by
  simp [get?]

theorem expandWithin_succ (t : Interner) (n : Nat) (id : TypeId) :
    t.expandWithin (n + 1) id = (t.get? id).bind fun d => d.assemble (t.expandWithin n) := by
  cases hd : t.get? id with
  | none => simp [expandWithin, hd]
  | some d => cases d <;> simp [expandWithin, hd, TypeData.assemble]

/-- The types that `t` knows have the same ids in `u`. -/
def Extends (t u : Interner) : Prop := ∀ id e, t.entry? id = some e → u.entry? id = some e

theorem Extends.refl (t : Interner) : t.Extends t := fun _ _ h => h

theorem Extends.trans {v : Interner} (htu : t.Extends u) (huv : u.Extends v) : t.Extends v :=
  fun id e h => huv id e (htu id e h)

theorem Extends.get? (h : t.Extends u) (hd : t.get? id = some d) : u.get? id = some d := by
  obtain ⟨e, he, rfl⟩ := get?_eq_some_iff.mp hd
  exact get?_eq_some_iff.mpr ⟨e, h id e he, rfl⟩

/-- A full form stays where more layers are looked at and more types are known. -/
theorem expandWithin_mono (hext : t.Extends u) (hnm : n ≤ m) (h : t.expandWithin n id = some ty) :
    u.expandWithin m id = some ty := by
  induction n generalizing m id ty with
  | zero => cases h
  | succ n ih =>
      obtain ⟨m, rfl⟩ : ∃ k, m = k + 1 := ⟨m - 1, by omega⟩
      rw [expandWithin_succ, Option.bind_eq_some_iff] at h ⊢
      obtain ⟨d, hd, h⟩ := h
      exact ⟨d, hext.get? hd, TypeData.assemble_mono (fun _ _ _ => ih (by omega)) h⟩

/-! ### What the interner keeps -/

/-- The primitive types are the ones from the start, the other buckets agree with themselves, and every known type
has a full form. -/
structure Lawful (t : Interner) : Prop where
  primitives : t.primitives = initial.primitives
  bucket : ∀ {s : Shape}, s ≠ .primitive → (t.ofShape s).Lawful s
  expands : ∀ {id : TypeId} {e : Entry}, t.entry? id = some e → ∃ ty, t.expand? id = some ty

/-- The fixed ids of the primitive types. -/
theorem Lawful.get?_primitive (h : t.Lawful) {p : Primitive} :
    t.get? id = some (.primitive p) ↔ id = p.id := by
  have hfixed (p : Primitive) : p.place < TypeId.capacity ∧
      initial.primitives.entries[p.place]? = some (leaf (.primitive p)) := by
    cases p <;> exact ⟨by decide, rfl⟩
  have hids {i : Nat} {e : Entry} (he : initial.primitives.entries[i]? = some e) :
      ∃ p : Primitive, e.data = .primitive p ∧ i = p.place := by
    obtain ⟨hi, rfl⟩ := Array.getElem?_eq_some_iff.mp he
    have hi : i < 5 := hi
    match i, hi with
    | 0, _ => exact ⟨.boolean, rfl, rfl⟩
    | 1, _ => exact ⟨.integer, rfl, rfl⟩
    | 2, _ => exact ⟨.rational, rfl, rfl⟩
    | 3, _ => exact ⟨.float, rfl, rfl⟩
    | 4, _ => exact ⟨.str, rfl, rfl⟩
  rw [get?_eq_some_iff]
  constructor
  · rintro ⟨e, he, hp⟩
    obtain ⟨s, hid, he⟩ := exists_place_of_entry? he
    by_cases hs : s = .primitive
    · subst hs
      obtain ⟨q, hq, hplace⟩ := hids (h.primitives ▸ he : initial.primitives.entries[id.place]? = some e)
      obtain rfl : q = p := by simpa [hq] using hp
      rw [hid, hplace]
      rfl
    · have := (h.bucket hs).shape he
      rw [hp] at this
      exact absurd this.symm hs
  · rintro rfl
    obtain ⟨hplace, he⟩ := hfixed p
    refine ⟨leaf (.primitive p), ?_, rfl⟩
    rw [Primitive.id, entry?_ofParts t hplace, ofShape, h.primitives]
    exact he

/-- The id of a layer is the one that names it. -/
theorem Lawful.find?_iff (h : t.Lawful) : t.find? d = some id ↔ t.get? id = some d := by
  by_cases hd : d.shape = .primitive
  · cases d with
    | primitive p => rw [h.get?_primitive, find?, Option.some.injEq, eq_comm]
    | tuple | function | sound => cases hd
  · have hfind : t.find? d = ((t.ofShape d.shape).place? d.children).map (.ofParts d.shape) := by
      cases d <;> first | rfl | exact absurd rfl hd
    rw [hfind, get?_eq_some_iff, Option.map_eq_some_iff]
    constructor
    · rintro ⟨i, hi, rfl⟩
      obtain ⟨e, he, hc⟩ := (h.bucket hd).place_iff.mp hi
      have hlt := Nat.lt_of_lt_of_le (Bucket.lt_size he) (h.bucket hd).size_le
      exact ⟨e, (entry?_ofParts t hlt).trans he, TypeData.eq_of_children hd ((h.bucket hd).shape he) hc⟩
    · rintro ⟨e, he, rfl⟩
      obtain ⟨s, hid, he⟩ := exists_place_of_entry? he
      have hs : s = e.data.shape := by
        by_cases hs : s = .primitive
        · -- the types of that bucket are primitive
          subst hs
          rw [ofShape, h.primitives] at he
          have hall : ∀ e ∈ initial.primitives.entries, e.data.shape = .primitive := by decide
          exact (hall e (Array.mem_of_getElem? he)).symm
        · exact ((h.bucket hs).shape he).symm
      subst hs
      exact ⟨id.place, (h.bucket hd).place_iff.mpr ⟨e, he, rfl⟩, hid.symm⟩

/-- Types of one full form have one id. -/
theorem Lawful.expandWithin_inj (h : t.Lawful) {id' : TypeId} (ha : t.expandWithin n id = some ty)
    (hb : t.expandWithin m id' = some ty) : id = id' := by
  induction n generalizing m id id' ty with
  | zero => cases ha
  | succ n ih =>
      cases m with
      | zero => cases hb
      | succ m =>
          rw [expandWithin_succ, Option.bind_eq_some_iff] at ha hb
          obtain ⟨d, hd, ha⟩ := ha
          obtain ⟨d', hd', hb⟩ := hb
          obtain rfl := TypeData.assemble_inj (fun _ _ _ => ih) ha hb
          exact Option.some.inj ((h.find?_iff.mpr hd).symm.trans (h.find?_iff.mpr hd'))

theorem Lawful.expands_of_get? (h : t.Lawful) (hd : t.get? id = some d) : ∃ ty, t.expand? id = some ty := by
  obtain ⟨e, he, -⟩ := get?_eq_some_iff.mp hd
  exact h.expands he

/-! ### What storing a type keeps -/

theorem ofShape_push (t : Interner) (e : Entry) (s : Shape) :
    (t.push e).ofShape s = if s = e.data.shape then (t.ofShape s).push e else t.ofShape s := by
  unfold push
  cases e.data.shape <;> cases s <;> rfl

theorem size_push (t : Interner) (e : Entry) : (t.push e).size = t.size + 1 := by
  unfold push
  cases e.data.shape <;> simp [size] <;> omega

theorem extends_push (t : Interner) (e : Entry) : t.Extends (t.push e) := by
  intro id e' h
  obtain ⟨s, hid, he⟩ := exists_place_of_entry? h
  rw [hid, entry?_ofParts _ id.place_lt, ofShape_push]
  split
  · rw [Bucket.entries_push, if_neg (Nat.ne_of_lt (Bucket.lt_size he))]
    exact he
  · exact he

theorem entry?_push_last (hroom : (t.ofShape e.data.shape).size < TypeId.capacity) :
    entry? (t.push e) (.ofParts e.data.shape (t.ofShape e.data.shape).size) = some e := by
  rw [entry?_ofParts _ hroom, ofShape_push, if_pos rfl, Bucket.entries_push, if_pos rfl]

theorem entry?_of_push (h : entry? (t.push e) id = some e')
    (hne : id ≠ .ofParts e.data.shape (t.ofShape e.data.shape).size) : t.entry? id = some e' := by
  obtain ⟨s, hid, he⟩ := exists_place_of_entry? h
  rw [hid, entry?_ofParts _ id.place_lt]
  rw [ofShape_push] at he
  split at he
  · next hs =>
      subst hs
      rw [Bucket.entries_push] at he
      split at he
      · next hplace => exact absurd (hplace ▸ hid) hne
      · exact he
  · exact he

theorem Lawful.push (h : t.Lawful) (hnew : t.find? e.data = none)
    (hparts : ∀ id ∈ e.data.children, ∃ e', t.entry? id = some e')
    (hroom : (t.ofShape e.data.shape).size < TypeId.capacity) : (t.push e).Lawful where
  primitives := by
    have hne : Shape.primitive ≠ e.data.shape := by
      intro hs
      cases hd : e.data <;> simp_all [find?, TypeData.shape]
    have hsame : (t.push e).ofShape .primitive = t.ofShape .primitive := by rw [ofShape_push, if_neg hne]
    exact hsame.trans h.primitives
  bucket {s} hs := by
    rw [ofShape_push]
    split
    · next hshape =>
        subst hshape
        refine (h.bucket hs).push rfl ?_ hroom
        cases hd : e.data <;> simp_all [find?, TypeData.shape]
    · exact h.bucket hs
  expands {id e'} he' := by
    have hold (id : TypeId) (ty : Ty) (n : Nat) (hn : t.size + 1 ≤ n) (hty : t.expand? id = some ty) :
        (t.push e).expandWithin n id = some ty :=
      expandWithin_mono (extends_push t e) hn hty
    rw [expand?, size_push]
    by_cases hid : id = .ofParts e.data.shape (t.ofShape e.data.shape).size
    · -- the new type is one layer over types that have a full form already
      subst hid
      rw [expandWithin_succ, get?, entry?_push_last hroom]
      refine TypeData.assemble_isSome fun id hid => ?_
      obtain ⟨e', he'⟩ := hparts id hid
      obtain ⟨ty, hty⟩ := h.expands he'
      exact ⟨ty, hold id ty _ (Nat.le_refl _) hty⟩
    · obtain ⟨ty, hty⟩ := h.expands (entry?_of_push he' hid)
      exact ⟨ty, hold id ty _ (Nat.le_succ _) hty⟩

/-- A type that is there from the start has no parts. -/
theorem children_of_initial (h : initial.get? id = some d) : d.children = [] := by
  obtain ⟨e, he, rfl⟩ := get?_eq_some_iff.mp h
  obtain ⟨s, -, he⟩ := exists_place_of_entry? he
  have hall : ∀ s, ∀ e ∈ (initial.ofShape s).entries, e.data.children = [] := by
    intro s
    cases s <;> decide
  exact hall s e (Array.mem_of_getElem? he)

theorem lawful_initial : initial.Lawful where
  primitives := rfl
  bucket {s} hs := by
    cases s with
    | primitive => exact absurd rfl hs
    | tuple => exact (Bucket.lawful_empty .tuple).push rfl rfl (by decide)
    | function => exact Bucket.lawful_empty .function
    | sound => exact Bucket.lawful_empty .sound
  expands {id e} he := by
    have hd : initial.get? id = some e.data := get?_eq_some_iff.mpr ⟨e, he, rfl⟩
    rw [expand?, expandWithin_succ, hd]
    exact TypeData.assemble_isSome fun id hid => by rw [children_of_initial hd] at hid; cases hid

theorem entry?_of_partFlags {parts : List TypeId} {flags : List Flags} (h : t.partFlags parts = .ok flags) :
    ∀ id ∈ parts, ∃ e, t.entry? id = some e := by
  induction parts generalizing flags with
  | nil => exact fun _ h => nomatch h
  | cons id parts ih =>
      rw [partFlags, List.mapM_cons] at h
      cases he : t.entry? id with
      | none => simp [flags?, he, bind, Except.bind] at h
      | some e =>
          simp only [flags?, he, bind, Except.bind, Option.map_some] at h
          split at h
          · cases h
          · next flags hflags =>
              exact List.forall_mem_cons.mpr ⟨⟨e, he⟩, ih hflags⟩

/-- A type is there already, or goes behind the others of its shape. -/
theorem intern_cases (h : t.intern d = .ok (id, u)) :
    t.find? d = some id ∧ u = t ∨
    ∃ flags, t.find? d = none ∧ t.partFlags d.children = .ok flags ∧
      (t.ofShape d.shape).size < TypeId.capacity ∧
      id = .ofParts d.shape (t.ofShape d.shape).size ∧ u = t.push ⟨d, .compute d flags⟩ := by
  unfold intern at h
  split at h
  · next id' hid' =>
      cases h
      exact .inl ⟨hid', rfl⟩
  · next hnew =>
      cases hflags : t.partFlags d.children with
      | error e => simp [hflags, bind, Except.bind] at h
      | ok flags =>
          simp only [hflags, bind, Except.bind] at h
          split at h
          · next hroom =>
              cases h
              exact .inr ⟨flags, hnew, rfl, hroom, rfl, rfl⟩
          · cases h

/-- What a stored type keeps and what its id names. -/
theorem Lawful.intern (h : t.Lawful) (hi : t.intern d = .ok (id, u)) :
    u.Lawful ∧ t.Extends u ∧ u.get? id = some d := by
  obtain ⟨hfind, rfl⟩ | ⟨flags, hnew, hflags, hroom, rfl, rfl⟩ := intern_cases hi
  · exact ⟨h, Extends.refl u, h.find?_iff.mp hfind⟩
  · exact ⟨h.push hnew (entry?_of_partFlags hflags) hroom, extends_push t _,
      get?_eq_some_iff.mpr ⟨_, entry?_push_last hroom, rfl⟩⟩

/-- The layer that an id names is interned under that id. -/
theorem Lawful.intern_get? (h : t.Lawful) (hd : t.get? id = some d) : t.intern d = .ok (id, t) := by
  rw [Interner.intern, h.find?_iff.mpr hd]

end

end Interner

end SoundLang
