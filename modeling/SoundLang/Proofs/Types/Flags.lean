import Mathlib.Data.Nat.Bitwise
import SoundLang.Proofs.Types.Interning

/-! # Flags tell of the whole type

The flags of a type are computed when it is stored, from its layer and from the flags that are stored with its parts.
What a flag says of a type in full (`Flag.Tells`) is said of the layer, or handed on from a part (`Flag.tells_iff`), so
by induction from the parts to the type each stored word has just the bits of what is so (`Flags.Exactly`,
`Interner.Reachable.flags_tell`). -/

namespace SoundLang

namespace Ty

/-- The types next below a type; those of a function start with its result. -/
def parts : Ty → List Ty
  | primitive _ => []
  | tuple elems => elems
  | function params result => result :: params
  | sound inner => [inner]

/-- The first type is the second one or stands somewhere inside it. -/
inductive Within (node : Ty) : Ty → Prop
  | self : Within node node
  | part {p ty : Ty} (hp : p ∈ ty.parts) (h : Within node p) : Within node ty

theorem within_iff {node ty : Ty} : node.Within ty ↔ node = ty ∨ ∃ p ∈ ty.parts, node.Within p := by
  constructor
  · rintro (_ | ⟨hp, h⟩)
    · exact .inl rfl
    · exact .inr ⟨_, hp, h⟩
  · rintro (rfl | ⟨p, hp, h⟩)
    · exact .self
    · exact .part hp h

end Ty

/-! ### What flags say -/

namespace Flag

/-- What a flag says of a type by itself. -/
def OfRoot : Flag → Ty → Prop
  | isPrimitive, ty => ∃ p, ty = .primitive p
  | isNumeric, ty => ∃ p ∈ [Primitive.integer, .rational, .float], ty = .primitive p
  | isTuple, ty => ∃ elems, ty = .tuple elems
  | isUnit, ty => ty = .tuple []
  | isFunction, ty | hasFunction, ty => ∃ params result, ty = .function params result
  | isSound, ty | hasSound, ty => ∃ inner, ty = .sound inner

/-- What a flag says of a type: two flags speak of all that it is made of, the others of the type itself. -/
def Tells : Flag → Ty → Prop
  | hasSound, ty => ∃ inner, (Ty.sound inner).Within ty
  | hasFunction, ty => ∃ params result, (Ty.function params result).Within ty
  | f, ty => f.OfRoot ty

/-- The flags that parts hand on. -/
def presence : List Flag := [hasSound, hasFunction]

theorem tells_iff {f : Flag} {ty : Ty} :
    f.Tells ty ↔ f.OfRoot ty ∨ f ∈ presence ∧ ∃ p ∈ ty.parts, f.Tells p := by
  cases f with
  | hasSound =>
      have hstep : ∀ inner, (Ty.sound inner).Within ty ↔
          ty = .sound inner ∨ ∃ p ∈ ty.parts, (Ty.sound inner).Within p :=
        fun inner => Ty.within_iff.trans (or_congr_left eq_comm)
      simp only [Tells, OfRoot, hstep, exists_or, presence, List.mem_cons, true_or, true_and]
      exact or_congr_right ⟨fun ⟨i, p, hp, h⟩ => ⟨p, hp, i, h⟩, fun ⟨p, hp, i, h⟩ => ⟨i, p, hp, h⟩⟩
  | hasFunction =>
      have hstep : ∀ ps r, (Ty.function ps r).Within ty ↔
          ty = .function ps r ∨ ∃ p ∈ ty.parts, (Ty.function ps r).Within p :=
        fun ps r => Ty.within_iff.trans (or_congr_left eq_comm)
      simp only [Tells, OfRoot, hstep, exists_or, presence, List.mem_cons, true_or, or_true, true_and]
      exact or_congr_right ⟨fun ⟨ps, r, p, hp, h⟩ => ⟨p, hp, ps, r, h⟩, fun ⟨p, hp, ps, r, h⟩ => ⟨ps, r, p, hp, h⟩⟩
  | isPrimitive | isNumeric | isTuple | isUnit | isFunction | isSound => simp [Tells, presence]

theorem mem_all (f : Flag) : f ∈ all := by cases f <;> decide

/-- Each flag has one bit. -/
theorem exists_mask_eq (f : Flag) : ∃ i, f.mask.toNat = 2 ^ i := by
  have hall : ∀ f ∈ all, ∃ i < 16, f.mask.toNat = 2 ^ i := by decide
  obtain ⟨i, -, hi⟩ := hall f f.mem_all
  exact ⟨i, hi⟩

theorem eq_of_mask {f g : Flag} (h : f.mask.toNat = g.mask.toNat) : f = g := by
  have hall : ∀ f ∈ all, ∀ g ∈ all, f.mask.toNat = g.mask.toNat → f = g := by decide
  exact hall f f.mem_all g g.mem_all h

theorem testBit_mask (f : Flag) (i : Nat) : f.mask.toNat.testBit i = true ↔ f.mask.toNat = 2 ^ i := by
  obtain ⟨j, hj⟩ := f.exists_mask_eq
  rw [hj, Nat.testBit_two_pow, decide_eq_true_iff, Nat.pow_right_inj (Nat.le_refl 2)]

end Flag

namespace Flags

variable {a b : Flags} {p q : Flag → Prop}

/-- The set has the flags with a property, and no other bit. -/
def Exactly (a : Flags) (p : Flag → Prop) : Prop :=
  ∀ i, a.bits.toNat.testBit i = true ↔ ∃ f : Flag, f.mask.toNat = 2 ^ i ∧ p f

theorem Exactly.congr (h : a.Exactly p) (hpq : ∀ f, p f ↔ q f) : a.Exactly q := by
  intro i
  rw [h i]
  simp only [hpq]

theorem Exactly.has_iff (h : a.Exactly p) (f : Flag) : a.has f = true ↔ p f := by
  obtain ⟨i, hi⟩ := f.exists_mask_eq
  have hbit : a.has f = true ↔ a.bits.toNat.testBit i = true := by
    rw [has, beq_iff_eq, ← UInt16.toNat_inj, UInt16.toNat_and, hi, Nat.and_two_pow]
    have hpos := Nat.two_pow_pos i
    cases a.bits.toNat.testBit i
    · simp only [Bool.toNat_false, Bool.false_eq_true, iff_false]
      omega
    · simp
  rw [hbit, h i]
  constructor
  · rintro ⟨g, hg, hp⟩
    rwa [Flag.eq_of_mask (hi.trans hg.symm)]
  · exact fun hp => ⟨f, hi, hp⟩

theorem Exactly.union (ha : a.Exactly p) (hb : b.Exactly q) : (a.union b).Exactly fun f => p f ∨ q f := by
  intro i
  rw [Flags.union, UInt16.toNat_or, Nat.testBit_or, Bool.or_eq_true, ha i, hb i]
  simp only [and_or_left, exists_or]

theorem exactly_empty : empty.Exactly fun _ => False := by
  intro i
  simp [empty]

theorem exactly_mask (f : Flag) : Exactly ⟨f.mask⟩ (· = f) := by
  intro i
  rw [Flag.testBit_mask]
  simp

theorem exactly_ofList (fs : List Flag) : (ofList fs).Exactly (· ∈ fs) := by
  have hfold : ∀ (a : Flags) (p : Flag → Prop), a.Exactly p →
      Exactly ⟨fs.foldl (fun bits f => bits ||| f.mask) a.bits⟩ fun f => p f ∨ f ∈ fs := by
    induction fs with
    | nil => exact fun a p h => h.congr (by simp)
    | cons f fs ih =>
        intro a p h
        exact (ih _ _ (h.union (exactly_mask f))).congr (by simp [or_assoc])
  exact (hfold _ _ exactly_empty).congr (by simp)

theorem Exactly.inherited (h : a.Exactly p) : a.inherited.Exactly fun f => f ∈ Flag.presence ∧ p f := by
  intro i
  rw [Flags.inherited, UInt16.toNat_and, Nat.testBit_and, Bool.and_eq_true, h i]
  change _ ∧ (ofList Flag.presence).bits.toNat.testBit i = true ↔ _
  rw [exactly_ofList Flag.presence i]
  constructor
  · rintro ⟨⟨f, hf, hp⟩, g, hg, hmem⟩
    rw [← Flag.eq_of_mask (hf.trans hg.symm)] at hmem
    exact ⟨f, hf, hmem, hp⟩
  · rintro ⟨f, hf, hmem, hp⟩
    exact ⟨⟨f, hf, hp⟩, f, hf, hmem⟩

/-- Parts together hand on what any of them hands on. -/
theorem exactly_inheritedAll {α : Type} {tells : Flag → α → Prop} {parts : List Flags} {as : List α}
    (h : List.Forall₂ (fun part a => part.Exactly (tells · a)) parts as) :
    (inheritedAll parts).Exactly fun f => f ∈ Flag.presence ∧ ∃ a ∈ as, tells f a := by
  have hfold : ∀ (acc : Flags) (p : Flag → Prop), acc.Exactly p →
      (parts.foldl (fun flags part => flags.union part.inherited) acc).Exactly
        fun f => p f ∨ f ∈ Flag.presence ∧ ∃ a ∈ as, tells f a := by
    induction h with
    | nil => exact fun acc p h => h.congr (by simp)
    | cons hpart _ ih =>
        intro acc p h
        refine (ih _ _ (h.union hpart.inherited)).congr fun f => ?_
        simp only [List.exists_mem_cons_iff, and_or_left, or_assoc]
  exact (hfold _ _ exactly_empty).congr (by simp)

/-- The flags of a layer say what is so of the type by itself. -/
theorem exactly_own {g : TypeId → Option Ty} {d : TypeData} {ty : Ty} (h : d.assemble g = some ty) :
    (own d).Exactly (·.OfRoot ty) := by
  cases d with
  | primitive prim =>
      cases h
      cases prim <;> exact (exactly_ofList _).congr fun f => by cases f <;> simp [Flag.OfRoot]
  | tuple elems =>
      obtain ⟨tys, htys, ⟨⟩⟩ := Option.bind_eq_some_iff.mp h
      cases elems with
      | nil =>
          cases htys
          exact (exactly_ofList _).congr fun f => by cases f <;> simp [Flag.OfRoot]
      | cons id ids =>
          have hne : tys ≠ [] := by
            rintro rfl
            cases mapM_eq_some_iff.mp htys
          exact (exactly_ofList _).congr fun f => by cases f <;> simp [Flag.OfRoot, hne]
  | function params result =>
      obtain ⟨tys, -, h⟩ := Option.bind_eq_some_iff.mp h
      obtain ⟨ty, -, ⟨⟩⟩ := Option.bind_eq_some_iff.mp h
      exact (exactly_ofList _).congr fun f => by cases f <;> simp [Flag.OfRoot]
  | sound inner =>
      obtain ⟨ty, -, ⟨⟩⟩ := Option.bind_eq_some_iff.mp h
      exact (exactly_ofList _).congr fun f => by cases f <;> simp [Flag.OfRoot]

/-- Over parts with the right flags a layer gets the right flags. -/
theorem exactly_compute {g : TypeId → Option Ty} {d : TypeData} {ty : Ty} (h : d.assemble g = some ty)
    {parts : List Flags} (hparts : List.Forall₂ (fun part p => part.Exactly (·.Tells p)) parts ty.parts) :
    (compute d parts).Exactly (·.Tells ty) :=
  ((exactly_own h).union (exactly_inheritedAll hparts)).congr fun _ => Flag.tells_iff.symm

end Flags

/-- The full forms of the parts of a layer are the parts of its full form. -/
theorem TypeData.forall₂_parts {g : TypeId → Option Ty} {d : TypeData} {ty : Ty} (h : d.assemble g = some ty) :
    List.Forall₂ (fun id p => g id = some p) d.children ty.parts := by
  cases d with
  | primitive p =>
      cases h
      exact .nil
  | tuple elems =>
      obtain ⟨tys, htys, ⟨⟩⟩ := Option.bind_eq_some_iff.mp h
      exact mapM_eq_some_iff.mp htys
  | function params result =>
      obtain ⟨tys, htys, h⟩ := Option.bind_eq_some_iff.mp h
      obtain ⟨r, hr, ⟨⟩⟩ := Option.bind_eq_some_iff.mp h
      exact .cons hr (mapM_eq_some_iff.mp htys)
  | sound inner =>
      obtain ⟨i, hi, ⟨⟩⟩ := Option.bind_eq_some_iff.mp h
      exact .cons hi .nil

namespace Interner

variable {t u : Interner} {id : TypeId} {d : TypeData} {e : Entry} {ids : List TypeId}

/-! ### What is stored with a type -/

/-- The flags of each type are those of its layer over the flags of its parts. -/
def Flagged (t : Interner) : Prop := ∀ id e, t.entry? id = some e → e = t.entryFor e.data

/-- What is stored for a layer with known parts does not change where more types are known. -/
theorem entryFor_extends (hext : t.Extends u) (h : t.unknownPart? d = none) : u.entryFor d = t.entryFor d := by
  have hflags : d.children.filterMap u.flags? = d.children.filterMap t.flags? := by
    refine List.filterMap_congr fun id hid => ?_
    cases he : t.entry? id with
    | none =>
        have hknown := List.find?_eq_none.mp h id hid
        simp [get?, he] at hknown
    | some e => rw [flags?, flags?, he, hext id e he]
  rw [entryFor, entryFor, hflags]

theorem flagged_initial : initial.Flagged := by
  intro id e he
  have hchildren := children_of_initial (get?_eq_some_iff.mpr ⟨e, he, rfl⟩)
  obtain ⟨s, -, he⟩ := exists_place_of_entry? he
  have hall : ∀ s, ∀ e ∈ (initial.ofShape s).entries, e = leaf e.data := by
    intro s
    cases s <;> decide
  rw [entryFor, hchildren]
  exact hall s e (Array.mem_of_getElem? he)

theorem Flagged.intern (h : t.Flagged) (ht : t.Lawful) (hi : t.intern d = .ok (id, u)) : u.Flagged := by
  obtain ⟨-, rfl⟩ | ⟨flags, -, hflags, hroom, rfl, rfl⟩ := intern_cases hi
  · exact h
  · have hext := extends_push t ⟨d, .compute d flags⟩
    rw [partFlags_eq] at hflags
    split at hflags
    · cases hflags
    · next hparts =>
        cases hflags
        intro id e he
        by_cases hid : id = .ofParts d.shape (t.ofShape d.shape).size
        · rw [hid, entry?_push_last hroom, Option.some.injEq] at he
          subst he
          exact (entryFor_extends hext hparts).symm
        · -- the flags of older types were computed from parts that have not changed
          have hold := entry?_of_push he hid
          have hknown := ht.unknownPart?_of_get? (get?_eq_some_iff.mpr ⟨e, hold, rfl⟩)
          rw [entryFor_extends hext hknown]
          exact h id e hold

theorem Stores.flagged (hs : Stores t u ids) (ht : t.Lawful) (h : t.Flagged) : u.Lawful ∧ u.Flagged := by
  induction hs with
  | nothing => exact ⟨ht, h⟩
  | more _ _ hi ih =>
      obtain ⟨hu, hflagged⟩ := ih
      exact ⟨(hu.intern hi).1, hflagged.intern hu hi⟩

theorem Reachable.flagged (h : t.Reachable) : t.Flagged := by
  obtain ⟨ops, rfl⟩ := h
  obtain ⟨ids, hids⟩ := stores_after initial ops
  exact (hids.flagged lawful_initial flagged_initial).2

theorem Reachable.wellFounded (h : t.Reachable) : WellFounded t.PartOf := by
  obtain ⟨ops, rfl⟩ := h
  obtain ⟨ids, hids⟩ := stores_after initial ops
  exact (hids.ordered ordered_initial).wellFounded

/-! ### The flags of a type -/

/-- The word that is stored with a type says what is so of its full form, by induction from its parts. -/
theorem Reachable.exactly_flags (h : t.Reachable) {ty : Ty} (hty : t.expand? id = some ty) :
    ∃ flags, t.flags? id = some flags ∧ flags.Exactly (·.Tells ty) := by
  induction id using h.wellFounded.induction generalizing ty with
  | h id ih =>
      rw [h.lawful.expand?_eq, Option.bind_eq_some_iff] at hty
      obtain ⟨d, hd, hty⟩ := hty
      obtain ⟨e, he, rfl⟩ := get?_eq_some_iff.mp hd
      have hparts : ∀ {ids : List TypeId} {tys : List Ty}, (∀ id ∈ ids, id ∈ e.data.children) →
          List.Forall₂ (fun id p => t.expand? id = some p) ids tys →
          List.Forall₂ (fun part p => part.Exactly (·.Tells p)) (ids.filterMap t.flags?) tys := by
        intro ids tys hmem hids
        induction hids with
        | nil => exact .nil
        | cons hid _ hrest =>
            obtain ⟨hpart, hmem⟩ := List.forall_mem_cons.mp hmem
            obtain ⟨flags, hflags, hexactly⟩ := ih _ ⟨e.data, hd, hpart⟩ hid
            rw [List.filterMap_cons, hflags]
            exact .cons hexactly (hrest hmem)
      refine ⟨e.flags, by rw [flags?, he, Option.map_some], ?_⟩
      rw [h.flagged id e he]
      exact Flags.exactly_compute hty (hparts (fun _ hid => hid) (TypeData.forall₂_parts hty))

/-- After any run, the flags of a known type say what is so of its full form: whether a sound or a function stands
anywhere in it, and what it is itself.  The word has no bit besides. -/
theorem Reachable.flags_tell (h : t.Reachable) (hd : t.get? id = some d) :
    ∃ ty flags, t.expand? id = some ty ∧ t.flags? id = some flags ∧
      (∀ f, flags.has f = true ↔ f.Tells ty) ∧
      ∀ i, flags.bits.toNat.testBit i = true ↔ ∃ f : Flag, f.mask.toNat = 2 ^ i ∧ f.Tells ty := by
  obtain ⟨ty, hty⟩ := h.lawful.expands_of_get? hd
  obtain ⟨flags, hflags, hexactly⟩ := h.exactly_flags hty
  exact ⟨ty, flags, hty, hflags, hexactly.has_iff, hexactly⟩

/-- The interner after a function from a sound to the empty tuple was stored in it, and a tuple of that function. -/
def withNested : Interner :=
  initial.after [.intern (.sound Primitive.float.id), .intern (.function [.ofParts .sound 0] .unit),
    .intern (.tuple [.ofParts .function 0])]

/-- The tuple is neither a sound nor a function, but has both inside. -/
theorem flags_tell_withNested :
    withNested.get? (.ofParts .tuple 1) = some (.tuple [.ofParts .function 0]) ∧
    withNested.flags? (.ofParts .tuple 1) = some (.ofList [.isTuple, .hasSound, .hasFunction]) ∧
    ∃ ty, withNested.expand? (.ofParts .tuple 1) = some ty ∧ Flag.hasSound.Tells ty ∧ Flag.hasFunction.Tells ty ∧
      ¬ Flag.isSound.Tells ty ∧ ¬ Flag.isFunction.Tells ty ∧ ¬ Flag.isUnit.Tells ty := by
  have hreachable : withNested.Reachable := ⟨_, rfl⟩
  have hd : withNested.get? (.ofParts .tuple 1) = some (.tuple [.ofParts .function 0]) := by decide
  have hword : withNested.flags? (.ofParts .tuple 1) = some (.ofList [.isTuple, .hasSound, .hasFunction]) := by decide
  obtain ⟨ty, flags, hty, hflags, htells, -⟩ := hreachable.flags_tell hd
  obtain rfl : .ofList [.isTuple, .hasSound, .hasFunction] = flags := Option.some.inj (hword.symm.trans hflags)
  refine ⟨hd, hword, ty, hty, ?_⟩
  simp only [← htells]
  decide

end Interner

end SoundLang
