import SoundLang.Proofs.Types.Meaning

/-! # Which annotations are right

A node of an annotation can be wrong by itself, whatever its parts are (`TypeExpr.fault?`): a name is unknown, or has
too many or too few arguments.  An annotation means a type (`TypeExpr.Means`) just if no node of it is wrong, and
otherwise the first wrong node, each node standing before its parts, tells what is wrong with it
(`TypeExpr.firstFault?_eq`).

Lowering stores at most one type for each node (`Lowering.spends_type`).  So it is refused an id only if there was not
room for so many, and else it judges annotations as they are told to be right or wrong here
(`Interner.Reachable.annotation_judged`). -/

namespace SoundLang

namespace TypeExpr

/-! ### Nodes -/

section
variable {α : Type}

mutual

/-- The nodes of a type from left to right, each before its parts. -/
def nodes : TypeExpr α → List (TypeExpr α)
  | .named note name => [.named note name]
  | .applied note name args => .applied note name args :: nodesAll args
  | .tuple note elems => .tuple note elems :: nodesAll elems

/-- The nodes of types from left to right, each before its parts. -/
def nodesAll : List (TypeExpr α) → List (TypeExpr α)
  | [] => []
  | t :: ts => t.nodes ++ nodesAll ts

end

end

/-- What is wrong with a node by itself. -/
def fault? : TypeExpr Span → Option TypeError
  | .named span name =>
    if (Primitive.ofName? name).isSome then none
    else if name = Lowering.soundWord then some (.wrongArity name 1 0 span)
    else some (.unknownType name span)
  | .applied span name args =>
    if (Primitive.ofName? name.text).isSome then
      if args.length = 0 then none else some (.wrongArity name.text 0 args.length span)
    else if name.text = Lowering.soundWord then
      if args.length = 1 then none else some (.wrongArity name.text 1 args.length span)
    else some (.unknownType name.text name.note)
  | .tuple .. => none

/-- What is wrong with the first wrong node. -/
def firstFault? (t : TypeExpr Span) : Option TypeError := t.nodes.findSome? fault?

/-! ### Meaning -/

mutual

/-- The annotation is right and means the type. -/
inductive Means : TypeExpr Span → Ty → Prop
  | primitive {span : Span} (p : Primitive) : Means (.named span p.name) (.primitive p)
  | emptyBrackets {span word : Span} (p : Primitive) : Means (.applied span ⟨p.name, word⟩ []) (.primitive p)
  | sound {span word : Span} {inner : TypeExpr Span} {ty : Ty} (h : Means inner ty) :
      Means (.applied span ⟨Lowering.soundWord, word⟩ [inner]) (.sound ty)
  | tuple {span : Span} {elems : List (TypeExpr Span)} {tys : List Ty} (h : MeansAll elems tys) :
      Means (.tuple span elems) (.tuple tys)

/-- The annotations are right and mean the types, in order. -/
inductive MeansAll : List (TypeExpr Span) → List Ty → Prop
  | nil : MeansAll [] []
  | cons {t : TypeExpr Span} {ts : List (TypeExpr Span)} {ty : Ty} {tys : List Ty} (h : Means t ty)
      (hs : MeansAll ts tys) : MeansAll (t :: ts) (ty :: tys)

end

end TypeExpr

theorem Primitive.ofName?_name (p : Primitive) : Primitive.ofName? p.name = some p := by cases p <;> rfl

theorem Primitive.name_of_ofName? {name : String} {p : Primitive} (h : Primitive.ofName? name = some p) :
    p.name = name := by
  have := List.find?_some h
  exact beq_iff_eq.mp this

namespace TypeExpr

mutual

theorem Means.meaning {t : TypeExpr Span} {ty : Ty} (h : Means t ty) : t.meaning = .ok ty := by
  cases h with
  | primitive p => simp only [TypeExpr.meaning, Primitive.ofName?_name]
  | emptyBrackets p => simp only [TypeExpr.meaning, Primitive.ofName?_name, List.isEmpty_nil, if_true]
  | sound h =>
      have hname : Primitive.ofName? Lowering.soundWord = none := rfl
      simp only [TypeExpr.meaning, hname, if_true, h.meaning]
      rfl
  | tuple h =>
      rw [TypeExpr.meaning, h.meanings]
      rfl

theorem MeansAll.meanings {ts : List (TypeExpr Span)} {tys : List Ty} (h : MeansAll ts tys) :
    TypeExpr.meanings ts = .ok tys := by
  cases h with
  | nil => rfl
  | cons h hs =>
      rw [TypeExpr.meanings, h.meaning, hs.meanings]
      rfl

end

mutual

theorem means_of_meaning : (t : TypeExpr Span) → {ty : Ty} → t.meaning = .ok ty → Means t ty
  | .named span name, ty, h => by
      unfold meaning at h
      cases hname : Primitive.ofName? name with
      | some p =>
          rw [hname] at h
          cases h
          exact Primitive.name_of_ofName? hname ▸ .primitive p
      | none =>
          simp only [hname] at h
          split at h <;> cases h
  | .applied span ⟨name, word⟩ args, ty, h => by
      unfold meaning at h
      cases hname : Primitive.ofName? name with
      | some p =>
          obtain rfl := Primitive.name_of_ofName? hname
          simp only [hname] at h
          match args with
          | [] =>
              cases h
              exact .emptyBrackets p
          | _ :: _ => cases h
      | none =>
          simp only [hname] at h
          by_cases hsound : name = Lowering.soundWord
          · subst hsound
            rw [if_pos rfl] at h
            match args with
            | [inner] =>
                cases hinner : inner.meaning with
                | error e =>
                    simp only [hinner] at h
                    cases h
                | ok ty =>
                    simp only [hinner] at h
                    cases h
                    exact .sound (means_of_meaning inner hinner)
            | [] | _ :: _ :: _ => cases h
          · rw [if_neg hsound] at h
            cases h
  | .tuple span elems, ty, h => by
      rw [meaning] at h
      cases helems : meanings elems with
      | error e =>
          rw [helems] at h
          cases h
      | ok tys =>
          rw [helems] at h
          cases h
          exact .tuple (means_of_meanings elems helems)

theorem means_of_meanings : (ts : List (TypeExpr Span)) → {tys : List Ty} → meanings ts = .ok tys → MeansAll ts tys
  | [], tys, h => by
      cases h
      exact .nil
  | t :: ts, tys, h => by
      rw [meanings] at h
      cases ht : t.meaning with
      | error e =>
          rw [ht] at h
          cases h
      | ok ty =>
          cases hts : meanings ts with
          | error e =>
              rw [ht, hts] at h
              cases h
          | ok tys =>
              rw [ht, hts] at h
              cases h
              exact .cons (means_of_meaning t ht) (means_of_meanings ts hts)

end

/-- An annotation means just what its meaning is. -/
theorem means_iff {t : TypeExpr Span} {ty : Ty} : Means t ty ↔ t.meaning = .ok ty :=
  ⟨Means.meaning, means_of_meaning t⟩

/-! ### The first fault -/

/-- What is wrong with the first wrong node of types. -/
def firstFaultAll? (ts : List (TypeExpr Span)) : Option TypeError := (nodesAll ts).findSome? fault?

theorem firstFault?_named (span : Span) (name : String) : firstFault? (.named span name) = fault? (.named span name) :=
  List.findSome?_singleton

theorem firstFault?_applied (span : Span) (name : Name Span) (args : List (TypeExpr Span)) :
    firstFault? (.applied span name args) = (fault? (.applied span name args)).or (firstFaultAll? args) := by
  unfold firstFault? firstFaultAll? nodes
  rw [List.findSome?_cons]
  cases fault? (.applied span name args) <;> rfl

theorem firstFault?_tuple (span : Span) (elems : List (TypeExpr Span)) :
    firstFault? (.tuple span elems) = firstFaultAll? elems := by
  unfold firstFault? firstFaultAll? nodes
  rw [List.findSome?_cons]
  rfl

theorem firstFaultAll?_cons (t : TypeExpr Span) (ts : List (TypeExpr Span)) :
    firstFaultAll? (t :: ts) = t.firstFault?.or (firstFaultAll? ts) := by
  unfold firstFault? firstFaultAll?
  rw [nodesAll, List.findSome?_append]

/-- The error that a result is, if it is one. -/
def error? {α : Type} : Except TypeError α → Option TypeError
  | .error e => some e
  | .ok _ => none

theorem error?_bind {α β : Type} (x : Except TypeError α) (f : α → β) : error? (x >>= fun a => .ok (f a)) = error? x := by
  cases x <;> rfl

mutual

/-- What is wrong with an annotation is what is wrong with its first wrong node. -/
theorem firstFault?_eq : (t : TypeExpr Span) → t.firstFault? = error? t.meaning
  | .named span name => by
      rw [firstFault?_named, fault?, meaning]
      cases Primitive.ofName? name with
      | some p => rfl
      | none => by_cases hsound : name = Lowering.soundWord <;> simp [hsound, error?]
  | .applied span name args => by
      rw [firstFault?_applied, fault?]
      unfold meaning
      cases Primitive.ofName? name.text with
      | some p =>
          match args with
          | [] | _ :: _ => rfl
      | none =>
          by_cases hsound : name.text = Lowering.soundWord
          · simp only [if_pos hsound]
            match args with
            | [inner] =>
                have hinner := firstFault?_eq inner
                have hall : firstFaultAll? [inner] = inner.firstFault? := by
                  rw [firstFaultAll?_cons]
                  exact Option.or_none
                simp only [List.length_singleton]
                exact (hall.trans hinner).trans (error?_bind inner.meaning Ty.sound).symm
            | [] | _ :: _ :: _ => rfl
          · simp only [if_neg hsound]
            rfl
  | .tuple span elems => by
      rw [firstFault?_tuple, meaning, firstFaultAll?_eq elems]
      exact (error?_bind (meanings elems) Ty.tuple).symm

theorem firstFaultAll?_eq : (ts : List (TypeExpr Span)) → firstFaultAll? ts = error? (meanings ts)
  | [] => rfl
  | t :: ts => by
      rw [firstFaultAll?_cons, meanings, firstFault?_eq t, firstFaultAll?_eq ts]
      cases t.meaning with
      | error e => rfl
      | ok ty => exact (error?_bind (meanings ts) (ty :: ·)).symm

end

theorem means_iff_firstFault? (t : TypeExpr Span) : (∃ ty, Means t ty) ↔ t.firstFault? = none := by
  rw [firstFault?_eq]
  simp only [means_iff]
  cases t.meaning with
  | error e => simp [error?]
  | ok ty => simp [error?]

theorem Means.unique {t : TypeExpr Span} {ty ty' : Ty} (h : Means t ty) (h' : Means t ty') : ty = ty' := by
  rw [means_iff] at h h'
  rw [h] at h'
  exact Except.ok.inj h'

end TypeExpr

namespace Lowering

variable {α β : Type} {n k : Nat}

/-! ### How many types are stored -/

/-- The computation stores at most `n` types, and fewer if it is refused an id. -/
def Spends (n : Nat) (m : Lowering α) : Prop :=
  ∀ t s, ((m.run.run t).2.ofShape s).size ≤ (t.ofShape s).size + n ∧
    ∀ e, (m.run.run t).1 = .error (.refused e) → ((m.run.run t).2.ofShape s).size < (t.ofShape s).size + n

theorem Spends.mono {m : Lowering α} (h : Spends n m) (hle : n ≤ k) : Spends k m := by
  intro t s
  obtain ⟨hsize, hrefused⟩ := h t s
  constructor
  · omega
  · intro e he
    have := hrefused e he
    omega

theorem spends_pure (a : α) : Spends 0 (pure a : Lowering α) := by
  intro t s
  exact ⟨Nat.le_refl _, nofun⟩

theorem spends_throw (e : TypeError) : Spends 0 (throw (.error e) : Lowering α) := by
  intro t s
  constructor
  · exact Nat.le_refl _
  · intro e' he
    cases he

theorem spends_intern (d : TypeData) : Spends 1 (intern d) := by
  intro t s
  rw [run_intern]
  cases hi : t.intern d with
  | error e => exact ⟨Nat.le_succ _, fun _ _ => Nat.lt_succ_self _⟩
  | ok r =>
      obtain ⟨id, u⟩ := r
      refine ⟨?_, nofun⟩
      change (u.ofShape s).size ≤ (t.ofShape s).size + 1
      obtain ⟨-, rfl⟩ | ⟨flags, -, -, -, -, rfl⟩ := Interner.intern_cases hi
      · exact Nat.le_succ _
      · rw [Interner.ofShape_push]
        split
        · exact Nat.le_of_eq (Interner.Bucket.size_push _ _)
        · exact Nat.le_succ _

theorem Spends.bind {m : Lowering α} {f : α → Lowering β} (hm : Spends n m) (hf : ∀ a, Spends k (f a)) :
    Spends (n + k) (m >>= f) := by
  intro t s
  obtain ⟨hsize, hrefused⟩ := hm t s
  rw [run_bind]
  rcases hrun : m.run.run t with ⟨stop | a, u⟩
  · rw [hrun] at hsize hrefused
    simp only at hsize hrefused ⊢
    constructor
    · omega
    · intro e he
      cases he
      have := hrefused e rfl
      omega
  · rw [hrun] at hsize
    obtain ⟨hsize', hrefused'⟩ := hf a u s
    simp only at hsize ⊢
    constructor
    · omega
    · intro e he
      have := hrefused' e he
      omega

theorem spends_named (span : Span) (name : String) : Spends 0 (named span name) := by
  unfold named
  split
  · exact spends_pure _
  · split <;> exact spends_throw _

mutual

/-- Lowering an annotation stores at most one type for each of its nodes. -/
theorem spends_type : (type : TypeExpr Span) → Spends type.nodes.length (Lowering.type type)
  | .named span name => by
      rw [Lowering.type]
      exact (spends_named span name).mono (Nat.zero_le _)
  | .applied span name args => by
      unfold Lowering.type
      cases Primitive.ofName? name.text with
      | some p =>
          dsimp only
          split
          · exact (spends_pure _).mono (Nat.zero_le _)
          · exact (spends_throw _).mono (Nat.zero_le _)
      | none =>
          dsimp only
          split
          · match args with
            | [inner] =>
                have hle : inner.nodes.length + 1 ≤ (TypeExpr.applied span name [inner]).nodes.length := by
                  simp [TypeExpr.nodes, TypeExpr.nodesAll]
                exact ((spends_type inner).bind fun id => spends_intern (.sound id)).mono hle
            | [] | _ :: _ :: _ => exact (spends_throw _).mono (Nat.zero_le _)
          · exact (spends_throw _).mono (Nat.zero_le _)
  | .tuple span elems => by
      rw [Lowering.type]
      have hle : (TypeExpr.nodesAll elems).length + 1 ≤ (TypeExpr.tuple span elems).nodes.length := by
        simp [TypeExpr.nodes]
      exact ((spends_types elems).bind fun ids => spends_intern (.tuple ids)).mono hle

theorem spends_types : (types : List (TypeExpr Span)) → Spends (TypeExpr.nodesAll types).length (Lowering.types types)
  | [] => by
      rw [Lowering.types]
      exact spends_pure []
  | type :: types => by
      rw [Lowering.types]
      have hle : type.nodes.length + ((TypeExpr.nodesAll types).length + 0) ≤
          (TypeExpr.nodesAll (type :: types)).length := by
        simp [TypeExpr.nodesAll]
      exact ((spends_type type).bind fun id => (spends_types types).bind fun ids => spends_pure _).mono hle

end

end Lowering

/-! ### What lowering says of an annotation -/

namespace Interner

variable {t : Interner}

/-- Lowering an annotation after any run.  An id that it gives names the type that the annotation means, and an
annotation means one type at most.  Only for want of ids it is refused: there are as many types of a shape as ids can
tell apart, and there was no room for one type more of that shape for each node.  If it is not refused, it gives an id
just if the annotation is right, that is if no node is wrong, and tells what is wrong with the first wrong node just if
there is one. -/
theorem Reachable.annotation_judged (ht : t.Reachable) (type : TypeExpr Span) :
    (∀ id u, (Lowering.type type).run.run t = (.ok id, u) →
      ∃ ty, type.Means ty ∧ u.expand? id = some ty ∧ ∀ ty', type.Means ty' → ty' = ty) ∧
    (∀ e u, (Lowering.type type).run.run t = (.error (.refused e), u) →
      ∃ s, e = .full s ∧ TypeId.capacity ≤ (u.ofShape s).size ∧
        TypeId.capacity < (t.ofShape s).size + type.nodes.length) ∧
    ((∃ ty, type.Means ty) ↔ ∀ node ∈ type.nodes, node.fault? = none) ∧
    ((∀ e u, (Lowering.type type).run.run t ≠ (.error (.refused e), u)) →
      ((∃ id u, (Lowering.type type).run.run t = (.ok id, u)) ↔ ∃ ty, type.Means ty) ∧
      ∀ e, (∃ u, (Lowering.type type).run.run t = (.error (.error e), u)) ↔ type.firstFault? = some e) := by
  have hends := (Lowering.ends_type ht.lawful type).2.2
  have hspends := Lowering.spends_type type t
  rcases hrun : (Lowering.type type).run.run t with ⟨r, u⟩
  rw [hrun] at hends hspends
  refine ⟨?_, ?_, ?_, ?_⟩
  · rintro id u ⟨⟩
    obtain ⟨ty, hty, hid⟩ := hends
    have hmeans := TypeExpr.means_iff.mpr hty
    exact ⟨ty, hmeans, hid, fun ty' h => h.unique hmeans⟩
  · rintro e u ⟨⟩
    obtain ⟨s, rfl, hfull⟩ := hends
    have hlt := (hspends s).2 _ rfl
    exact ⟨s, rfl, hfull, Nat.lt_of_le_of_lt hfull hlt⟩
  · rw [type.means_iff_firstFault?, TypeExpr.firstFault?, List.findSome?_eq_none_iff]
  · intro hroom
    rw [type.means_iff_firstFault?, type.firstFault?_eq]
    match r with
    | .ok id =>
        obtain ⟨ty, hty, -⟩ := hends
        have hnone : ∀ e, ¬ ∃ v, ((.ok id, u) : Except Lowering.Stop TypeId × Interner) = (.error (.error e), v) := nofun
        rw [hty]
        exact ⟨⟨fun _ => rfl, fun _ => ⟨id, u, rfl⟩⟩, fun e => ⟨fun h => absurd h (hnone e), nofun⟩⟩
    | .error (.error e) =>
        have hmeaning : type.meaning = .error e := hends
        rw [hmeaning]
        refine ⟨⟨nofun, nofun⟩, fun e' => ⟨?_, ?_⟩⟩
        · rintro ⟨v, ⟨⟩⟩
          rfl
        · rintro ⟨⟩
          exact ⟨u, rfl⟩
    | .error (.refused e) => exact absurd rfl (hroom e u)

/-- The annotation `(bool, sound[int[]])`. -/
def rightAnnotation : TypeExpr Span :=
  .tuple (.onLine 0 7 27) [.named (.onLine 0 8 12) "bool",
    .applied (.onLine 0 14 26) ⟨"sound", .onLine 0 14 19⟩ [.applied (.onLine 0 20 25) ⟨"int", .onLine 0 20 23⟩ []]]

/-- The annotation `(int, sound[x, y], z)`. -/
def wrongAnnotation : TypeExpr Span :=
  .tuple (.onLine 0 7 28) [.named (.onLine 0 8 11) "int",
    .applied (.onLine 0 13 24) ⟨"sound", .onLine 0 13 18⟩ [.named (.onLine 0 19 20) "x", .named (.onLine 0 22 23) "y"],
    .named (.onLine 0 26 27) "z"]

/-- Three names are unknown in the wrong annotation, but the first wrong node is the one with two arguments. -/
theorem annotation_judged_in_order :
    (∃ id u, (Lowering.type rightAnnotation).run.run initial = (.ok id, u)) ∧
    ∃ u, (Lowering.type wrongAnnotation).run.run initial =
      (.error (.error (.wrongArity "sound" 1 2 (.onLine 0 13 24))), u) := by
  have hreachable : initial.Reachable := ⟨[], rfl⟩
  obtain ⟨-, hrefused, hmeans, hjudged⟩ := hreachable.annotation_judged rightAnnotation
  obtain ⟨-, hrefused', -, hjudged'⟩ := hreachable.annotation_judged wrongAnnotation
  have hroom : ∀ s, (initial.ofShape s).size + rightAnnotation.nodes.length ≤ TypeId.capacity ∧
      (initial.ofShape s).size + wrongAnnotation.nodes.length ≤ TypeId.capacity := by
    intro s
    cases s <;> decide
  constructor
  · refine (hjudged ?_).1.mpr (hmeans.mpr (by decide))
    intro e u he
    obtain ⟨s, -, -, hlt⟩ := hrefused e u he
    exact absurd (hroom s).1 (Nat.not_le_of_lt hlt)
  · refine ((hjudged' ?_).2 _).mpr (by decide)
    intro e u he
    obtain ⟨s, -, -, hlt⟩ := hrefused' e u he
    exact absurd (hroom s).2 (Nat.not_le_of_lt hlt)

end Interner

end SoundLang
