import SoundLang.Proofs.Types.Order

/-! # Shown types are told apart

The text of a type says where it ends, if only a comma or a closing bracket can follow it: then no arrow stands behind
the parentheses of a tuple.  So in a longer text the type and what is behind it can be told from each other
(`Ty.render_append_inj`), by induction over the layers.  Since ids of equal types are equal, ids with one text are equal
(`Interner.Reachable.shown_apart`). -/

namespace SoundLang

namespace Ty

variable {s s' : List Char} {t u : Ty} {ts us : List Ty}

/-! ### The characters of a type -/

/-- What closes the parentheses of a tuple; one element alone has a comma behind it. -/
def closing : List Ty → List Char
  | [_] => [',', ')']
  | _ => [')']

/-- What follows an element in front of the others. -/
def behind : List Ty → List Char
  | [] => []
  | ts => ',' :: ' ' :: (renderList ts).toList

theorem toList_sound (t : Ty) : (sound t).render.toList = "sound[".toList ++ (t.render.toList ++ [']']) := by
  simp [render]

theorem toList_tuple (ts : List Ty) : (tuple ts).render.toList = '(' :: ((renderList ts).toList ++ closing ts) := by
  match ts with
  | [] | [_] | _ :: _ :: _ => simp [render, renderList, closing]

theorem toList_function (params : List Ty) (result : Ty) :
    (function params result).render.toList =
      '(' :: ((renderList params).toList ++ ')' :: ' ' :: '-' :: '>' :: ' ' :: result.render.toList) := by
  simp [render]

theorem toList_renderList_cons (t : Ty) (ts : List Ty) :
    (renderList (t :: ts)).toList = t.render.toList ++ behind ts := by
  cases ts <;> simp [renderList, behind]

/-- A type starts with a letter or with an opening parenthesis. -/
theorem exists_head (t : Ty) : ∃ c cs, t.render.toList = c :: cs ∧ c ≠ ',' ∧ c ≠ ')' := by
  cases t with
  | primitive p => cases p <;> exact ⟨_, _, rfl, by decide, by decide⟩
  | tuple ts => exact ⟨_, _, toList_tuple ts, by decide, by decide⟩
  | function params result => exact ⟨_, _, toList_function params result, by decide, by decide⟩
  | sound t => exact ⟨_, _, toList_sound t, by decide, by decide⟩

/-! ### What can follow -/

/-- A type can end in front of the text. -/
def Follows (s : List Char) : Prop := ∀ c ∈ s.head?, c = ',' ∨ c = ')' ∨ c = ']'

/-- A list of types ends in front of the text. -/
def Closes (s : List Char) : Prop := ∃ rest, s = ')' :: rest ∨ s = ',' :: ')' :: rest

theorem follows_nil : Follows [] := by
  intro c hc
  cases hc

theorem follows_bracket (s : List Char) : Follows (']' :: s) := by
  intro c hc
  cases hc
  exact .inr (.inr rfl)

theorem closes_closing (ts : List Ty) (s : List Char) : Closes (closing ts ++ s) := by
  match ts with
  | [_] => exact ⟨s, .inr rfl⟩
  | [] | _ :: _ :: _ => exact ⟨s, .inl rfl⟩

theorem Closes.follows_behind (h : Closes s) (ts : List Ty) : Follows (behind ts ++ s) := by
  intro c hc
  cases ts with
  | nil =>
      obtain ⟨rest, rfl | rfl⟩ := h
      · cases hc
        exact .inr (.inl rfl)
      · cases hc
        exact .inl rfl
  | cons t ts =>
      cases hc
      exact .inl rfl

/-- Behind a tuple there is no arrow. -/
theorem Follows.closing_ne (h : Follows s) (ts : List Ty) (rest : List Char) :
    closing ts ++ s ≠ ')' :: ' ' :: rest := by
  intro heq
  match ts with
  | [_] => simp [closing] at heq
  | [] | _ :: _ :: _ =>
      simp only [closing, List.singleton_append, List.cons.injEq, true_and] at heq
      subst heq
      have := h ' ' rfl
      simp at this

/-! ### Texts with one beginning -/

theorem Closes.renderList_cons_ne (h : Closes s) (t : Ty) (ts : List Ty) (s' : List Char) :
    s ≠ (renderList (t :: ts)).toList ++ s' := by
  intro heq
  obtain ⟨c, cs, hhead, hcomma, hparen⟩ := exists_head t
  rw [toList_renderList_cons, hhead] at heq
  obtain ⟨rest, rfl | rfl⟩ := h
  · exact hparen (List.cons.inj heq).1.symm
  · exact hcomma (List.cons.inj heq).1.symm

theorem Closes.behind_cons_ne (h : Closes s) (t : Ty) (ts : List Ty) (s' : List Char) :
    s ≠ behind (t :: ts) ++ s' := by
  intro heq
  obtain ⟨rest, rfl | rfl⟩ := h <;> simp [behind] at heq

/-- The names of the primitive types are told apart from each other, and from all other types. -/
theorem eq_primitive {p : Primitive} (h : (primitive p).render.toList ++ s = u.render.toList ++ s') :
    primitive p = u ∧ s = s' := by
  cases u with
  | primitive q => cases p <;> cases q <;> simp [render, Primitive.name] at h ⊢ <;> exact h
  | tuple us =>
      rw [toList_tuple] at h
      cases p <;> simp [render, Primitive.name] at h
  | function params result =>
      rw [toList_function] at h
      cases p <;> simp [render, Primitive.name] at h
  | sound u =>
      rw [toList_sound] at h
      cases p <;> simp [render, Primitive.name] at h

mutual

/-- Types at the start of one text are equal, and so is what follows them. -/
theorem render_append_inj : (t u : Ty) → {s s' : List Char} → Follows s → Follows s' →
    t.render.toList ++ s = u.render.toList ++ s' → t = u ∧ s = s'
  | .primitive p, u, s, s', _, _, h => eq_primitive h
  | t, .primitive q, s, s', _, _, h => by
      obtain ⟨rfl, rfl⟩ := eq_primitive h.symm
      exact ⟨rfl, rfl⟩
  | .sound t, .sound u, s, s', _, _, h => by
      simp only [toList_sound, List.append_assoc, List.append_cancel_left_eq] at h
      obtain ⟨rfl, hrest⟩ := render_append_inj t u (follows_bracket s) (follows_bracket s') h
      exact ⟨rfl, (List.cons.inj hrest).2⟩
  | .sound t, .tuple us, s, s', _, _, h => by
      rw [toList_sound, toList_tuple] at h
      simp at h
  | .tuple ts, .sound u, s, s', _, _, h => by
      rw [toList_sound, toList_tuple] at h
      simp at h
  | .sound t, .function params result, s, s', _, _, h => by
      rw [toList_sound, toList_function] at h
      simp at h
  | .function params result, .sound u, s, s', _, _, h => by
      rw [toList_sound, toList_function] at h
      simp at h
  | .tuple ts, .tuple us, s, s', _, _, h => by
      simp only [toList_tuple, List.cons_append, List.append_assoc, List.cons.injEq, true_and] at h
      obtain ⟨rfl, hrest⟩ := renderList_append_inj ts us (closes_closing ts s) (closes_closing us s') h
      exact ⟨rfl, List.append_cancel_left hrest⟩
  | .tuple ts, .function params result, s, s', hs, _, h => by
      simp only [toList_tuple, toList_function, List.cons_append, List.append_assoc, List.cons.injEq, true_and] at h
      obtain ⟨-, hrest⟩ := renderList_append_inj ts params (closes_closing ts s) ⟨_, .inl rfl⟩ h
      exact absurd hrest (hs.closing_ne ts _)
  | .function params result, .tuple us, s, s', _, hs', h => by
      simp only [toList_tuple, toList_function, List.cons_append, List.append_assoc, List.cons.injEq, true_and] at h
      obtain ⟨-, hrest⟩ := renderList_append_inj params us ⟨_, .inl rfl⟩ (closes_closing us s') h
      exact absurd hrest.symm (hs'.closing_ne us _)
  | .function params result, .function params' result', s, s', hs, hs', h => by
      simp only [toList_function, List.cons_append, List.append_assoc, List.cons.injEq, true_and] at h
      obtain ⟨rfl, hrest⟩ := renderList_append_inj params params' ⟨_, .inl rfl⟩ ⟨_, .inl rfl⟩ h
      simp only [List.cons.injEq, true_and] at hrest
      obtain ⟨rfl, hend⟩ := render_append_inj result result' hs hs' hrest
      exact ⟨rfl, hend⟩

/-- So are lists of types in parentheses. -/
theorem renderList_append_inj : (ts us : List Ty) → {s s' : List Char} → Closes s → Closes s' →
    (renderList ts).toList ++ s = (renderList us).toList ++ s' → ts = us ∧ s = s'
  | [], [], s, s', _, _, h => ⟨rfl, h⟩
  | [], u :: us, s, s', hs, _, h => absurd h (hs.renderList_cons_ne u us s')
  | t :: ts, [], s, s', _, hs', h => absurd h.symm (hs'.renderList_cons_ne t ts s)
  | t :: ts, u :: us, s, s', hs, hs', h => by
      rw [toList_renderList_cons, toList_renderList_cons, List.append_assoc, List.append_assoc] at h
      obtain ⟨rfl, hrest⟩ := render_append_inj t u (hs.follows_behind ts) (hs'.follows_behind us) h
      have htail := renderList_append_inj ts us hs hs'
      match ts, us with
      | [], [] => exact ⟨rfl, hrest⟩
      | [], v :: us => exact absurd hrest (hs.behind_cons_ne v us s')
      | v :: ts, [] => exact absurd hrest.symm (hs'.behind_cons_ne v ts s)
      | v :: ts, w :: us =>
          simp only [behind, List.cons_append, List.cons.injEq, true_and] at hrest
          obtain ⟨heq, hrest⟩ := htail hrest
          exact ⟨by rw [heq], hrest⟩

end

/-- Types with one text are equal. -/
theorem render_inj (h : t.render = u.render) : t = u := by
  have htext : t.render.toList ++ [] = u.render.toList ++ [] := by rw [h]
  exact (render_append_inj t u follows_nil follows_nil htext).1

end Ty

namespace Interner

variable {t : Interner}

/-- Every known id is shown, and two known ids are shown alike just if they are equal. -/
theorem Reachable.shown_apart (h : t.Reachable) {a b : TypeId} {d d' : TypeData} (ha : t.get? a = some d)
    (hb : t.get? b = some d') :
    ∃ text text', t.render? a = some text ∧ t.render? b = some text' ∧ (text = text' ↔ a = b) := by
  have h := h.lawful
  obtain ⟨ty, hty⟩ := h.expands_of_get? ha
  obtain ⟨ty', hty'⟩ := h.expands_of_get? hb
  have hshown : t.render? a = some ty.render := by rw [render?, hty, Option.map_some]
  have hshown' : t.render? b = some ty'.render := by rw [render?, hty', Option.map_some]
  refine ⟨ty.render, ty'.render, hshown, hshown', ?_, ?_⟩
  · intro htext
    obtain rfl := Ty.render_inj htext
    exact h.expandWithin_inj hty hty'
  · rintro rfl
    rw [hshown, Option.some.injEq] at hshown'
    exact hshown'

/-- An interner with a function of a tuple and with functions of functions. -/
def withFunctions : Interner := initial.after
  [.intern (.function [Primitive.integer.id] Primitive.boolean.id), .intern (.tuple [Primitive.integer.id]),
    .intern (.function [] (.ofParts .function 0)), .intern (.function [.ofParts .tuple 1] Primitive.boolean.id)]

/-- Two functions that are shown as `() -> (int) -> bool` and as `((int,)) -> bool`. -/
theorem shown_apart_withFunctions :
    (withFunctions.render? (.ofParts .function 1) = some "() -> (int) -> bool" ∧
      withFunctions.render? (.ofParts .function 2) = some "((int,)) -> bool") ∧
    ∃ text text', withFunctions.render? (.ofParts .function 1) = some text ∧
      withFunctions.render? (.ofParts .function 2) = some text' ∧
      (text = text' ↔ TypeId.ofParts .function 1 = .ofParts .function 2) := by
  have hreachable : withFunctions.Reachable := ⟨_, rfl⟩
  have hfirst : withFunctions.get? (.ofParts .function 1) = some (.function [] (.ofParts .function 0)) := by decide
  have hsecond : withFunctions.get? (.ofParts .function 2) =
      some (.function [.ofParts .tuple 1] Primitive.boolean.id) := by decide
  exact ⟨⟨by decide +kernel, by decide +kernel⟩, hreachable.shown_apart hfirst hsecond⟩

end Interner

end SoundLang
