import SoundLang.Proofs.Outline.Lines

/-! # What an outline tells

The first line of an outline has the span of a node and its heading: the sort of the node, and perhaps a detail
(`Outline.Heading`, `Outline.Opens`).  The lines of its parts are deeper.  So the outline of a tree can tell the tree,
and where it ends, when something less deep stands behind it (`Outline.Tells`).  Then the outlines of several trees tell
all of them (`Outline.Tells.flatMap`). -/

namespace SoundLang

open Text

namespace Outline

/-! ### Headings -/

/-- What is written of a node behind its span: the sort of the node, and perhaps a detail in parentheses. -/
structure Heading where
  sort : String
  detail : Option String
  bare : '(' ∉ sort.toList := by decide
  oneLine : '\n' ∉ sort.toList := by decide

namespace Heading

def text (h : Heading) : String := h.sort ++ (h.detail.map fun d => s!"({d})").getD ""

theorem toList_text (h : Heading) :
    h.text.toList = h.sort.toList ++ (h.detail.map fun d => '(' :: (d.toList ++ [')'])).getD [] := by
  unfold text
  cases h.detail <;> simp [toString]

/-- The sort ends where the parenthesis opens. -/
theorem text_inj {h h' : Heading} (heq : h.text = h'.text) : h = h' := by
  obtain ⟨sort, detail, hbare, _⟩ := h
  obtain ⟨sort', detail', hbare', _⟩ := h'
  rw [← String.toList_inj, toList_text, toList_text] at heq
  cases detail with
  | none =>
      cases detail' with
      | none =>
          obtain rfl : sort = sort' := String.toList_inj.mp (by simpa using heq)
          rfl
      | some d' =>
          have hmem : '(' ∈ sort.toList := by simpa using congrArg ('(' ∈ ·) heq
          exact absurd hmem hbare
  | some d =>
      cases detail' with
      | none =>
          have hmem : '(' ∈ sort'.toList := by simpa using congrArg ('(' ∈ ·) heq.symm
          exact absurd hmem hbare'
      | some d' =>
          obtain ⟨hsort, hdetail⟩ := cut_inj hbare hbare' heq
          obtain rfl : sort = sort' := String.toList_inj.mp hsort
          obtain rfl : d = d' := String.toList_inj.mp (by simpa using hdetail)
          rfl

theorem newline_notMem_some {text : String} (h : '\n' ∉ text.toList) : ∀ d ∈ some text, '\n' ∉ d.toList :=
  fun _ hd => Option.some.inj hd ▸ h

theorem newline_notMem_count (n : Nat) : ∀ d ∈ some (toString n), '\n' ∉ d.toList :=
  newline_notMem_some (by simpa using notMem_toDigits rfl n)

theorem newline_notMem_text {h : Heading} (hdetail : ∀ d ∈ h.detail, '\n' ∉ d.toList) : '\n' ∉ h.text.toList := by
  rw [toList_text, List.mem_append, not_or]
  refine ⟨h.oneLine, ?_⟩
  cases hd : h.detail with
  | none => exact List.not_mem_nil
  | some d => simpa using hdetail d hd

end Heading

/-! ### First lines -/

/-- The first line of the outline is that of a node. -/
def Opens (d : Nat) (s : Span) (h : Heading) (o : Outline) : Prop := ∃ below, o = node d s h.text :: below

/-- The outline is empty, or its first line is less deep. -/
def Under (d : Nat) (o : Outline) : Prop := ∀ l ∈ o.head?, l.depth < d

section
variable {d d' : Nat} {s s' : Span} {h h' : Heading} {o o' rest rest' : Outline} {l : Line}

theorem Opens.append (ho : Opens d s h o) (rest : Outline) : Opens d s h (o ++ rest) := by
  obtain ⟨below, rfl⟩ := ho
  exact ⟨below ++ rest, rfl⟩

theorem Opens.unique (ho : Opens d s h o) (ho' : Opens d' s' h' o) : d = d' ∧ s = s' ∧ h = h' := by
  obtain ⟨below, rfl⟩ := ho
  obtain ⟨below', heq⟩ := ho'
  obtain ⟨hd, hs, htext⟩ := node_inj (List.cons.inj heq).1
  exact ⟨hd, hs, Heading.text_inj htext⟩

/-- The outline of a node whose heading has a detail on one line. -/
theorem Opens.plain (ho : Opens d s h o) (hdetail : ∀ d ∈ h.detail, '\n' ∉ d.toList) (hbelow : Plain o.tail) :
    Plain o := by
  obtain ⟨below, rfl⟩ := ho
  exact .cons (plain_node (Heading.newline_notMem_text hdetail)) hbelow

theorem Opens.under (ho : Opens d s h o) (hd : d < d') : Under d' o := by
  obtain ⟨below, rfl⟩ := ho
  intro l hl
  obtain rfl := Option.some.inj hl
  exact hd

theorem Opens.not_under (ho : Opens d s h o) : ¬ Under d o := by
  obtain ⟨below, rfl⟩ := ho
  exact fun hu => Nat.lt_irrefl d (hu _ rfl)

theorem Under.mono (hu : Under d o) (hd : d ≤ d') : Under d' o := fun l hl => Nat.lt_of_lt_of_le (hu l hl) hd

theorem Under.succ (hu : Under d o) : Under (d + 1) o := hu.mono (Nat.le_succ d)

theorem under_nil : Under d [] := nofun

theorem under_cons (hl : l.depth < d) : Under d (l :: o) := fun _ hl' => Option.some.inj hl' ▸ hl

/-- The name of a part is less deep than what stands in the part before it. -/
theorem under_part (d : Nat) (text : String) (o : Outline) : Under (d + 1 + 1) (⟨d, text⟩ :: o) :=
  under_cons (Nat.lt_succ_of_lt (Nat.lt_succ_self d))

end

/-! ### What an outline tells -/

section
variable {α β : Type} {outline : Nat → α → Outline} {fits : α → Prop} {view : α → β} {note : α → Span}
  {heading : α → Heading}

/-- In front of less deep lines, the outline of `a` tells what `view` leaves of it, and where it ends. -/
def Tells (outline : Nat → α → Outline) (fits : α → Prop) (view : α → β) (a : α) : Prop :=
  ∀ ⦃a' : α⦄, fits a' → ∀ ⦃d : Nat⦄ ⦃rest rest' : Outline⦄, Under (d + 1) rest → Under (d + 1) rest' →
    outline d a ++ rest = outline d a' ++ rest' → view a = view a' ∧ rest = rest'

/-- What is left to tell when the first lines agree. -/
theorem Tells.of_below {a : α} (hopens : ∀ d a, Opens d (note a) (heading a) (outline d a))
    (h : ∀ ⦃a' : α⦄, fits a' → note a = note a' → heading a = heading a' → ∀ ⦃d : Nat⦄ ⦃rest rest' : Outline⦄,
      Under (d + 1) rest → Under (d + 1) rest' → (outline d a).tail ++ rest = (outline d a').tail ++ rest' →
        view a = view a' ∧ rest = rest') : Tells outline fits view a := by
  intro a' ha' d rest rest' hr hr' heq
  obtain ⟨-, hnote, hheading⟩ := ((hopens d a).append rest).unique (heq ▸ (hopens d a').append rest')
  refine h ha' hnote hheading hr hr' ?_
  obtain ⟨below, hbelow⟩ := hopens d a
  obtain ⟨below', hbelow'⟩ := hopens d a'
  rw [hbelow, hbelow'] at heq ⊢
  exact (List.cons.inj heq).2

theorem under_flatMap (hopens : ∀ d a, Opens d (note a) (heading a) (outline d a)) {d d' : Nat} {rest : Outline}
    (hd : d < d') (hr : Under d rest) (as : List α) : Under d' (as.flatMap (outline d) ++ rest) := by
  cases as with
  | nil => exact hr.mono (Nat.le_of_lt hd)
  | cons a as =>
      rw [List.flatMap_cons, List.append_assoc]
      exact ((hopens d a).append _).under hd

/-- The outlines of some trees, one behind the other, tell the trees when something less deep is behind them. -/
theorem Tells.flatMap (hopens : ∀ d a, Opens d (note a) (heading a) (outline d a)) {as as' : List α}
    (has : ∀ a ∈ as, Tells outline fits view a) (has' : ∀ a ∈ as', fits a) {d : Nat} {rest rest' : Outline}
    (hr : Under d rest) (hr' : Under d rest')
    (heq : as.flatMap (outline d) ++ rest = as'.flatMap (outline d) ++ rest') :
    as.map view = as'.map view ∧ rest = rest' := by
  induction as generalizing as' with
  | nil =>
      cases as' with
      | nil => exact ⟨rfl, heq⟩
      | cons a' as' =>
          rw [List.flatMap_nil, List.nil_append, List.flatMap_cons, List.append_assoc] at heq
          exact absurd (heq ▸ hr) ((hopens d a').append _).not_under
  | cons a as ih =>
      cases as' with
      | nil =>
          rw [List.flatMap_nil, List.nil_append, List.flatMap_cons, List.append_assoc] at heq
          exact absurd (heq ▸ hr') ((hopens d a).append _).not_under
      | cons a' as' =>
          rw [List.forall_mem_cons] at has has'
          rw [List.flatMap_cons, List.flatMap_cons, List.append_assoc, List.append_assoc] at heq
          have hlt := Nat.lt_succ_self d
          obtain ⟨hview, heq⟩ := has.1 has'.1 (under_flatMap hopens hlt hr as) (under_flatMap hopens hlt hr' as') heq
          obtain ⟨hviews, hrest⟩ := ih has.2 has'.2 heq
          exact ⟨by rw [List.map_cons, List.map_cons, hview, hviews], hrest⟩

/-- The outline of a tree that may be left out tells whether it is, and the tree if not. -/
theorem Tells.option (hopens : ∀ d a, Opens d (note a) (heading a) (outline d a)) {o o' : Option α}
    (ho : ∀ a ∈ o, Tells outline fits view a) (ho' : ∀ a ∈ o', fits a) {d : Nat} {rest rest' : Outline}
    (hr : Under d rest) (hr' : Under d rest')
    (heq : (o.map (outline d)).getD [] ++ rest = (o'.map (outline d)).getD [] ++ rest') :
    o.map view = o'.map view ∧ rest = rest' := by
  have hlist (o : Option α) : (o.map (outline d)).getD [] = o.toList.flatMap (outline d) := by cases o <;> simp
  rw [hlist, hlist] at heq
  obtain ⟨hviews, hrest⟩ := Tells.flatMap hopens (fun a ha => ho a (Option.mem_toList.mp ha))
    (fun a ha => ho' a (Option.mem_toList.mp ha)) hr hr' heq
  have hhead (o : Option α) : o.map view = (o.toList.map view).head? := by cases o <;> rfl
  exact ⟨by rw [hhead, hhead, hviews], hrest⟩

end

end Outline

end SoundLang
