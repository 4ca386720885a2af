import SoundLang.Proofs.Text.Quoted
import SoundLang.Tree.Outline

/-! # Lines of outlines

The line of a node tells its depth, its span and what is written behind the span (`Outline.node_inj`).  When no line has
a line feed in it or starts with a blank (`Outline.Line.Plain`), the text of an outline tells its lines
(`Outline.render_inj`). -/

namespace SoundLang

open Text

/-! ### Positions and spans -/

theorem Pos.toList_render (p : Pos) :
    p.render.toList = Nat.toDigits 10 (p.line + 1) ++ ':' :: Nat.toDigits 10 (p.byte + 1) := by
  simp [render, toString]

theorem notMem_toDigits {c : Char} (hc : c.isDigit = false) (n : Nat) : c ∉ Nat.toDigits 10 n := by
  intro h
  have hdigit : c.isDigit = true := Nat.isDigit_of_mem_toDigits (b := 10) (by decide) (by decide) h
  rw [hdigit] at hc
  cases hc

theorem toDigits_inj {m n : Nat} (h : Nat.toDigits 10 m = Nat.toDigits 10 n) : m = n := by
  rw [← Nat.ofDigitChars_ten_toDigits (n := m), h, Nat.ofDigitChars_ten_toDigits]

/-- A position in text is digits and a colon. -/
theorem Pos.notMem_render {c : Char} (hc : c.isDigit = false) (hcolon : c ≠ ':') (p : Pos) : c ∉ p.render.toList := by
  rw [toList_render, List.mem_append, List.mem_cons, not_or, not_or]
  exact ⟨notMem_toDigits hc _, hcolon, notMem_toDigits hc _⟩

theorem Pos.render_inj {p q : Pos} (h : p.render = q.render) : p = q := by
  rw [← String.toList_inj, toList_render, toList_render] at h
  obtain ⟨hline, hbyte⟩ := cut_inj (notMem_toDigits rfl _) (notMem_toDigits rfl _) h
  obtain ⟨line, byte⟩ := p
  obtain ⟨line', byte'⟩ := q
  obtain rfl : line = line' := Nat.succ.inj (toDigits_inj hline)
  obtain rfl : byte = byte' := Nat.succ.inj (toDigits_inj hbyte)
  rfl

/-- A span in text is one position, or two with a dash between them. -/
theorem Span.toList_render (s : Span) : s.render.toList =
    s.start.render.toList ++ if s.isEmpty then [] else '-' :: s.stop.render.toList := by
  unfold render
  split <;> simp [*, toString]

theorem Span.notMem_render {c : Char} (hc : c.isDigit = false) (hcolon : c ≠ ':') (hdash : c ≠ '-') (s : Span) :
    c ∉ s.render.toList := by
  rw [toList_render, List.mem_append, not_or]
  refine ⟨s.start.notMem_render hc hcolon, ?_⟩
  split
  · exact List.not_mem_nil
  · rw [List.mem_cons, not_or]
    exact ⟨hdash, s.stop.notMem_render hc hcolon⟩

theorem Span.render_inj {s t : Span} (h : s.render = t.render) : s = t := by
  have hdash (p : Pos) : '-' ∉ p.render.toList := p.notMem_render rfl (by decide)
  obtain ⟨start, stop⟩ := s
  obtain ⟨start', stop'⟩ := t
  rw [← String.toList_inj, toList_render, toList_render] at h
  simp only [isEmpty, beq_iff_eq] at h
  split at h <;> split at h
  · next hs ht =>
      rw [List.append_nil, List.append_nil, String.toList_inj] at h
      obtain rfl := Pos.render_inj h
      rw [← hs, ← ht]
  · rw [List.append_nil] at h
    exact absurd (h ▸ List.mem_append_right _ List.mem_cons_self) (hdash start)
  · rw [List.append_nil] at h
    exact absurd (h ▸ List.mem_append_right _ List.mem_cons_self) (hdash start')
  · obtain ⟨hstart, hstop⟩ := cut_inj (hdash start) (hdash start') h
    rw [Pos.render_inj (String.toList_inj.mp hstart), Pos.render_inj (String.toList_inj.mp hstop)]

namespace Outline

/-! ### Lines -/

theorem toList_node (depth : Nat) (span : Span) (text : String) :
    (node depth span text).text.toList = span.render.toList ++ ' ' :: text.toList := by
  simp [node, toString]

/-- The line of a node tells what is on it. -/
theorem node_inj {d d' : Nat} {s s' : Span} {t t' : String} (h : node d s t = node d' s' t') :
    d = d' ∧ s = s' ∧ t = t' := by
  have htext := congrArg (·.text.toList) h
  simp only [toList_node] at htext
  obtain ⟨hspan, ht⟩ :=
    cut_inj (s.notMem_render rfl (by decide) (by decide)) (s'.notMem_render rfl (by decide) (by decide)) htext
  exact ⟨congrArg Line.depth h, Span.render_inj (String.toList_inj.mp hspan), String.toList_inj.mp ht⟩

/-- The text of the line is on one line and starts with no blank. -/
structure Line.Plain (l : Line) : Prop where
  oneLine : '\n' ∉ l.text.toList
  flush : l.text.toList.head? ≠ some ' '

theorem plain_node {d : Nat} {s : Span} {t : String} (h : '\n' ∉ t.toList) : (node d s t).Plain where
  oneLine := by
    rw [toList_node, List.mem_append, List.mem_cons, not_or, not_or]
    exact ⟨s.notMem_render rfl (by decide) (by decide), by decide, h⟩
  flush := by
    have hblank : ' ' ∉ s.render.toList := s.notMem_render rfl (by decide) (by decide)
    have hne : s.render.toList ≠ [] := by simp [Span.toList_render, Pos.toList_render, Nat.toDigits_ne_nil]
    rw [toList_node, List.head?_append_of_ne_nil _ hne]
    exact fun hhead => hblank (List.mem_of_head? hhead)

theorem blanks_inj {m n : Nat} {cs ds : List Char} (hc : cs.head? ≠ some ' ') (hd : ds.head? ≠ some ' ')
    (h : List.replicate m ' ' ++ cs = List.replicate n ' ' ++ ds) : m = n ∧ cs = ds := by
  induction m generalizing n with
  | zero =>
      cases n with
      | zero => exact ⟨rfl, h⟩
      | succ n =>
          rw [List.replicate_zero, List.nil_append] at h
          exact absurd (congrArg List.head? h) hc
  | succ m ih =>
      cases n with
      | zero =>
          rw [List.replicate_zero, List.nil_append] at h
          exact absurd (congrArg List.head? h.symm) hd
      | succ n =>
          obtain ⟨hm, hcs⟩ := ih (List.cons.inj h).2
          exact ⟨congrArg Nat.succ hm, hcs⟩

theorem Line.toList_render (l : Line) :
    l.render.toList = (List.replicate (2 * l.depth) ' ' ++ l.text.toList) ++ ['\n'] := by
  simp [render]

/-- The text of a plain line tells the line, and where it ends. -/
theorem Line.Plain.append_inj {l l' : Line} (hl : l.Plain) (hl' : l'.Plain) {rest rest' : List Char}
    (h : l.render.toList ++ rest = l'.render.toList ++ rest') : l = l' ∧ rest = rest' := by
  have hfree {l : Line} (hl : l.Plain) : '\n' ∉ List.replicate (2 * l.depth) ' ' ++ l.text.toList := by
    rw [List.mem_append, not_or]
    exact ⟨fun hmem => absurd (List.eq_of_mem_replicate hmem) (by decide), hl.oneLine⟩
  rw [toList_render, toList_render, List.append_assoc _ ['\n'], List.append_assoc _ ['\n']] at h
  obtain ⟨hline, hrest⟩ := cut_inj (hfree hl) (hfree hl') h
  obtain ⟨hdepth, htext⟩ := blanks_inj hl.flush hl'.flush hline
  obtain ⟨depth, text⟩ := l
  obtain ⟨depth', text'⟩ := l'
  obtain rfl : depth = depth' := Nat.eq_of_mul_eq_mul_left (by decide) hdepth
  obtain rfl : text = text' := String.toList_inj.mp htext
  exact ⟨rfl, hrest⟩

/-- The name of a part. -/
theorem plain_part (d : Nat) (text : String)
    (h : '\n' ∉ text.toList ∧ text.toList.head? ≠ some ' ' := by decide) : Line.Plain ⟨d, text⟩ :=
  ⟨h.1, h.2⟩

/-- The name of a part with the number of its trees. -/
theorem plain_count (d n : Nat) (opening : String)
    (h : '\n' ∉ opening.toList ∧ opening.toList.head? ≠ some ' ' := by decide)
    (hne : opening.toList ≠ [] := by decide) : Line.Plain ⟨d, opening ++ toString n ++ "):"⟩ := by
  constructor
  · simpa using ⟨h.1, notMem_toDigits rfl n⟩
  · rw [String.toList_append, String.toList_append, List.append_assoc, List.head?_append_of_ne_nil _ hne]
    exact h.2

/-! ### Outlines -/

/-- All lines of the outline are plain. -/
def Plain (o : Outline) : Prop := ∀ l ∈ o, l.Plain

namespace Plain

variable {o o' : Outline} {l : Line}

theorem nil : Plain [] := nofun

theorem cons (hl : l.Plain) (ho : Plain o) : Plain (l :: o) := List.forall_mem_cons.mpr ⟨hl, ho⟩

theorem append (ho : Plain o) (ho' : Plain o') : Plain (o ++ o') := List.forall_mem_append.mpr ⟨ho, ho'⟩

theorem flatMap {α : Type} {as : List α} {f : α → Outline} (h : ∀ a ∈ as, Plain (f a)) : Plain (as.flatMap f) := by
  intro l hl
  obtain ⟨a, ha, hla⟩ := List.mem_flatMap.mp hl
  exact h a ha l hla

theorem option {α : Type} {a : Option α} {f : α → Outline} (h : ∀ b ∈ a, Plain (f b)) :
    Plain ((a.map f).getD []) := by
  cases a with
  | none => exact nil
  | some b => exact h b rfl

end Plain

theorem toList_render (o : Outline) : o.render.toList = o.flatMap fun l => l.render.toList := by
  rw [render, String.toList_join, List.flatMap_map]

/-- The text of an outline of plain lines tells the lines. -/
theorem render_inj {o o' : Outline} (ho : Plain o) (ho' : Plain o') (h : o.render = o'.render) : o = o' := by
  rw [← String.toList_inj, toList_render, toList_render] at h
  have hne (l : Line) : l.render.toList ≠ [] := by simp [Line.toList_render]
  induction o generalizing o' with
  | nil =>
      cases o' with
      | nil => rfl
      | cons l' o' =>
          rw [List.flatMap_cons] at h
          exact absurd (List.append_eq_nil_iff.mp h.symm).1 (hne l')
  | cons l o ih =>
      cases o' with
      | nil =>
          rw [List.flatMap_cons] at h
          exact absurd (List.append_eq_nil_iff.mp h).1 (hne l)
      | cons l' o' =>
          rw [Plain, List.forall_mem_cons] at ho ho'
          rw [List.flatMap_cons, List.flatMap_cons] at h
          obtain ⟨rfl, hrest⟩ := ho.1.append_inj ho'.1 h
          rw [ih ho.2 ho'.2 hrest]

end Outline

end SoundLang
