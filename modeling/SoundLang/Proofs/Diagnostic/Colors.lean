import SoundLang.Proofs.Diagnostic.Drawing

/-! # Colours add escape sequences only

A drawing with colours is the drawing without them, once each escape sequence is erased from it (`erased_draw`).  No
text of a drawing holds an escape character, if those that it is made of hold none: the texts of the diagnostic, and
the lines that it quotes (`Unescaped.draw`). -/

namespace SoundLang.Diagnostic

open Piece

/-! ### Erasing escape sequences -/

/-- A text without its escape sequences.  Each starts with an escape character and a bracket, and goes up to the next
`m`; one that no `m` ends is left as it is. -/
def erased : List Char → List Char
  | [] => []
  | c :: cs =>
    if c = '\x1b' ∧ cs.head? = some '[' ∧ 'm' ∈ cs then erased (cs.dropWhile (· ≠ 'm')).tail
    else c :: erased cs
termination_by cs => cs.length
decreasing_by
  · have := (List.dropWhile_suffix (l := cs) (· ≠ 'm')).length_le
    simp only [List.length_tail, List.length_cons]
    omega
  · exact Nat.lt_succ_self _

/-- The text is one escape sequence. -/
def IsSequence (cs : List Char) : Prop := ∃ body, 'm' ∉ body ∧ cs = '\x1b' :: '[' :: (body ++ ['m'])

theorem IsSequence.erased_append {xs : List Char} (h : IsSequence xs) (cs : List Char) :
    erased (xs ++ cs) = erased cs := by
  obtain ⟨body, hbody, rfl⟩ := h
  have hskip : ('[' :: (body ++ ['m'] ++ cs)).dropWhile (· ≠ 'm') = 'm' :: cs := by
    have hpos : ∀ c ∈ '[' :: body, decide (c ≠ 'm') = true := by
      intro c hc
      refine decide_eq_true ?_
      rintro rfl
      simp [hbody] at hc
    rw [List.append_assoc, ← List.cons_append, List.dropWhile_append_of_pos hpos]
    rfl
  rw [List.cons_append, List.cons_append, erased, if_pos (by simp), hskip, List.tail_cons]

/-- What stands in front of the first escape character stays. -/
theorem erased_append {xs : List Char} (h : '\x1b' ∉ xs) (cs : List Char) : erased (xs ++ cs) = xs ++ erased cs := by
  induction xs with
  | nil => rfl
  | cons x xs ih =>
      rw [List.mem_cons, not_or] at h
      rw [List.cons_append, erased, if_neg fun hx => h.1 hx.1.symm, ih h.2, List.cons_append]

theorem Style.isSequence_code (style : Style) : IsSequence style.code.toList := by
  cases style with
  | error => exact ⟨['1', ';', '3', '1'], by decide, rfl⟩
  | help => exact ⟨['1', ';', '3', '2'], by decide, rfl⟩
  | bold => exact ⟨['1'], by decide, rfl⟩
  | aside => exact ⟨['1', ';', '3', '4'], by decide, rfl⟩

theorem Style.isSequence_reset : IsSequence Style.reset.toList := ⟨['0'], by decide, rfl⟩

/-! ### Pieces without escape characters -/

/-- No piece has an escape character in its text. -/
def Clean (pieces : List Piece) : Prop := ∀ p ∈ pieces, '\x1b' ∉ p.text.toList

section
variable {pieces pieces' : List Piece} {p : Piece} {text : String} {n : Nat}

@[simp] theorem clean_nil : Clean [] := nofun

@[simp] theorem clean_cons : Clean (p :: pieces) ↔ '\x1b' ∉ p.text.toList ∧ Clean pieces := List.forall_mem_cons

@[simp] theorem clean_append : Clean (pieces ++ pieces') ↔ Clean pieces ∧ Clean pieces' := List.forall_mem_append

@[simp] theorem clean_flatMap {α : Type} {xs : List α} {f : α → List Piece} :
    Clean (xs.flatMap f) ↔ ∀ x ∈ xs, Clean (f x) := by
  simp only [Clean, List.mem_flatMap]
  exact ⟨fun h x hx p hp => h p ⟨x, hx, hp⟩, fun h p ⟨x, hx, hp⟩ => h x hx p hp⟩

/-- With its escape sequences erased a piece reads as its text, whatever stands behind it. -/
theorem erased_paint_append (h : '\x1b' ∉ p.text.toList) (colors : Bool) (cs : List Char) :
    erased ((p.paint colors).toList ++ cs) = p.text.toList ++ erased cs := by
  unfold Piece.paint
  cases p.style with
  | none => exact erased_append h cs
  | some style =>
      cases colors with
      | false => exact erased_append h cs
      | true =>
          simp only [if_true, String.toList_append, List.append_assoc]
          rw [style.isSequence_code.erased_append, erased_append h, Style.isSequence_reset.erased_append]

/-- With the escape sequences erased a drawing reads as one without colours. -/
theorem Clean.erased_paint (h : Clean pieces) (colors : Bool) :
    erased (paint colors pieces).toList = (paint false pieces).toList := by
  rw [toList_paint, paint, String.toList_join, List.flatMap_map]
  induction pieces with
  | nil => rw [List.flatMap_nil, List.flatMap_nil, erased]
  | cons p pieces ih =>
      rw [clean_cons] at h
      rw [List.flatMap_cons, List.flatMap_cons, erased_paint_append h.1, ih h.2]

end

/-! ### What a drawing is made of -/

section
variable {n width line : Nat} {l : Label} {s : Span}

@[simp] theorem escape_notMem_toDigits : '\x1b' ∉ Nat.toDigits 10 n := by
  intro h
  cases Nat.isDigit_of_mem_toDigits (by decide) (by decide) h

@[simp] theorem escape_notMem_blanks : '\x1b' ∉ (blanks n).toList := by simp [blanks]

@[simp] theorem escape_notMem_padded : '\x1b' ∉ (padded width n).toList := by simp [padded, toString]

@[simp] theorem escape_notMem_indent (before : List Char) : '\x1b' ∉ (indent before).toList := by
  simp only [indent, String.toList_ofList, List.mem_map, not_exists, not_and]
  intro c _
  split <;> decide

@[simp] theorem escape_notMem_code (c : Code) : '\x1b' ∉ c.render.toList := by
  have hall : ∀ c ∈ Code.all, '\x1b' ∉ c.render.toList := by decide
  exact hall c c.mem_all

@[simp] theorem escape_notMem_span : '\x1b' ∉ s.render.toList := by
  unfold Span.render Pos.render
  split <;> simp [toString]

@[simp] theorem clean_gutter : Clean (gutter width) := by simp [gutter, plain, styled, toString]

@[simp] theorem clean_sourceLine {text : String} : Clean (sourceLine width line text) ↔ '\x1b' ∉ text.toList := by
  simp [sourceLine, plain, styled, toString]

theorem clean_underline (hl : '\x1b' ∉ l.message.toList) (text : String) (first last : Nat) (closes : Bool) :
    Clean (underline width l text first last closes) := by
  have hmark : '\x1b' ≠ if l.primary then '^' else '-' := by split <;> decide
  have hmessage : Clean (if closes && !l.message.isEmpty then [plain " ", styled l.style l.message] else []) := by
    split <;> simp [plain, styled, hl]
  simp only [underline, clean_append, hmessage]
  simp [plain, styled, toString, hmark]

end

/-- No text of a diagnostic, and no line of the log that it is drawn against, holds an escape character. -/
structure Unescaped (d : Diagnostic) (log : Log) : Prop where
  message : '\x1b' ∉ d.message.toList
  labels : ∀ l ∈ d.labels, '\x1b' ∉ l.message.toList
  notes : ∀ n ∈ d.notes, '\x1b' ∉ n.toList
  hints : ∀ h ∈ d.hints, '\x1b' ∉ h.toList
  lines : ∀ line ∈ log.lines.toList, '\x1b' ∉ line.toList

namespace Unescaped

variable {log : Log} {d : Diagnostic} {l : Label}

theorem labelLines (h : d.Unescaped log) (hl : l ∈ d.labels) (width line count : Nat) :
    Clean (labelLines width l log line count) := by
  simp only [Diagnostic.labelLines, clean_flatMap, labelLine, clean_append, clean_sourceLine]
  rintro ⟨text, i⟩ hmem
  have hline : text ∈ log.lines.toList :=
    List.mem_of_mem_drop (List.mem_of_mem_take (List.fst_mem_of_mem_zipIdx hmem))
  exact ⟨h.lines text hline, clean_underline (h.labels l hl) text _ _ _⟩

theorem snippet (h : d.Unescaped log) (hl : l ∈ d.labels) (width : Nat) : Clean (snippet width log l) := by
  have hlines := h.labelLines hl width
  unfold Diagnostic.snippet
  simp only
  split
  · simp [plain, styled, toString, h.labels l hl]
  · split
    · split <;> simp [plain, toString, hlines]
    · exact hlines _ _

theorem draw (h : d.Unescaped log) : Clean (d.draw log) := by
  unfold Diagnostic.draw
  simp only [clean_append]
  refine ⟨⟨⟨⟨⟨?header, ?place⟩, ?snippets⟩, ?notes⟩, ?hints⟩, ?last⟩
  case header => simp [plain, styled, toString, h.message]
  case place => cases d.primarySpan? <;> simp [locator, plain, styled, toString]
  case snippets =>
    split
    · exact clean_nil
    · simpa [plain] using fun l hl => h.snippet hl _
  case notes => simpa [plain, styled, toString] using h.notes
  case hints => simpa [plain, styled, toString] using h.hints
  case last => simp [plain]

end Unescaped

theorem clean_drawSummary (errors : Nat) : Clean (drawSummary errors) := by
  unfold drawSummary
  split <;> simp [plain, styled, toString]

/-- A diagnostic with no escape character in its texts or in the lines of the log: its drawing with colours, once each
escape sequence is erased, is the drawing without colours.  So is the line that closes a failed run. -/
theorem erased_draw {log : Log} {d : Diagnostic} (h : d.Unescaped log) :
    erased (paint true (d.draw log)).toList = (paint false (d.draw log)).toList ∧
    ∀ errors, erased (paint true (drawSummary errors)).toList = (paint false (drawSummary errors)).toList :=
  ⟨h.draw.erased_paint true, fun errors => (clean_drawSummary errors).erased_paint true⟩

/-- An open comment inside another one: a tab in front of the marks, two labels and a hint. -/
theorem erased_draw_ofOpenComments :
    (LexError.unterminatedComment ⟨1, 2⟩ [⟨0, 1⟩]).diagnostic.Unescaped ⟨#["\t/* a", "b /* c"]⟩ ∧
    erased (paint true ((LexError.unterminatedComment ⟨1, 2⟩ [⟨0, 1⟩]).diagnostic.draw ⟨#["\t/* a", "b /* c"]⟩)).toList =
      (paint false ((LexError.unterminatedComment ⟨1, 2⟩ [⟨0, 1⟩]).diagnostic.draw ⟨#["\t/* a", "b /* c"]⟩)).toList := by
  have h : (LexError.unterminatedComment ⟨1, 2⟩ [⟨0, 1⟩]).diagnostic.Unescaped ⟨#["\t/* a", "b /* c"]⟩ :=
    ⟨by decide +kernel, by decide +kernel, by decide +kernel, by decide +kernel, by decide +kernel⟩
  exact ⟨h, (erased_draw h).1⟩

end SoundLang.Diagnostic
