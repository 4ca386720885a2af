import SoundLang.Parse.Error
import SoundLang.Proofs.Source.Held
import SoundLang.Types.Lowering

/-! # Labels of errors

The diagnostic of an error is primarily about the span of the error, whatever else it points to
(`ParseError.primarySpan?_diagnostic`), and each of its labels has something to say (`ParseError.worded`).  It is sited
in a log that holds the spans of all its labels (`Diagnostic.Sited`). -/

namespace SoundLang

namespace Diagnostic

/-- The log holds all that the labels point to. -/
def Sited (log : Log) (d : Diagnostic) : Prop := ∀ l ∈ d.labels, log.Holds l.span

/-- The text says something, and does not end like a line of marks or a gutter. -/
def isWorded (text : String) : Bool := text.toList.getLast?.any fun c => c ≠ '^' ∧ c ≠ '-' ∧ c ≠ '|'

/-- Every label has a message. -/
def Worded (d : Diagnostic) : Prop := ∀ l ∈ d.labels, isWorded l.message = true

section
variable {log log' : Log} {d : Diagnostic} {s : Span} {text : String}

theorem Sited.mono (h : d.Sited log) (hgrows : log.Grows log') : d.Sited log' := fun l hl => (h l hl).mono hgrows

@[simp] theorem sited_mark : (d.mark s text).Sited log ↔ d.Sited log ∧ log.Holds s := by
  simp [Sited, mark, or_imp, forall_and]

@[simp] theorem sited_relate : (d.relate s text).Sited log ↔ d.Sited log ∧ log.Holds s := by
  simp [Sited, relate, or_imp, forall_and]

@[simp] theorem sited_note : (d.note text).Sited log ↔ d.Sited log := Iff.rfl

@[simp] theorem sited_hint : (d.hint text).Sited log ↔ d.Sited log := Iff.rfl

@[simp] theorem sited_mk (code : Code) (notes hints : List String) :
    Sited log ⟨code, text, [], notes, hints⟩ ↔ True := by
  simp [Sited]

@[simp] theorem worded_mark : (d.mark s text).Worded ↔ d.Worded ∧ isWorded text = true := by
  simp [Worded, mark, or_imp, forall_and]

@[simp] theorem worded_relate : (d.relate s text).Worded ↔ d.Worded ∧ isWorded text = true := by
  simp [Worded, relate, or_imp, forall_and]

@[simp] theorem worded_note : (d.note text).Worded ↔ d.Worded := Iff.rfl

@[simp] theorem worded_hint : (d.hint text).Worded ↔ d.Worded := Iff.rfl

@[simp] theorem worded_mk (code : Code) (notes hints : List String) : Worded ⟨code, text, [], notes, hints⟩ ↔ True := by
  simp [Worded]

@[simp] theorem primarySpan?_mark : (d.mark s text).primarySpan? = d.primarySpan?.or (some s) := by
  rw [primarySpan?, primarySpan?, mark, List.find?_append]
  cases d.labels.find? (·.primary) <;> rfl

@[simp] theorem primarySpan?_relate : (d.relate s text).primarySpan? = d.primarySpan? := by
  simp [primarySpan?, relate, List.find?_append]

@[simp] theorem primarySpan?_note : (d.note text).primarySpan? = d.primarySpan? := rfl

@[simp] theorem primarySpan?_hint : (d.hint text).primarySpan? = d.primarySpan? := rfl

@[simp] theorem primarySpan?_mk (code : Code) (notes hints : List String) :
    primarySpan? ⟨code, text, [], notes, hints⟩ = none := rfl

/-- A text is worded by its end. -/
theorem isWorded_append (before : String) {text : String} (h : isWorded text = true) :
    isWorded (before ++ text) = true := by
  unfold isWorded at *
  cases hlast : text.toList.getLast? with
  | none =>
      rw [hlast] at h
      cases h
  | some c =>
      rw [hlast] at h
      rw [String.toList_append, List.getLast?_append, hlast]
      exact h

end

end Diagnostic

open Diagnostic

/-! ### Lexical errors -/

namespace LexError

theorem labels_foldl_relate (outers : List Pos) (d : Diagnostic) :
    (outers.foldl (fun d outer => d.relate (opener outer) "inside this comment") d).labels =
      d.labels ++ outers.map fun outer => ⟨opener outer, "inside this comment", false⟩ := by
  induction outers generalizing d with
  | nil => simp
  | cons outer outers ih =>
      rw [List.foldl_cons, ih]
      simp [relate]

/-- The comments around an open one are related places. -/
theorem labels_diagnostic (start : Pos) (enclosing : List Pos) :
    (unterminatedComment start enclosing).diagnostic.labels =
      ⟨opener start, "comment opened here is never closed", true⟩ ::
        enclosing.reverse.map fun outer => ⟨opener outer, "inside this comment", false⟩ :=
  labels_foldl_relate _ _

theorem primarySpan?_diagnostic (e : LexError) : e.diagnostic.primarySpan? = e.span? := by
  cases e with
  | unterminatedComment start enclosing => rw [primarySpan?, labels_diagnostic, List.find?_cons_of_pos rfl]; rfl
  | _ => simp [diagnostic, span?]

theorem worded (e : LexError) : e.diagnostic.Worded := by
  cases e with
  | unterminatedComment start enclosing =>
      rw [Worded, labels_diagnostic]
      simp only [List.forall_mem_cons, List.forall_mem_map]
      exact ⟨by decide, fun _ _ => by decide⟩
  | unreadable => simp [diagnostic]
  | emptyRadix text span =>
      simp only [diagnostic, worded_mark, worded_mk, true_and]
      refine isWorded_append _ ?_
      unfold radixDigits
      split
      · decide
      · split <;> decide
  | _ =>
      simp only [diagnostic, worded_mark, worded_hint, worded_note, worded_mk, true_and]
      decide

theorem sited_unterminatedComment {log : Log} {start : Pos} {enclosing : List Pos} :
    (unterminatedComment start enclosing).diagnostic.Sited log ↔ ∀ p ∈ start :: enclosing, log.Holds (opener p) := by
  rw [Sited, labels_diagnostic]
  simp

end LexError

/-! ### Syntax errors -/

theorem Expectation.isWorded_render (e : Expectation) : isWorded e.render = true := by
  cases e with
  | separator b => exact isWorded_append _ (by decide)
  | _ => decide

theorem Construct.isWorded_render (c : Construct) : isWorded c.render = true := by
  cases c <;> decide

namespace ParseError

theorem primarySpan?_diagnostic (e : ParseError) : e.diagnostic.primarySpan? = e.span? := by
  cases e with
  | lexical e => exact e.primarySpan?_diagnostic
  | _ => simp [diagnostic, span?]

theorem worded (e : ParseError) : e.diagnostic.Worded := by
  cases e with
  | lexical e => exact e.worded
  | unexpected context keyword expected found =>
      simp only [diagnostic, worded_mark, worded_relate, worded_mk, true_and]
      exact ⟨isWorded_append _ expected.isWorded_render, isWorded_append _ context.isWorded_render⟩
  | cutOff context keyword expected =>
      simp only [diagnostic, worded_mark, worded_mk, true_and]
      exact isWorded_append _ expected.isWorded_render
  | tokenAfterUnary | tokenAfterBinary | noItem =>
      simp only [diagnostic, worded_mark, worded_relate, worded_mk, true_and]
      exact ⟨by decide, isWorded_append _ (by decide)⟩
  | mismatchedBracket | missingSeparator =>
      simp only [diagnostic, worded_mark, worded_relate, worded_mk, true_and]
      exact ⟨isWorded_append _ (by decide), by decide⟩
  | endAfterUnary | endAfterBinary =>
      simp only [diagnostic, worded_mark, worded_mk, true_and]
      exact isWorded_append _ (by decide)
  | _ =>
      simp only [diagnostic, worded_mark, worded_relate, worded_hint, worded_note, worded_mk, true_and]
      decide

end ParseError

/-! ### Wrong annotations -/

namespace TypeError

theorem primarySpan?_diagnostic (e : TypeError) : e.diagnostic.primarySpan? = some e.span := by
  cases e with
  | unknownType => simp [diagnostic, span]
  | wrongArity name expected found s =>
      by_cases h : expected = 0 <;> simp [diagnostic, span, h]

theorem worded (e : TypeError) : e.diagnostic.Worded := by
  cases e with
  | unknownType =>
      simp only [diagnostic, worded_mark, worded_note, worded_mk, true_and]
      decide
  | wrongArity name expected found s =>
      simp only [diagnostic]
      split
      · simp only [worded_mark, worded_hint, worded_mk, true_and]
        decide
      · simp only [worded_mark, worded_hint, worded_mk, true_and]
        exact isWorded_append _ (by decide)

/-- All labels of a wrong annotation are about its span. -/
theorem sited_iff {log : Log} (e : TypeError) : e.diagnostic.Sited log ↔ log.Holds e.span := by
  cases e with
  | unknownType => simp [diagnostic, span]
  | wrongArity name expected found s =>
      by_cases h : expected = 0 <;> simp [diagnostic, span, h]

end TypeError

end SoundLang
