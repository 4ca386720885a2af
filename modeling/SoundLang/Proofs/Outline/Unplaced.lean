import SoundLang.Tree.Outline

/-! # Trees without the places of names

A name that a tree declares or applies has a place of its own, which no outline tells.  `Item.unplaced` is the item
without these places, and has the same outline (`Item.outline_unplaced`). -/

namespace SoundLang

open Outline

def Name.unplaced (n : Name Span) : Name Span := ⟨n.text, default⟩

mutual

def TypeExpr.unplaced : TypeExpr Span → TypeExpr Span
  | .named span name => .named span name
  | .applied span name args => .applied span name.unplaced (TypeExpr.unplacedAll args)
  | .tuple span elems => .tuple span (TypeExpr.unplacedAll elems)

def TypeExpr.unplacedAll : List (TypeExpr Span) → List (TypeExpr Span)
  | [] => []
  | t :: types => t.unplaced :: TypeExpr.unplacedAll types

end

mutual

def Stmt.unplaced : Stmt Span → Stmt Span
  | .expr span value => .expr span value
  | .decl span name type value => .decl span name.unplaced (type.map TypeExpr.unplaced) value
  | .breakStmt span => .breakStmt span
  | .continueStmt span => .continueStmt span
  | .returnStmt span value => .returnStmt span value
  | .block span stmts => .block span (Stmt.unplacedAll stmts)
  | .whileStmt span cond body => .whileStmt span cond body.unplaced
  | .ifThen span cond yes => .ifThen span cond yes.unplaced
  | .ifElse span cond yes no => .ifElse span cond yes.unplaced no.unplaced

def Stmt.unplacedAll : List (Stmt Span) → List (Stmt Span)
  | [] => []
  | s :: stmts => s.unplaced :: Stmt.unplacedAll stmts

end

def Param.unplaced (p : Param Span) : Param Span := ⟨p.note, p.name.unplaced, p.type.map TypeExpr.unplaced⟩

def Body.unplaced : Body Span → Body Span
  | .value e => .value e
  | .block stmts => .block (Stmt.unplacedAll stmts)

def Definition.unplaced (d : Definition Span) : Definition Span :=
  ⟨d.note, d.name.unplaced, d.params.map Param.unplaced, d.result.map TypeExpr.unplaced, d.body.unplaced⟩

/-- The item without the places of the names that it declares or applies. -/
def Item.unplaced : Item Span → Item Span
  | .stmt s => .stmt s.unplaced
  | .definition d => .definition d.unplaced

theorem TypeExpr.unplacedAll_eq (types : List (TypeExpr Span)) : unplacedAll types = types.map unplaced := by
  induction types with
  | nil => rfl
  | cons t types ih => rw [unplacedAll, ih, List.map_cons]

theorem Stmt.unplacedAll_eq (stmts : List (Stmt Span)) : unplacedAll stmts = stmts.map unplaced := by
  induction stmts with
  | nil => rfl
  | cons s stmts ih => rw [unplacedAll, ih, List.map_cons]

/-! ### Outlines do not tell the places of names -/

mutual

theorem TypeExpr.outline_unplaced : ∀ (t : TypeExpr Span) (d : Nat), t.unplaced.outline d = t.outline d
  | .named .., _ => rfl
  | .applied span name args, d => by
      rw [unplaced, outline, outline, outlineAll_unplaced args (d + 1)]
      rfl
  | .tuple span elems, d => by
      rw [unplaced, outline, outline, outlineAll_unplaced elems (d + 1), unplacedAll_eq, List.length_map]

theorem TypeExpr.outlineAll_unplaced : ∀ (types : List (TypeExpr Span)) (d : Nat),
    outlineAll d (unplacedAll types) = outlineAll d types
  | [], _ => rfl
  | t :: types, d => by
      rw [unplacedAll, outlineAll, outlineAll, outline_unplaced t d, outlineAll_unplaced types d]

end

theorem TypeExpr.outlineOf_unplaced (t : Option (TypeExpr Span)) (d : Nat) :
    outlineOf d (t.map unplaced) = outlineOf d t := by
  cases t with
  | none => rfl
  | some t => exact t.outline_unplaced d

mutual

theorem Stmt.outline_unplaced : ∀ (s : Stmt Span) (d : Nat), s.unplaced.outline d = s.outline d
  | .expr .., _ | .breakStmt _, _ | .continueStmt _, _ | .returnStmt .., _ => rfl
  | .decl span name type value, d => by
      rw [unplaced, outline, outline, TypeExpr.outlineOf_unplaced type (d + 1)]
      rfl
  | .block span stmts, d => by rw [unplaced, outline, outline, outlineAll_unplaced stmts (d + 1)]
  | .whileStmt span cond body, d => by rw [unplaced, outline, outline, outline_unplaced body (d + 1)]
  | .ifThen span cond yes, d => by rw [unplaced, outline, outline, outline_unplaced yes (d + 1)]
  | .ifElse span cond yes no, d => by
      rw [unplaced, outline, outline, outline_unplaced yes (d + 1), outline_unplaced no (d + 1)]

theorem Stmt.outlineAll_unplaced : ∀ (stmts : List (Stmt Span)) (d : Nat),
    outlineAll d (unplacedAll stmts) = outlineAll d stmts
  | [], _ => rfl
  | s :: stmts, d => by
      rw [unplacedAll, outlineAll, outlineAll, outline_unplaced s d, outlineAll_unplaced stmts d]

end

theorem Param.outline_unplaced (p : Param Span) (d : Nat) : p.unplaced.outline d = p.outline d := by
  rw [outline, outline, unplaced, TypeExpr.outlineOf_unplaced p.type (d + 1)]
  rfl

theorem Body.outline_unplaced (b : Body Span) (d : Nat) : b.unplaced.outline d = b.outline d := by
  cases b with
  | value e => rfl
  | block stmts => exact Stmt.outlineAll_unplaced stmts d

/-- The lines of a result that may be left out. -/
def Definition.resultOutline : Option (TypeExpr Span) → Outline
  | some t => ⟨0, "returns:"⟩ :: t.outline 1
  | none => []

theorem Definition.outline_eq (d : Definition Span) : d.outline =
    node 0 d.note s!"definition({d.name.text})" :: ⟨0, s!"params({d.params.length}):"⟩ ::
      (d.params.flatMap (Param.outline 1) ++
        (resultOutline d.result ++ ⟨0, "body:"⟩ :: (d.body.outline 1 ++ [⟨0, "end definition"⟩]))) := by
  simp only [outline, List.cons_append, List.append_assoc]
  rfl

theorem Definition.outline_unplaced (d : Definition Span) : d.unplaced.outline = d.outline := by
  have hresult : resultOutline (d.result.map TypeExpr.unplaced) = resultOutline d.result := by
    cases d.result with
    | none => rfl
    | some t => exact congrArg (⟨0, "returns:"⟩ :: ·) (t.outline_unplaced 1)
  have hparams : (d.params.map Param.unplaced).flatMap (Param.outline 1) = d.params.flatMap (Param.outline 1) := by
    simp only [List.flatMap_map, Param.outline_unplaced]
  rw [outline_eq, outline_eq, unplaced, hresult, hparams, List.length_map, Body.outline_unplaced]
  rfl

/-- The outline of an item does not tell the places of names. -/
theorem Item.outline_unplaced (i : Item Span) : i.unplaced.outline = i.outline := by
  cases i with
  | stmt s => exact s.outline_unplaced 0
  | definition d => exact d.outline_unplaced

end SoundLang
