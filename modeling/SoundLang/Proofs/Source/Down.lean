import SoundLang.Parse.Grammar
import SoundLang.Proofs.Parse.Plain

/-! # Further down in a source

A text that stands behind `k` other lines has all its places `k` lines further down.  `Placed.down k` moves whatever
names places: positions and spans, tokens and errors, trees and their parts.  It commutes with all that is built of
places: spans are joined (`down_join`), the root of a tree keeps its span (`Expr.note_down`), and what is not a place
stays as it is. -/

namespace SoundLang

/-- Something that names places of a source. -/
class Placed (α : Type) where
  /-- The same `k` lines further down. -/
  down (k : Nat) : α → α

open Placed (down)

/-! ### Data without places, and containers -/

instance : Placed Bool := ⟨fun _ b => b⟩

instance : Placed BinaryOp := ⟨fun _ op => op⟩

section containers
variable {α β : Type} [Placed α] [Placed β] (k : Nat)

instance : Placed (Option α) := ⟨fun k => Option.map (down k)⟩

instance : Placed (List α) := ⟨fun k => List.map (down k)⟩

instance : Placed (α × β) := ⟨fun k p => (down k p.1, down k p.2)⟩

instance : Placed (Except α β) := ⟨fun k r =>
  match r with
  | .ok b => .ok (down k b)
  | .error a => .error (down k a)⟩

@[simp] theorem down_none : down k (none : Option α) = none := rfl

@[simp] theorem down_some (a : α) : down k (some a) = some (down k a) := rfl

@[simp] theorem down_nil : down k ([] : List α) = [] := rfl

@[simp] theorem down_cons (a : α) (as : List α) : down k (a :: as) = down k a :: down k as := rfl

@[simp] theorem down_append (as bs : List α) : down k (as ++ bs) = down k as ++ down k bs := List.map_append

@[simp] theorem length_down (as : List α) : (down k as).length = as.length := List.length_map _

theorem isEmpty_down (as : List α) : (down k as).isEmpty = as.isEmpty := List.isEmpty_map

@[simp] theorem down_pair (a : α) (b : β) : down k (a, b) = (down k a, down k b) := rfl

@[simp] theorem down_ok (b : β) : down k (.ok b : Except α β) = .ok (down k b) := rfl

@[simp] theorem down_error (a : α) : down k (.error a : Except α β) = .error (down k a) := rfl

end containers

/-! ### Places, tokens and errors -/

instance : Placed Pos := ⟨fun k p => ⟨p.line + k, p.byte⟩⟩

instance : Placed Span := ⟨fun k s => ⟨down k s.start, down k s.stop⟩⟩

instance : Placed Token := ⟨fun k t => ⟨t.kind, down k t.span⟩⟩

instance : Placed LexError := ⟨fun k e =>
  match e with
  | .unexpectedCharacter c span => .unexpectedCharacter c (down k span)
  | .unterminatedComment start enclosing => .unterminatedComment (down k start) (down k enclosing)
  | .unterminatedString start => .unterminatedString (down k start)
  | .incompleteExponent text span => .incompleteExponent text (down k span)
  | .emptyRadix text span => .emptyRadix text (down k span)
  | .unreadable message => .unreadable message⟩

instance : Placed ParseError := ⟨fun k e =>
  match e with
  | .lexical e => .lexical (down k e)
  | .tokenAfterUnary op operator found => .tokenAfterUnary op (down k operator) (down k found)
  | .endAfterUnary op operator => .endAfterUnary op (down k operator)
  | .tokenAfterBinary op operator found => .tokenAfterBinary op (down k operator) (down k found)
  | .endAfterBinary op operator => .endAfterBinary op (down k operator)
  | .unclosedBracket b opening => .unclosedBracket b (down k opening)
  | .mismatchedBracket b opening closing => .mismatchedBracket b (down k opening) (down k closing)
  | .missingSeparator b opening found => .missingSeparator b (down k opening) (down k found)
  | .emptyItem comma => .emptyItem (down k comma)
  | .emptyIndex span => .emptyIndex (down k span)
  | .multipleIndices span count => .multipleIndices (down k span) count
  | .missingSemicolon expr found => .missingSemicolon (down k expr) (down k found)
  | .endAfterExpression expr => .endAfterExpression (down k expr)
  | .noStatement found => .noStatement (down k found)
  | .unclosedBlock opening => .unclosedBlock (down k opening)
  | .unexpected context keyword expected found => .unexpected context (down k keyword) expected (down k found)
  | .cutOff context keyword expected => .cutOff context (down k keyword) expected
  | .noItem b opening found => .noItem b (down k opening) (down k found)⟩

section
variable (k : Nat)

@[simp] theorem down_join (first last : Span) : (down k first).join (down k last) = down k (first.join last) := rfl

@[simp] theorem Token.kind_down (t : Token) : (down k t).kind = t.kind := rfl

@[simp] theorem Token.span_down (t : Token) : (down k t).span = down k t.span := rfl

theorem Entry.front_down (es : List Entry) : Entry.front (down k es) = down k (Entry.front es) := by
  match es with
  | [] | .ok _ :: _ | .error _ :: _ => rfl

end

/-! ### Trees -/

instance : Placed (Name Span) := ⟨fun k => Name.map (down k)⟩

instance : Placed (TypeExpr Span) := ⟨fun k => TypeExpr.map (down k)⟩

instance : Placed (Expr Span) := ⟨fun k => Expr.map (down k)⟩

instance : Placed (Stmt Span) := ⟨fun k => Stmt.map (down k)⟩

instance : Placed (Param Span) := ⟨fun k => Param.map (down k)⟩

instance : Placed (Body Span) := ⟨fun k => Body.map (down k)⟩

instance : Placed (Definition Span) := ⟨fun k => Definition.map (down k)⟩

instance : Placed (Item Span) := ⟨fun k => Item.map (down k)⟩

section
variable {α β : Type} (f : α → β)

theorem TypeExpr.mapAll_eq_map (types : List (TypeExpr α)) : TypeExpr.mapAll f types = types.map (TypeExpr.map f) := by
  induction types with
  | nil => rfl
  | cons t types ih => rw [TypeExpr.mapAll, ih, List.map_cons]

theorem Expr.mapAll_eq_map (es : List (Expr α)) : Expr.mapAll f es = es.map (Expr.map f) := by
  induction es with
  | nil => rfl
  | cons e es ih => rw [Expr.mapAll, ih, List.map_cons]

theorem Stmt.mapAll_eq_map (stmts : List (Stmt α)) : Stmt.mapAll f stmts = stmts.map (Stmt.map f) := by
  induction stmts with
  | nil => rfl
  | cons s stmts ih => rw [Stmt.mapAll, ih, List.map_cons]

end

section
variable (k : Nat)

@[simp] theorem TypeExpr.note_down (t : TypeExpr Span) : (down k t).note = down k t.note := by
  cases t <;> rfl

@[simp] theorem Expr.note_down (e : Expr Span) : (down k e).note = down k e.note := by
  cases e <;> rfl

@[simp] theorem Stmt.note_down (s : Stmt Span) : (down k s).note = down k s.note := by
  cases s <;> rfl

/-! ### Parts of the grammar -/

theorem TypeExpr.down_applied (n : Span) (name : Name Span) (args : List (TypeExpr Span)) :
    down k (TypeExpr.applied n name args) = .applied (down k n) (down k name) (down k args) :=
  congrArg _ (TypeExpr.mapAll_eq_map _ args)

theorem TypeExpr.down_tuple (n : Span) (elems : List (TypeExpr Span)) :
    down k (TypeExpr.tuple n elems) = .tuple (down k n) (down k elems) :=
  congrArg _ (TypeExpr.mapAll_eq_map _ elems)

theorem Expr.down_call (n : Span) (callee : Expr Span) (args : List (Expr Span)) :
    down k (Expr.call n callee args) = .call (down k n) (down k callee) (down k args) :=
  congrArg _ (Expr.mapAll_eq_map _ args)

theorem Expr.down_list (n : Span) (items : List (Expr Span)) :
    down k (Expr.list n items) = .list (down k n) (down k items) :=
  congrArg _ (Expr.mapAll_eq_map _ items)

theorem Expr.down_tuple (n : Span) (items : List (Expr Span)) :
    down k (Expr.tuple n items) = .tuple (down k n) (down k items) :=
  congrArg _ (Expr.mapAll_eq_map _ items)

theorem Stmt.down_block (n : Span) (stmts : List (Stmt Span)) :
    down k (Stmt.block n stmts) = .block (down k n) (down k stmts) :=
  congrArg _ (Stmt.mapAll_eq_map _ stmts)

theorem Body.down_block (stmts : List (Stmt Span)) : down k (Body.block stmts) = .block (down k stmts) :=
  congrArg _ (Stmt.mapAll_eq_map _ stmts)

end

end SoundLang
