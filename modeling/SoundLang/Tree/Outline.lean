import SoundLang.Source.Position
import SoundLang.Text.Quoted
import SoundLang.Tree

/-! # Outlines

The outline of a tree has one line per node, indented by its depth, with the span and the sort of the node.
Some lines without a span name the parts of a node; statements that hold statements close with a line of their
own.  `Item.outline`, `Stmt.outline` and `Expr.outline` give the lines, `Outline.render` the text. -/

namespace SoundLang

/-- A line of an outline. -/
structure Outline.Line where
  depth : Nat
  text : String
deriving DecidableEq, Repr

/-- The lines of an outline. -/
abbrev Outline := List Outline.Line

namespace Outline

/-- The line of a node. -/
def node (depth : Nat) (span : Span) (text : String) : Line := ⟨depth, s!"{span.render} {text}"⟩

/-- A line, two blanks deep for each level. -/
def Line.render (l : Line) : String :=
  String.ofList (List.replicate (2 * l.depth) ' ') ++ l.text ++ "\n"

def render (o : Outline) : String := String.join (o.map Line.render)

end Outline

open Outline

mutual

def TypeExpr.outline (depth : Nat) : TypeExpr Span → Outline
  | .named span name => [node depth span s!"type({name})"]
  | .applied span name args => node depth span s!"type({name.text})" :: TypeExpr.outlineAll (depth + 1) args
  | .tuple span elems =>
    node depth span s!"tuple type({elems.length})" :: TypeExpr.outlineAll (depth + 1) elems

def TypeExpr.outlineAll (depth : Nat) : List (TypeExpr Span) → Outline
  | [] => []
  | t :: ts => t.outline depth ++ TypeExpr.outlineAll depth ts

end

mutual

def Expr.outline (depth : Nat) : Expr Span → Outline
  | .name span text => [node depth span s!"identifier({text})"]
  | .number span text => [node depth span s!"number({text})"]
  | .string span value => [node depth span s!"string({Text.quote value})"]
  | .call span callee args =>
    node depth span "call" :: callee.outline (depth + 1)
      ++ ⟨depth, s!"args({args.length}):"⟩ :: Expr.outlineAll (depth + 1) args
  | .unary span op operand =>
    node depth span s!"unary operation({op.name})" :: operand.outline (depth + 1)
  | .binary span op left right =>
    node depth span s!"binary operation({op.name})" :: left.outline (depth + 1) ++ right.outline (depth + 1)
  | .index span base i => node depth span "index" :: base.outline (depth + 1) ++ i.outline (depth + 1)
  | .list span items => node depth span s!"list({items.length})" :: Expr.outlineAll (depth + 1) items
  | .tuple span items => node depth span s!"tuple({items.length})" :: Expr.outlineAll (depth + 1) items
  | .group span inner => node depth span "group" :: inner.outline (depth + 1)

def Expr.outlineAll (depth : Nat) : List (Expr Span) → Outline
  | [] => []
  | e :: es => e.outline depth ++ Expr.outlineAll depth es

end

/-- The outline of a type that may be left out. -/
def TypeExpr.outlineOf (depth : Nat) (t : Option (TypeExpr Span)) : Outline :=
  (t.map (TypeExpr.outline depth)).getD []

/-- The outline of an expression that may be left out. -/
def Expr.outlineOf (depth : Nat) (e : Option (Expr Span)) : Outline :=
  (e.map (Expr.outline depth)).getD []

mutual

def Stmt.outline (depth : Nat) : Stmt Span → Outline
  | .expr span none => [node depth span "expression statement (empty)"]
  | .expr span (some e) => node depth span "expression statement" :: e.outline (depth + 1)
  | .decl span name type value =>
    node depth span s!"declaration({name.text})" :: TypeExpr.outlineOf (depth + 1) type
      ++ value.outline (depth + 1)
  | .breakStmt span => [node depth span "break"]
  | .continueStmt span => [node depth span "continue"]
  | .returnStmt span value => node depth span "return" :: Expr.outlineOf (depth + 1) value
  | .block span stmts => node depth span "block" :: Stmt.outlineAll (depth + 1) stmts ++ [⟨depth, "end block"⟩]
  | .whileStmt span cond body =>
    node depth span "while" :: cond.outline (depth + 1) ++ ⟨depth, "do"⟩ :: body.outline (depth + 1)
      ++ [⟨depth, "end while"⟩]
  | .ifThen span cond yes =>
    node depth span "if" :: cond.outline (depth + 1) ++ ⟨depth, "then"⟩ :: yes.outline (depth + 1)
      ++ [⟨depth, "end if"⟩]
  | .ifElse span cond yes no =>
    node depth span "if" :: cond.outline (depth + 1) ++ ⟨depth, "then"⟩ :: yes.outline (depth + 1)
      ++ ⟨depth, "else"⟩ :: no.outline (depth + 1) ++ [⟨depth, "end if"⟩]

def Stmt.outlineAll (depth : Nat) : List (Stmt Span) → Outline
  | [] => []
  | s :: ss => s.outline depth ++ Stmt.outlineAll depth ss

end

/-- A parameter, with its type one level deeper. -/
def Param.outline (depth : Nat) (p : Param Span) : Outline :=
  node depth p.note s!"parameter({p.name.text})" :: TypeExpr.outlineOf (depth + 1) p.type

def Body.outline (depth : Nat) : Body Span → Outline
  | .value e => e.outline depth
  | .block stmts => Stmt.outlineAll depth stmts

def Definition.outline (d : Definition Span) : Outline :=
  let result := match d.result with
    | some t => ⟨0, "returns:"⟩ :: t.outline 1
    | none => []
  node 0 d.note s!"definition({d.name.text})" :: ⟨0, s!"params({d.params.length}):"⟩ ::
    d.params.flatMap (Param.outline 1) ++ result ++ ⟨0, "body:"⟩ :: d.body.outline 1
      ++ [⟨0, "end definition"⟩]

def Item.outline : Item Span → Outline
  | .stmt s => s.outline 0
  | .definition d => d.outline

end SoundLang
