import SoundLang.Operator

/-! # The tree of a program

A program is a list of items: statements and definitions.  Every node carries an annotation; what the parser
builds is annotated with the span of the node, from the first of its tokens to the last, brackets, keywords and
closing semicolons included. -/

namespace SoundLang

/-- A name where it is declared. -/
structure Name (α : Type) where
  text : String
  note : α
deriving DecidableEq, Repr

/-- A type as written: a name, a name with arguments in square brackets, or a tuple in parentheses. -/
inductive TypeExpr (α : Type) where
  | named (note : α) (name : String)
  | applied (note : α) (name : Name α) (args : List (TypeExpr α))
  | tuple (note : α) (elems : List (TypeExpr α))

/-- An expression.  `group` is an expression in parentheses; every other round list is a tuple. -/
inductive Expr (α : Type) where
  | name (note : α) (text : String)
  | number (note : α) (text : String)
  | string (note : α) (value : String)
  | call (note : α) (callee : Expr α) (args : List (Expr α))
  | unary (note : α) (op : UnaryOp) (operand : Expr α)
  | binary (note : α) (op : BinaryOp) (left right : Expr α)
  | index (note : α) (base index : Expr α)
  | list (note : α) (items : List (Expr α))
  | tuple (note : α) (items : List (Expr α))
  | group (note : α) (inner : Expr α)

/-- A statement.  An expression statement without an expression is a lone semicolon. -/
inductive Stmt (α : Type) where
  | expr (note : α) (value : Option (Expr α))
  | decl (note : α) (name : Name α) (type : Option (TypeExpr α)) (value : Expr α)
  | breakStmt (note : α)
  | continueStmt (note : α)
  | returnStmt (note : α) (value : Option (Expr α))
  | block (note : α) (stmts : List (Stmt α))
  | whileStmt (note : α) (cond : Expr α) (body : Stmt α)
  | ifThen (note : α) (cond : Expr α) (yes : Stmt α)
  | ifElse (note : α) (cond : Expr α) (yes no : Stmt α)

/-- A parameter of a definition. -/
structure Param (α : Type) where
  note : α
  name : Name α
  type : Option (TypeExpr α)

/-- What a definition stands for: the value of an expression, or statements to run. -/
inductive Body (α : Type) where
  | value (value : Expr α)
  | block (stmts : List (Stmt α))

/-- A definition. -/
structure Definition (α : Type) where
  note : α
  name : Name α
  params : List (Param α)
  result : Option (TypeExpr α)
  body : Body α

/-- An item of a program. -/
inductive Item (α : Type) where
  | stmt (stmt : Stmt α)
  | definition (definition : Definition α)

variable {α : Type}

/-- The annotation at the root. -/
def TypeExpr.note : TypeExpr α → α
  | named n _ | applied n .. | tuple n _ => n

/-- The annotation at the root. -/
def Expr.note : Expr α → α
  | name n _ | number n _ | string n _ | call n .. | unary n .. | binary n .. | index n .. | list n _
  | tuple n _ | group n _ => n

/-- The annotation at the root. -/
def Stmt.note : Stmt α → α
  | expr n _ | decl n .. | breakStmt n | continueStmt n | returnStmt n _ | block n _ | whileStmt n .. | ifThen n ..
  | ifElse n .. => n

/-- The annotation at the root. -/
def Item.note : Item α → α
  | stmt s => s.note
  | definition d => d.note

end SoundLang
