import SoundLang.Parse.Grammar

/-! # The phrases of the language

The grammar, as relations between lists of tokens and trees.  A tree is annotated with whatever `note` makes of
the tokens of a node, so one grammar serves for plain trees and for trees with spans.

Expressions come in layers: `Layer 0` are the factors, `Layer n` for `n` from 1 to 10 adds the operators of level
`n`, which group to the left, and `Layer 11` those of assignment, which group to the right.  A prefix operator
applies to a whole factor, with its suffixes.  An `else` belongs to the nearest `if` that can take it: the statement
before it must not end in an `if` without `else` (`Stmt.endsInIf`). -/

namespace SoundLang

/-- The last part of the statement is an `if` without `else`. -/
def Stmt.endsInIf {α : Type} : Stmt α → Bool
  | .ifThen .. => true
  | .ifElse _ _ _ no => no.endsInIf
  | .whileStmt _ _ body => body.endsInIf
  | _ => false

/-- The last part of the item is an `if` without `else`. -/
def Item.endsInIf {α : Type} : Item α → Bool
  | .stmt s => s.endsInIf
  | .definition _ => false

namespace Phrase

variable {α : Type} (note : List Token → α)

/-! ### Types -/

mutual

/-- A name, a name with arguments, or a tuple of types. -/
inductive IsType : List Token → TypeExpr α → Prop
  | named {n : Token} {text : String} (hn : n.kind.name? = some text) :
      IsType [n] (.named (note [n]) text)
  | applied {n o c : Token} {text : String} {ts : List Token} {args : List (TypeExpr α)}
      (hn : n.kind.name? = some text) (ho : o.kind = .symbol .lbracket) (ht : Types ts args)
      (hc : c.kind = .symbol .rbracket) :
      IsType (n :: o :: (ts ++ [c])) (.applied (note (n :: o :: (ts ++ [c]))) ⟨text, note [n]⟩ args)
  | tuple {o c : Token} {ts : List Token} {elems : List (TypeExpr α)}
      (ho : o.kind = .symbol .lparen) (ht : Types ts elems) (hc : c.kind = .symbol .rparen) :
      IsType (o :: (ts ++ [c])) (.tuple (note (o :: (ts ++ [c]))) elems)

/-- Types between brackets. -/
inductive Types : List Token → List (TypeExpr α) → Prop
  | none : Types [] []
  | some {ts : List Token} {types : List (TypeExpr α)} (h : TypeSeq ts types) : Types ts types

/-- Types with commas between them, one at least. -/
inductive TypeSeq : List Token → List (TypeExpr α) → Prop
  | one {ts : List Token} {t : TypeExpr α} (h : IsType ts t) : TypeSeq ts [t]
  | more {ts us : List Token} {c : Token} {t : TypeExpr α} {types : List (TypeExpr α)}
      (h : IsType ts t) (hc : c.kind = .symbol .comma) (hs : TypeSeq us types) :
      TypeSeq (ts ++ c :: us) (t :: types)

end

/-- A colon and a type, or neither. -/
inductive Annotation : List Token → Option (TypeExpr α) → Prop
  | none : Annotation [] none
  | some {c : Token} {ts : List Token} {t : TypeExpr α} (hc : c.kind = .symbol .colon)
      (h : IsType note ts t) : Annotation (c :: ts) (some t)

/-! ### Expressions -/

mutual

/-- A leaf or a list in brackets, with suffixes. -/
inductive Operand : List Token → Expr α → Prop
  | name {t : Token} {text : String} (ht : t.kind.name? = some text) :
      Operand [t] (.name (note [t]) text)
  | number {t : Token} {text : String} (ht : t.kind = .number text) :
      Operand [t] (.number (note [t]) text)
  | string {t : Token} {value : String} (ht : t.kind = .string value) :
      Operand [t] (.string (note [t]) value)
  | group {o c : Token} {ts : List Token} {e : Expr α} (ho : o.kind = .symbol .lparen)
      (h : Items ts [e] false) (hc : c.kind = .symbol .rparen) :
      Operand (o :: (ts ++ [c])) (.group (note (o :: (ts ++ [c]))) e)
  | tuple {o c : Token} {ts : List Token} {es : List (Expr α)} {trailing : Bool}
      (ho : o.kind = .symbol .lparen) (h : Items ts es trailing) (hc : c.kind = .symbol .rparen)
      (hne : es.length ≠ 1 ∨ trailing = true) :
      Operand (o :: (ts ++ [c])) (.tuple (note (o :: (ts ++ [c]))) es)
  | list {o c : Token} {ts : List Token} {es : List (Expr α)} {trailing : Bool}
      (ho : o.kind = .symbol .lbracket) (h : Items ts es trailing)
      (hc : c.kind = .symbol .rbracket) :
      Operand (o :: (ts ++ [c])) (.list (note (o :: (ts ++ [c]))) es)
  | suffix {t : Token} {ts : List Token} {e : Expr α} {op : UnaryOp} (h : Operand ts e)
      (ht : t.kind.suffixOp? = some op) :
      Operand (ts ++ [t]) (.unary (note (ts ++ [t])) op e)
  | call {o c : Token} {ts us : List Token} {callee : Expr α} {args : List (Expr α)}
      {trailing : Bool} (h : Operand ts callee) (ho : o.kind = .symbol .lparen)
      (ha : Items us args trailing) (hc : c.kind = .symbol .rparen) :
      Operand (ts ++ o :: (us ++ [c])) (.call (note (ts ++ o :: (us ++ [c]))) callee args)
  | index {o c : Token} {ts us : List Token} {base i : Expr α} {trailing : Bool}
      (h : Operand ts base) (ho : o.kind = .symbol .lbracket) (hi : Items us [i] trailing)
      (hc : c.kind = .symbol .rbracket) :
      Operand (ts ++ o :: (us ++ [c])) (.index (note (ts ++ o :: (us ++ [c]))) base i)

/-- Prefix operators and an operand. -/
inductive Factor : List Token → Expr α → Prop
  | operand {ts : List Token} {e : Expr α} (h : Operand ts e) : Factor ts e
  | prefixed {t : Token} {ts : List Token} {e : Expr α} {op : UnaryOp}
      (ht : t.kind.prefixOp? = some op) (h : Factor ts e) :
      Factor (t :: ts) (.unary (note (t :: ts)) op e)

/-- Factors and binary operators of at most a level. -/
inductive Layer : Nat → List Token → Expr α → Prop
  | factor {ts : List Token} {e : Expr α} (h : Factor ts e) : Layer 0 ts e
  | tighter {n : Nat} {ts : List Token} {e : Expr α} (h : Layer n ts e) : Layer (n + 1) ts e
  | left {n : Nat} {ls rs : List Token} {t : Token} {op : BinaryOp} {l r : Expr α}
      (hn : n + 1 < BinaryOp.loosest) (hl : Layer (n + 1) ls l) (ht : t.kind.infixOp? = some op)
      (hop : op.level = n + 1) (hr : Layer n rs r) :
      Layer (n + 1) (ls ++ t :: rs) (.binary (note (ls ++ t :: rs)) op l r)
  | right {n : Nat} {ls rs : List Token} {t : Token} {op : BinaryOp} {l r : Expr α}
      (hn : n + 1 = BinaryOp.loosest) (hl : Layer n ls l) (ht : t.kind.infixOp? = some op)
      (hop : op.level = n + 1) (hr : Layer (n + 1) rs r) :
      Layer (n + 1) (ls ++ t :: rs) (.binary (note (ls ++ t :: rs)) op l r)

/-- Expressions between brackets, and whether a comma follows the last of them. -/
inductive Items : List Token → List (Expr α) → Bool → Prop
  | none : Items [] [] false
  | plain {ts : List Token} {es : List (Expr α)} (h : ItemSeq ts es) : Items ts es false
  | trailing {c : Token} {ts : List Token} {es : List (Expr α)} (h : ItemSeq ts es)
      (hc : c.kind = .symbol .comma) : Items (ts ++ [c]) es true

/-- Expressions with commas between them, one at least. -/
inductive ItemSeq : List Token → List (Expr α) → Prop
  | one {ts : List Token} {e : Expr α} (h : Layer BinaryOp.loosest ts e) : ItemSeq ts [e]
  | more {ts us : List Token} {c : Token} {e : Expr α} {es : List (Expr α)}
      (h : Layer BinaryOp.loosest ts e) (hc : c.kind = .symbol .comma) (hs : ItemSeq us es) :
      ItemSeq (ts ++ c :: us) (e :: es)

end

/-- An expression, assignment included. -/
abbrev IsExpr : List Token → Expr α → Prop := Layer note BinaryOp.loosest

/-! ### Statements -/

/-- A condition in parentheses. -/
inductive Condition : List Token → Expr α → Prop
  | mk {o c : Token} {ts : List Token} {e : Expr α} (ho : o.kind = .symbol .lparen)
      (h : IsExpr note ts e) (hc : c.kind = .symbol .rparen) : Condition (o :: (ts ++ [c])) e

mutual

inductive IsStmt : List Token → Stmt α → Prop
  | empty {s : Token} (hs : s.kind = .symbol .semicolon) : IsStmt [s] (.expr (note [s]) none)
  | expr {s : Token} {ts : List Token} {e : Expr α} (h : IsExpr note ts e)
      (hs : s.kind = .symbol .semicolon) :
      IsStmt (ts ++ [s]) (.expr (note (ts ++ [s])) (some e))
  | decl {k n q s : Token} {text : String} {ts us : List Token} {type : Option (TypeExpr α)}
      {e : Expr α} (hk : k.kind.keyword? = some .letWord) (hn : n.kind.name? = some text)
      (ht : Annotation note ts type) (hq : q.kind = .symbol .eq) (he : IsExpr note us e)
      (hs : s.kind = .symbol .semicolon) :
      IsStmt (k :: n :: (ts ++ q :: (us ++ [s])))
        (.decl (note (k :: n :: (ts ++ q :: (us ++ [s])))) ⟨text, note [n]⟩ type e)
  | breakStmt {k s : Token} (hk : k.kind.keyword? = some .breakWord)
      (hs : s.kind = .symbol .semicolon) : IsStmt [k, s] (.breakStmt (note [k, s]))
  | continueStmt {k s : Token} (hk : k.kind.keyword? = some .continueWord)
      (hs : s.kind = .symbol .semicolon) : IsStmt [k, s] (.continueStmt (note [k, s]))
  | returnNone {k s : Token} (hk : k.kind.keyword? = some .returnWord)
      (hs : s.kind = .symbol .semicolon) : IsStmt [k, s] (.returnStmt (note [k, s]) none)
  | returnSome {k s : Token} {ts : List Token} {e : Expr α}
      (hk : k.kind.keyword? = some .returnWord) (he : IsExpr note ts e)
      (hs : s.kind = .symbol .semicolon) :
      IsStmt (k :: (ts ++ [s])) (.returnStmt (note (k :: (ts ++ [s]))) (some e))
  | block {o c : Token} {ts : List Token} {stmts : List (Stmt α)}
      (ho : o.kind = .symbol .lbrace) (h : Stmts ts stmts) (hc : c.kind = .symbol .rbrace) :
      IsStmt (o :: (ts ++ [c])) (.block (note (o :: (ts ++ [c]))) stmts)
  | whileStmt {k : Token} {cs ts : List Token} {cond : Expr α} {body : Stmt α}
      (hk : k.kind.keyword? = some .whileWord) (hc : Condition note cs cond)
      (hb : IsStmt ts body) :
      IsStmt (k :: (cs ++ ts)) (.whileStmt (note (k :: (cs ++ ts))) cond body)
  | ifThen {k : Token} {cs ts : List Token} {cond : Expr α} {yes : Stmt α}
      (hk : k.kind.keyword? = some .ifWord) (hc : Condition note cs cond) (hy : IsStmt ts yes) :
      IsStmt (k :: (cs ++ ts)) (.ifThen (note (k :: (cs ++ ts))) cond yes)
  | ifElse {k l : Token} {cs ts us : List Token} {cond : Expr α} {yes no : Stmt α}
      (hk : k.kind.keyword? = some .ifWord) (hc : Condition note cs cond) (hy : IsStmt ts yes)
      (hclosed : yes.endsInIf = false) (hl : l.kind.keyword? = some .elseWord)
      (hn : IsStmt us no) :
      IsStmt (k :: (cs ++ (ts ++ l :: us))) (.ifElse (note (k :: (cs ++ (ts ++ l :: us)))) cond yes no)

/-- Statements one after the other. -/
inductive Stmts : List Token → List (Stmt α) → Prop
  | nil : Stmts [] []
  | cons {ts us : List Token} {s : Stmt α} {stmts : List (Stmt α)} (h : IsStmt ts s)
      (hs : Stmts us stmts) : Stmts (ts ++ us) (s :: stmts)

end

/-! ### Items -/

/-- A name and its type, if it has one. -/
inductive IsParam : List Token → Param α → Prop
  | mk {n : Token} {text : String} {ts : List Token} {type : Option (TypeExpr α)}
      (hn : n.kind.name? = some text) (ht : Annotation note ts type) :
      IsParam (n :: ts) ⟨note (n :: ts), ⟨text, note [n]⟩, type⟩

/-- Parameters with commas between them, one at least. -/
inductive ParamSeq : List Token → List (Param α) → Prop
  | one {ts : List Token} {p : Param α} (h : IsParam note ts p) : ParamSeq ts [p]
  | more {ts us : List Token} {c : Token} {p : Param α} {params : List (Param α)}
      (h : IsParam note ts p) (hc : c.kind = .symbol .comma) (hs : ParamSeq us params) :
      ParamSeq (ts ++ c :: us) (p :: params)

/-- Parameters between brackets. -/
inductive Params : List Token → List (Param α) → Prop
  | none : Params [] []
  | some {ts : List Token} {params : List (Param α)} (h : ParamSeq note ts params) : Params ts params

/-- An equals sign, an expression and a semicolon, or statements in braces. -/
inductive IsBody : List Token → Body α → Prop
  | value {q s : Token} {ts : List Token} {e : Expr α} (hq : q.kind = .symbol .eq)
      (h : IsExpr note ts e) (hs : s.kind = .symbol .semicolon) :
      IsBody (q :: (ts ++ [s])) (.value e)
  | block {o c : Token} {ts : List Token} {stmts : List (Stmt α)}
      (ho : o.kind = .symbol .lbrace) (h : Stmts note ts stmts) (hc : c.kind = .symbol .rbrace) :
      IsBody (o :: (ts ++ [c])) (.block stmts)

inductive IsDefinition : List Token → Definition α → Prop
  | mk {k n o c : Token} {text : String} {ps rs bs : List Token} {params : List (Param α)}
      {result : Option (TypeExpr α)} {body : Body α} (hk : k.kind.keyword? = some .defWord)
      (hn : n.kind.name? = some text) (ho : o.kind = .symbol .lparen) (hp : Params note ps params)
      (hc : c.kind = .symbol .rparen) (hr : Annotation note rs result) (hb : IsBody note bs body) :
      IsDefinition (k :: n :: o :: (ps ++ c :: (rs ++ bs)))
        ⟨note (k :: n :: o :: (ps ++ c :: (rs ++ bs))), ⟨text, note [n]⟩, params, result, body⟩

inductive IsItem : List Token → Item α → Prop
  | stmt {ts : List Token} {s : Stmt α} (h : IsStmt note ts s) : IsItem ts (.stmt s)
  | definition {ts : List Token} {d : Definition α} (h : IsDefinition note ts d) :
      IsItem ts (.definition d)

/-- Items one after the other: the sentences of the grammar. -/
inductive Sentence : List Token → List (Item α) → Prop
  | nil : Sentence [] []
  | cons {ts us : List Token} {i : Item α} {items : List (Item α)} (h : IsItem note ts i)
      (hs : Sentence us items) : Sentence (ts ++ us) (i :: items)

end Phrase

end SoundLang
