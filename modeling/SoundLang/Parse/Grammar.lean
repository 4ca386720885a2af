import SoundLang.Lexer
import SoundLang.Parse
import SoundLang.Tree

/-! # The grammar

The recursive rules of the grammar are the values of `Rule`, each with the kind of phrase it reads; what a rule
does is `Rule.body`, a procedure that may follow any rule.  The phrases that no rule refers back to are plain
procedures: `Grammar.item`, `Grammar.statement` and `Grammar.expression` read one item, statement or expression,
and give `none` at the end of the input.

Expressions are read by precedence climbing: `climb level left` reads on behind `left` as long as operators of
at most this level follow. -/

namespace SoundLang

/-- Who asks for an operand, and so what its absence means. -/
inductive Want where
  | unary (op : UnaryOp) (operator : Span)
  | binary (op : BinaryOp) (operator : Span)
  /-- An item of the list that the bracket at the span opens. -/
  | item (bracket : Bracket) (opening : Span)
  | construct (context : Construct) (keyword : Span)
deriving DecidableEq, Repr

namespace Want

/-- The error for a token that starts no operand. -/
def unexpected (found : Token) : Want → ParseError
  | unary op operator => .tokenAfterUnary op operator found
  | binary op operator => .tokenAfterBinary op operator found
  | item b opening => .noItem b opening found
  | construct context keyword => .unexpected context keyword .expression found

/-- The error for the end of the input in place of an operand. -/
def missing : Want → ParseError
  | unary op operator => .endAfterUnary op operator
  | binary op operator => .endAfterBinary op operator
  | item b opening => .unclosedBracket b opening
  | construct context keyword => .cutOff context keyword .expression

end Want

/-- The first token of an expression, by its part in it. -/
inductive Head where
  | leaf (e : Expr Span)
  | unary (op : UnaryOp) (operator : Span)
  | opening (bracket : Bracket) (span : Span)

/-- The expression that a token is by itself. -/
def Token.leaf? (t : Token) : Option (Expr Span) :=
  match t.kind with
  | .word text => if (Keyword.lookup? text).isNone then some (.name t.span text) else none
  | .number text => some (.number t.span text)
  | .string value => some (.string t.span value)
  | .symbol _ => none

/-- The part that a token can play at the start of an expression. -/
def Token.head? (t : Token) : Option Head :=
  match t.kind.prefixOp?, t.kind.opens? with
  | some op, _ => some (.unary op t.span)
  | none, some b => some (.opening b t.span)
  | none, none => t.leaf?.map .leaf

/-- A list in brackets. -/
structure Bracketed where
  items : List (Expr Span)
  /-- A comma follows the last item. -/
  trailing : Bool
  /-- From bracket to bracket. -/
  span : Span

/-- The recursive rules, with what they read. -/
inductive Rule : Type → Type where
  /-- An operand whose first token has been taken, with everything behind it that binds tighter than any
  binary operator. -/
  | factor (head : Head) : Rule (Expr Span)
  /-- Suffix operators, arguments and indices behind a base. -/
  | suffixes (base : Expr Span) : Rule (Expr Span)
  /-- Operators of at most the given level, with their right operands, behind a left operand. -/
  | climb (level : Nat) (left : Expr Span) : Rule (Expr Span)
  /-- The items of a list whose bracket has been taken; `trailing` tells whether a comma was read last. -/
  | items (bracket : Bracket) (opening : Span) (trailing : Bool) : Rule Bracketed
  /-- A type. -/
  | typeExpr (context : Construct) (keyword : Span) : Rule (TypeExpr Span)
  /-- At least one type and what follows up to the closing bracket; also gives the span of that bracket. -/
  | types (bracket : Bracket) (context : Construct) (keyword : Span) : Rule (List (TypeExpr Span) × Span)
  /-- At least one parameter and what follows up to the closing bracket. -/
  | params (keyword : Span) : Rule (List (Param Span))
  /-- A statement, or nothing at the end of the input. -/
  | statement : Rule (Option (Stmt Span))
  /-- Statements up to the closing brace; also gives the span from brace to brace. -/
  | block (opening : Span) : Rule (List (Stmt Span) × Span)

namespace Grammar

open Parse

/-- Takes the first token of an operand. -/
def operand (want : Want) : Parse Rule Head := do
  match ← next with
  | none => fail want.missing
  | some t =>
    match t.head? with
    | some head => return head
    | none => fail (want.unexpected t)

/-- An expression behind its first token. -/
def expressionFrom (head : Head) : Parse Rule (Expr Span) := do
  let left ← call (.factor head)
  call (.climb BinaryOp.loosest left)

/-- An expression that somebody asks for. -/
def wanted (want : Want) : Parse Rule (Expr Span) := do
  let head ← operand want
  expressionFrom head

/-- An expression that stands by itself. -/
def expression : Parse Rule (Option (Expr Span)) := do
  match ← next with
  | none => return none
  | some t =>
    match t.head? with
    | some head => return some (← expressionFrom head)
    | none => fail (.noStatement t)

/-- What a list in brackets is as an operand: square brackets list; round ones group a single item without a
comma behind it, and make a tuple of anything else. -/
def bracketed (b : Bracket) (l : Bracketed) : Expr Span :=
  match b, l.items with
  | .square, items => .list l.span items
  | .round, [e] => if l.trailing then .tuple l.span [e] else .group l.span e
  | .round, items => .tuple l.span items

/-- An operand behind its first token. -/
def factor : Head → Parse Rule (Expr Span)
  | .leaf e => call (.suffixes e)
  | .unary op operator => do
    let head ← operand (.unary op operator)
    let inner ← call (.factor head)
    call (.suffixes (.unary (operator.join inner.note) op inner))
  | .opening b span => do
    let l ← call (.items b span false)
    call (.suffixes (bracketed b l))

/-- What can follow a base. -/
inductive Suffix where
  | op (op : UnaryOp)
  | opening (bracket : Bracket)

/-- The part that a token can play behind a base. -/
def suffix? (t : Token) : Option Suffix :=
  match t.kind.suffixOp?, t.kind.opens? with
  | some op, _ => some (.op op)
  | none, some b => some (.opening b)
  | none, none => none

/-- The suffixes behind a base. -/
def suffixes (base : Expr Span) : Parse Rule (Expr Span) := do
  match ← peek with
  | none => return base
  | some t =>
    match suffix? t with
    | none => return base
    | some (.op op) =>
      let _ ← next
      call (.suffixes (.unary (base.note.join t.span) op base))
    | some (.opening .round) =>
      let _ ← next
      let l ← call (.items .round t.span false)
      call (.suffixes (.call (base.note.join l.span) base l.items))
    | some (.opening .square) =>
      let _ ← next
      let l ← call (.items .square t.span false)
      match l.items with
      | [i] => call (.suffixes (.index (base.note.join l.span) base i))
      | [] => fail (.emptyIndex l.span)
      | items => fail (.multipleIndices l.span items.length)

/-- Takes a binary operator of at most the given level. -/
def operator? (level : Nat) : Parse Rule (Option (BinaryOp × Span)) := do
  let t ← peek
  match t.bind fun t => (t.kind.infixOp?.filter (·.level ≤ level)).map (·, t.span) with
  | some found =>
    let _ ← next
    return some found
  | none => return none

/-- The loosest level in the right operand of an operator. -/
def rightLevel (op : BinaryOp) : Nat := if op.isRightAssoc then op.level else op.level - 1

/-- The operators of at most a level behind a left operand. -/
def climb (level : Nat) (left : Expr Span) : Parse Rule (Expr Span) := do
  match ← operator? level with
  | none => return left
  | some (op, operator) =>
    let head ← operand (.binary op operator)
    let first ← call (.factor head)
    let right ← call (.climb (rightLevel op) first)
    call (.climb level (.binary (left.note.join right.note) op left right))

/-- What follows a list item: a comma, which is taken, or a closing bracket.  Tells whether it was a comma. -/
def itemEnd (b : Bracket) (opening : Span) : Parse Rule Bool := do
  match ← nextIf (·.isSymbol .comma) with
  | some _ => return true
  | none =>
    let t ← peek
    if t.any (·.kind.closes?.isSome) then return false
    else
      match ← next with
      | some found => fail (.missingSeparator b opening found)
      | none => fail (.unclosedBracket b opening)

/-- The items of a list up to its closing bracket. -/
def items (b : Bracket) (opening : Span) (trailing : Bool) : Parse Rule Bracketed := do
  let t ← peek
  match t.bind fun t => t.kind.closes?.map (·, t.span) with
  | some (closing, span) =>
    if closing = b then
      let _ ← next
      return ⟨[], trailing, opening.join span⟩
    else fail (.mismatchedBracket b opening span)
  | none =>
    match ← nextIf (·.isSymbol .comma) with
    | some comma => fail (.emptyItem comma.span)
    | none =>
      let e ← wanted (.item b opening)
      let comma ← itemEnd b opening
      let l ← call (.items b opening comma)
      return { l with items := e :: l.items }

/-- Takes a name. -/
def name (context : Construct) (keyword : Span) : Parse Rule (Name Span) := do
  match ← next with
  | none => fail (.cutOff context keyword .name)
  | some t =>
    match t.kind.name? with
    | some text => return ⟨text, t.span⟩
    | none => fail (.unexpected context keyword .name t)

/-- Types up to a closing bracket, the opening one taken. -/
def typeList (b : Bracket) (context : Construct) (keyword : Span) :
    Parse Rule (List (TypeExpr Span) × Span) := do
  match ← nextIf (·.isSymbol b.closing) with
  | some closing => return ([], closing.span)
  | none => call (.types b context keyword)

/-- A type: a name, with arguments in square brackets or not, or a tuple. -/
def typeExpr (context : Construct) (keyword : Span) : Parse Rule (TypeExpr Span) := do
  match ← next with
  | none => fail (.cutOff context keyword .typeExpr)
  | some t =>
    match t.kind.name? with
    | some text =>
      match ← nextIf (·.isSymbol .lbracket) with
      | none => return .named t.span text
      | some _ =>
        let (args, closing) ← typeList .square context keyword
        return .applied (t.span.join closing) ⟨text, t.span⟩ args
    | none =>
      if t.isSymbol .lparen then
        let (elems, closing) ← typeList .round context keyword
        return .tuple (t.span.join closing) elems
      else fail (.unexpected context keyword .typeExpr t)

/-- The token ends a list item: a comma, or the closing bracket. -/
def isSeparator (b : Bracket) (t : Token) : Bool := t.isSymbol .comma || t.isSymbol b.closing

/-- Types with commas between them, and the closing bracket. -/
def types (b : Bracket) (context : Construct) (keyword : Span) :
    Parse Rule (List (TypeExpr Span) × Span) := do
  let first ← call (.typeExpr context keyword)
  let separator ← expect context keyword (.separator b) (isSeparator b)
  if separator.isSymbol .comma then
    let (rest, closing) ← call (.types b context keyword)
    return (first :: rest, closing)
  else return ([first], separator.span)

/-- A colon and a type, or neither. -/
def annotation (context : Construct) (keyword : Span) : Parse Rule (Option (TypeExpr Span)) := do
  match ← nextIf (·.isSymbol .colon) with
  | none => return none
  | some _ => return some (← call (.typeExpr context keyword))

/-- Takes the given symbol. -/
def symbol (context : Construct) (keyword : Span) (expected : Expectation) (s : Symbol) :
    Parse Rule Token :=
  expect context keyword expected (·.isSymbol s)

/-- A condition in parentheses. -/
def condition (context : Construct) (keyword : Span) : Parse Rule (Expr Span) := do
  let _ ← symbol context keyword .openParen .lparen
  let cond ← wanted (.construct context keyword)
  let _ ← symbol context keyword .closeParen .rparen
  return cond

/-- The statement that a condition governs. -/
def governed (context : Construct) (keyword : Span) : Parse Rule (Stmt Span) := do
  match ← call .statement with
  | some s => return s
  | none => fail (.cutOff context keyword .statement)

/-- An `if` behind its keyword; an `else` belongs to the nearest `if`. -/
def ifStatement (keyword : Span) : Parse Rule (Stmt Span) := do
  let cond ← condition .ifStatement keyword
  let yes ← governed .ifStatement keyword
  match ← nextIf (·.isKeyword .elseWord) with
  | none => return .ifThen (keyword.join yes.note) cond yes
  | some _ =>
    let no ← governed .ifStatement keyword
    return .ifElse (keyword.join no.note) cond yes no

/-- A `while` behind its keyword. -/
def whileStatement (keyword : Span) : Parse Rule (Stmt Span) := do
  let cond ← condition .whileLoop keyword
  let body ← governed .whileLoop keyword
  return .whileStmt (keyword.join body.note) cond body

/-- A `return` behind its keyword. -/
def returnStatement (keyword : Span) : Parse Rule (Stmt Span) := do
  match ← nextIf (·.isSymbol .semicolon) with
  | some semi => return .returnStmt (keyword.join semi.span) none
  | none =>
    let value ← wanted (.construct .returnStatement keyword)
    let semi ← symbol .returnStatement keyword .semicolon .semicolon
    return .returnStmt (keyword.join semi.span) (some value)

/-- A `let` behind its keyword. -/
def letDeclaration (keyword : Span) : Parse Rule (Stmt Span) := do
  let name ← name .letDeclaration keyword
  let type ← annotation .letDeclaration keyword
  let _ ← symbol .letDeclaration keyword .assign .eq
  let value ← wanted (.construct .letDeclaration keyword)
  let semi ← symbol .letDeclaration keyword .semicolon .semicolon
  return .decl (keyword.join semi.span) name type value

/-- An expression statement behind its first token. -/
def expressionStatement (head : Head) : Parse Rule (Stmt Span) := do
  let e ← expressionFrom head
  match ← next with
  | none => fail (.endAfterExpression e.note)
  | some t =>
    if t.isSymbol .semicolon then return .expr (e.note.join t.span) (some e)
    else fail (.missingSemicolon e.note t)

/-- A statement behind its first token. -/
def statementFrom (t : Token) : Parse Rule (Stmt Span) := do
  match t.kind.keyword? with
  | some .ifWord => ifStatement t.span
  | some .whileWord => whileStatement t.span
  | some .breakWord =>
    let semi ← symbol .breakStatement t.span .semicolon .semicolon
    return .breakStmt (t.span.join semi.span)
  | some .continueWord =>
    let semi ← symbol .continueStatement t.span .semicolon .semicolon
    return .continueStmt (t.span.join semi.span)
  | some .returnWord => returnStatement t.span
  | some .letWord => letDeclaration t.span
  | some .elseWord | some .defWord => fail (.noStatement t)
  | none =>
    if t.isSymbol .semicolon then return .expr t.span none
    else if t.isSymbol .lbrace then
      let (stmts, span) ← call (.block t.span)
      return .block span stmts
    else
      match t.head? with
      | some head => expressionStatement head
      | none => fail (.noStatement t)

/-- A statement, or nothing at the end of the input. -/
def statement : Parse Rule (Option (Stmt Span)) := do
  match ← next with
  | none => return none
  | some t => return some (← statementFrom t)

/-- Statements up to the closing brace. -/
def block (opening : Span) : Parse Rule (List (Stmt Span) × Span) := do
  match ← nextIf (·.isSymbol .rbrace) with
  | some closing => return ([], opening.join closing.span)
  | none =>
    match ← call .statement with
    | none => fail (.unclosedBlock opening)
    | some s =>
      let (rest, span) ← call (.block opening)
      return (s :: rest, span)

/-- Parameters with commas between them, and the closing bracket. -/
def params (keyword : Span) : Parse Rule (List (Param Span)) := do
  let name ← name .definition keyword
  let type ← annotation .definition keyword
  let span := (type.map fun t => name.note.join t.note).getD name.note
  let separator ← expect .definition keyword (.separator .round) (isSeparator .round)
  if separator.isSymbol .comma then
    let rest ← call (.params keyword)
    return ⟨span, name, type⟩ :: rest
  else return [⟨span, name, type⟩]

/-- The body of a definition, with the span of its end. -/
def definitionBody (keyword : Span) : Parse Rule (Body Span × Span) := do
  match ← next with
  | none => fail (.cutOff .definition keyword .body)
  | some t =>
    if t.isSymbol .eq then
      let value ← wanted (.construct .definition keyword)
      let semi ← symbol .definition keyword .semicolon .semicolon
      return (.value value, semi.span)
    else if t.isSymbol .lbrace then
      let (stmts, span) ← call (.block t.span)
      return (.block stmts, span)
    else fail (.unexpected .definition keyword .body t)

/-- A definition behind its keyword. -/
def definition (keyword : Span) : Parse Rule (Definition Span) := do
  let name ← name .definition keyword
  let _ ← symbol .definition keyword .openParen .lparen
  let params ← (do
    match ← nextIf (·.isSymbol .rparen) with
    | some _ => return []
    | none => call (.params keyword))
  let result ← annotation .definition keyword
  let (body, stop) ← definitionBody keyword
  return ⟨keyword.join stop, name, params, result, body⟩

/-- An item of a program, or nothing at the end of the input. -/
def item : Parse Rule (Option (Item Span)) := do
  match ← nextIf (·.isKeyword .defWord) with
  | some t => return some (.definition (← definition t.span))
  | none => return (← call .statement).map .stmt

end Grammar

/-- What a rule does. -/
def Rule.body : {α : Type} → Rule α → Parse Rule α
  | _, factor head => Grammar.factor head
  | _, suffixes base => Grammar.suffixes base
  | _, climb level left => Grammar.climb level left
  | _, items b opening trailing => Grammar.items b opening trailing
  | _, typeExpr context keyword => Grammar.typeExpr context keyword
  | _, types b context keyword => Grammar.types b context keyword
  | _, params keyword => Grammar.params keyword
  | _, statement => Grammar.statement
  | _, block opening => Grammar.block opening

namespace Grammar

variable {σ α : Type} [TokenSource σ]

/-- How deep rules are followed while at most `bound` entries can be taken.  Rules that follow each other without
taking a token form chains of at most four. -/
def depth (bound : Nat) : Nat := 4 * (bound + 2)

/-- Reads a phrase from a source that has at most `bound` entries to give, so that the bound on the depth of
rules is never reached. -/
def readWithin (bound : Nat) (p : Parse Rule (Option α)) (s : σ) : Except ParseError (Option α) × σ :=
  match p.run (Parse.runRule Rule.body (depth bound)) s with
  | .ok a s => (.ok a, s)
  | .error (.error e) s => (.error e, s)
  | .error .tooDeep s => (.ok none, s)

/-- Reads a phrase from a source. -/
def read (p : Parse Rule (Option α)) (s : σ) : Except ParseError (Option α) × σ :=
  readWithin (TokenSource.pending s) p s

/-- Reads items up to the end of the source or the first error, `bound` of them at most. -/
def readItems : Nat → σ → List (Item Span) × Option ParseError × σ
  | 0, s => ([], none, s)
  | bound + 1, s =>
    match readWithin (bound + 1) item s with
    | (.ok none, s) => ([], none, s)
    | (.error e, s) => ([], some e, s)
    | (.ok (some i), s) =>
      let (rest, e, s) := readItems bound s
      (i :: rest, e, s)

/-- Reads items up to the end of the source or the first error. -/
def readAll (s : σ) : List (Item Span) × Option ParseError × σ := readItems (TokenSource.pending s) s

end Grammar

/-- What comes of parsing a whole text. -/
structure Program where
  /-- The items before the first error. -/
  items : List (Item Span)
  error : Option ParseError
  /-- The lines read. -/
  log : Log

/-- Parses a whole text up to its first error. -/
def Program.parse (text : String) : Program :=
  let (items, error, lx) := Grammar.readAll ({ unread := .ofText text none } : Lexer)
  ⟨items, error, lx.log⟩

end SoundLang
