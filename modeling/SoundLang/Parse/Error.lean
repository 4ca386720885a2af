import SoundLang.LexError

/-! # Syntax errors

Each error names the one expectation that failed, and keeps the spans that explain it: the token found, and
the operator, bracket or keyword that led to the expectation.  Parsing stops at the first error. -/

namespace SoundLang

/-- The constructs that a keyword opens. -/
inductive Construct where
  | ifStatement
  | whileLoop
  | breakStatement
  | continueStatement
  | returnStatement
  | letDeclaration
  | definition
deriving DecidableEq, Repr

/-- The construct in a message. -/
def Construct.render : Construct → String
  | ifStatement => "`if` statement"
  | whileLoop => "`while` loop"
  | breakStatement => "`break` statement"
  | continueStatement => "`continue` statement"
  | returnStatement => "`return` statement"
  | letDeclaration => "`let` declaration"
  | definition => "definition"

/-- What a construct needs at some place. -/
inductive Expectation where
  | expression
  | statement
  | name
  | typeExpr
  | openParen
  | closeParen
  | semicolon
  | assign
  /-- The body of a definition. -/
  | body
  /-- A comma, or the bracket that closes the list. -/
  | separator (bracket : Bracket)
deriving DecidableEq, Repr

/-- The expectation in a message. -/
def Expectation.render : Expectation → String
  | expression => "an expression"
  | statement => "a statement"
  | name => "an identifier"
  | typeExpr => "a type"
  | openParen => "`(`"
  | closeParen => "`)`"
  | semicolon => "`;`"
  | assign => "`=`"
  | body => "`=` or `\x7b`"
  | separator b => s!"`,` or `{b.closing.spelling}`"

/-- The causes for which parsing stops. -/
inductive ParseError where
  | lexical (error : LexError)
  | tokenAfterUnary (op : UnaryOp) (operator : Span) (found : Token)
  | endAfterUnary (op : UnaryOp) (operator : Span)
  | tokenAfterBinary (op : BinaryOp) (operator : Span) (found : Token)
  | endAfterBinary (op : BinaryOp) (operator : Span)
  | unclosedBracket (bracket : Bracket) (opening : Span)
  | mismatchedBracket (bracket : Bracket) (opening closing : Span)
  | missingSeparator (bracket : Bracket) (opening : Span) (found : Token)
  | emptyItem (comma : Span)
  | emptyIndex (span : Span)
  | multipleIndices (span : Span) (count : Nat)
  | missingSemicolon (expr : Span) (found : Token)
  | endAfterExpression (expr : Span)
  | noStatement (found : Token)
  | unclosedBlock (opening : Span)
  | unexpected (context : Construct) (keyword : Span) (expected : Expectation) (found : Token)
  | cutOff (context : Construct) (keyword : Span) (expected : Expectation)
  | noItem (bracket : Bracket) (opening : Span) (found : Token)
deriving DecidableEq, Repr

namespace ParseError

def code : ParseError → Diagnostic.Code
  | lexical e => e.code
  | tokenAfterUnary .. => .tokenAfterUnary
  | endAfterUnary .. => .endAfterUnary
  | tokenAfterBinary .. => .tokenAfterBinary
  | endAfterBinary .. => .endAfterBinary
  | unclosedBracket .. => .unclosedBracket
  | mismatchedBracket .. => .mismatchedBracket
  | missingSeparator .. => .missingSeparator
  | emptyItem .. => .emptyItem
  | emptyIndex .. => .emptyIndex
  | multipleIndices .. => .multipleIndices
  | missingSemicolon .. => .missingSemicolon
  | endAfterExpression .. => .endAfterExpression
  | noStatement .. => .noStatement
  | unclosedBlock .. => .unclosedBlock
  | unexpected .. => .malformed
  | cutOff .. => .cutOff
  | noItem .. => .noItem

/-- Where the error is, if it has a place. -/
def span? : ParseError → Option Span
  | lexical e => e.span?
  | tokenAfterUnary _ _ found | tokenAfterBinary _ _ found | missingSeparator _ _ found
  | missingSemicolon _ found | noStatement found | unexpected _ _ _ found | noItem _ _ found =>
    some found.span
  | endAfterUnary _ operator | endAfterBinary _ operator => some operator
  | unclosedBracket _ opening | unclosedBlock opening => some opening
  | mismatchedBracket _ _ closing => some closing
  | emptyItem comma => some comma
  | emptyIndex span | multipleIndices span _ => some span
  | endAfterExpression expr => some expr
  | cutOff _ keyword _ => some keyword

/-- A token, and where it was found. -/
def foundAt (t : Token) : String := s!"found `{t.kind.render}` at {t.span.render}"

def message : ParseError → String
  | lexical e => e.message
  | tokenAfterUnary op _ found =>
    s!"unexpected token `{found.kind.render}` at {found.span.render} after prefix `{op.spelling}`"
  | endAfterUnary op operator =>
    s!"unexpected end of input after prefix `{op.spelling}` at {operator.render}"
  | tokenAfterBinary op _ found =>
    s!"unexpected token `{found.kind.render}` at {found.span.render} after infix `{op.spelling}`"
  | endAfterBinary op operator =>
    s!"unexpected end of input after infix `{op.spelling}` at {operator.render}"
  | unclosedBracket b opening => s!"unclosed bracket `{b.opening.spelling}` at {opening.render}"
  | mismatchedBracket b opening closing =>
    s!"mismatched brackets: `{b.opening.spelling}` at {opening.render} closed by " ++
      s!"`{b.other.closing.spelling}` at {closing.render}"
  | missingSeparator b _ found =>
    s!"expected `,` or `{b.closing.spelling}` after list item, {foundAt found}"
  | emptyItem comma => s!"empty list item before `,` at {comma.render}"
  | emptyIndex span => s!"empty index at {span.render}"
  | multipleIndices span count => s!"{count} indices at {span.render}"
  | missingSemicolon _ found => s!"expected `;` after expression, {foundAt found}"
  | endAfterExpression expr => s!"unexpected end of input after expression at {expr.render}"
  | noStatement found => s!"expected statement, {foundAt found}"
  | unclosedBlock opening => s!"unclosed block `\x7b` at {opening.render}"
  | unexpected context _ expected found =>
    s!"expected {expected.render} in {context.render}, {foundAt found}"
  | cutOff context keyword expected =>
    s!"unexpected end of input in {context.render} at {keyword.render}: expected {expected.render}"
  | noItem b _ found => s!"expected list item or `{b.closing.spelling}`, {foundAt found}"

def diagnostic (e : ParseError) : Diagnostic :=
  let d : Diagnostic := { code := e.code, message := e.message }
  match e with
  | lexical e => e.diagnostic
  | tokenAfterUnary op operator found =>
    (d.mark found.span "expected an operand here").relate operator s!"{op.name} operator"
  | endAfterUnary op operator => d.mark operator s!"{op.name} operator has no operand"
  | tokenAfterBinary op operator found =>
    (d.mark found.span "expected an operand here").relate operator s!"{op.name} operator"
  | endAfterBinary op operator => d.mark operator s!"{op.name} operator has no right operand"
  | unclosedBracket b opening =>
    (d.mark opening "this bracket is never closed").hint s!"add a closing `{b.closing.spelling}`"
  | mismatchedBracket b opening closing =>
    (d.mark closing s!"expected `{b.closing.spelling}`").relate opening "opened here"
  | missingSeparator b opening found =>
    (d.mark found.span s!"expected `,` or `{b.closing.spelling}`").relate opening "list opened here"
  | emptyItem comma => (d.mark comma "nothing before this comma").hint "remove the extra `,`"
  | emptyIndex span => (d.mark span "no index given").note "an index is written like `a[i]`"
  | multipleIndices span _ =>
    (d.mark span "only one index is allowed").note "index once per dimension, like `a[i][j]`"
  | missingSemicolon expr found =>
    ((d.mark found.span "expected `;`").relate expr "after this expression").hint
      "add `;` at the end of the statement"
  | endAfterExpression expr =>
    (d.mark expr "this expression is not terminated").hint "add `;` at the end of the statement"
  | noStatement found => d.mark found.span "no statement starts here"
  | unclosedBlock opening =>
    (d.mark opening "this block is never closed").hint "add a closing `\x7d`"
  | unexpected context keyword expected found =>
    (d.mark found.span s!"expected {expected.render}").relate keyword s!"in this {context.render}"
  | cutOff context keyword expected => d.mark keyword s!"{context.render} needs {expected.render}"
  | noItem b opening found =>
    (d.mark found.span "not an expression").relate opening s!"`{b.opening.spelling}` opened here"

end ParseError

end SoundLang
