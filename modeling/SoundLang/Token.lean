import SoundLang.Operator
import SoundLang.Source.Position
import SoundLang.Symbol
import SoundLang.Text.Quoted

/-! # Tokens

A token is a word, a number, a string or a symbol, with its span.  Keywords are words that are looked up when
the grammar asks.  The rest of the module says which parts a token can play in the grammar: an operand, an
operator before, behind or between operands, a bracket. -/

namespace SoundLang

/-- The reserved words. -/
inductive Keyword where
  | ifWord
  | elseWord
  | whileWord
  | breakWord
  | continueWord
  | returnWord
  | letWord
  | defWord
deriving DecidableEq, Repr

namespace Keyword

def all : List Keyword :=
  [ifWord, elseWord, whileWord, breakWord, continueWord, returnWord, letWord, defWord]

def spelling : Keyword → String
  | ifWord => "if"
  | elseWord => "else"
  | whileWord => "while"
  | breakWord => "break"
  | continueWord => "continue"
  | returnWord => "return"
  | letWord => "let"
  | defWord => "def"

/-- The keyword that a word is, if it is one. -/
def lookup? (word : String) : Option Keyword := all.find? (·.spelling == word)

end Keyword

/-- The two shapes of brackets around lists. -/
inductive Bracket where
  | round
  | square
deriving DecidableEq, Repr

namespace Bracket

def opening : Bracket → Symbol
  | round => .lparen
  | square => .lbracket

def closing : Bracket → Symbol
  | round => .rparen
  | square => .rbracket

/-- The other shape. -/
def other : Bracket → Bracket
  | round => square
  | square => round

end Bracket

/-- What a token is, apart from where it stands.  A string holds its value, with the escapes decoded. -/
inductive Token.Kind where
  | word (text : String)
  | number (text : String)
  | string (value : String)
  | symbol (symbol : Symbol)
deriving DecidableEq, Repr

/-- A token of the source. -/
structure Token where
  kind : Token.Kind
  span : Span
deriving DecidableEq, Repr

namespace Token

namespace Kind

/-- The fixed spelling of a symbol. -/
def spelling? : Kind → Option String
  | symbol s => some s.spelling
  | _ => none

/-- The token as it could stand in a source. -/
def render : Kind → String
  | word text => text
  | number text => text
  | string value => Text.quote value
  | symbol s => s.spelling

/-- The token in a listing of tokens. -/
def listing : Kind → String
  | word text => s!"Identifier({Text.quote text})"
  | number text => s!"Number({Text.quote text})"
  | string value => s!"StringLit({Text.quote value})"
  | symbol s => s.title

/-- The keyword that the token is. -/
def keyword? : Kind → Option Keyword
  | word text => Keyword.lookup? text
  | _ => none

/-- The name that the token can give to a variable: a word that is no keyword. -/
def name? : Kind → Option String
  | word text => if (Keyword.lookup? text).isNone then some text else none
  | _ => none

/-- What sort of token this is: its keyword or spelling, or else the sort in one word. -/
def sort : Kind → String
  | word text => ((Keyword.lookup? text).map Keyword.spelling).getD "identifier"
  | number _ => "number"
  | string _ => "string"
  | symbol s => s.spelling

/-- The operator that the token is before an operand. -/
def prefixOp? : Kind → Option UnaryOp
  | symbol .plus => some .plus
  | symbol .minus => some .minus
  | symbol .slash => some .recip
  | symbol .bang => some .logicalNot
  | symbol .tilde => some .bitNot
  | symbol .plusPlus => some .preInc
  | symbol .minusMinus => some .preDec
  | _ => none

/-- The operator that the token is behind an operand. -/
def suffixOp? : Kind → Option UnaryOp
  | symbol .plusPlus => some .postInc
  | symbol .minusMinus => some .postDec
  | _ => none

/-- The operator that the token is between two operands. -/
def infixOp? : Kind → Option BinaryOp
  | symbol .plus => some .add
  | symbol .minus => some .sub
  | symbol .star => some .mul
  | symbol .slash => some .div
  | symbol .percent => some .rem
  | symbol .shl => some .leftShift
  | symbol .shr => some .rightShift
  | symbol .tripleGt => some .forwardShift
  | symbol .tripleLt => some .backwardShift
  | symbol .eqEq => some .equal
  | symbol .notEq => some .notEqual
  | symbol .lt => some .less
  | symbol .ltEq => some .lessEqual
  | symbol .gt => some .greater
  | symbol .gtEq => some .greaterEqual
  | symbol .ampAmp => some .logicalAnd
  | symbol .pipePipe => some .logicalOr
  | symbol .amp => some .bitAnd
  | symbol .pipe => some .bitOr
  | symbol .caret => some .bitXor
  | symbol .eq => some .assign
  | symbol .plusEq => some .addAssign
  | symbol .minusEq => some .subAssign
  | symbol .starEq => some .mulAssign
  | symbol .slashEq => some .divAssign
  | symbol .percentEq => some .remAssign
  | symbol .ampEq => some .bitAndAssign
  | symbol .pipeEq => some .bitOrAssign
  | symbol .caretEq => some .bitXorAssign
  | symbol .shlEq => some .leftShiftAssign
  | symbol .shrEq => some .rightShiftAssign
  | symbol .tripleGtEq => some .forwardShiftAssign
  | symbol .tripleLtEq => some .backwardShiftAssign
  | _ => none

/-- The bracket that the token opens. -/
def opens? : Kind → Option Bracket
  | symbol .lparen => some .round
  | symbol .lbracket => some .square
  | _ => none

/-- The bracket that the token closes. -/
def closes? : Kind → Option Bracket
  | symbol .rparen => some .round
  | symbol .rbracket => some .square
  | _ => none

end Kind

/-- The token is the given symbol. -/
def isSymbol (s : Symbol) (t : Token) : Bool := t.kind == .symbol s

/-- The token is the given keyword. -/
def isKeyword (k : Keyword) (t : Token) : Bool := t.kind.keyword? == some k

/-- The token in a listing, with its span. -/
def listing (t : Token) : String := s!"{t.kind.listing} @ {t.span.render}"

end Token

end SoundLang
