/-! # Error codes

Every error that a user can see has a code `E` followed by four digits; the first digit names the stage that
raised it. -/

namespace SoundLang.Diagnostic

/-- The stage of the front end that raises an error. -/
inductive Stage where
  | lexer
  | parser
  | types
deriving DecidableEq, Repr

/-- The causes of errors, in the order of their codes. -/
inductive Code where
  | unexpectedCharacter
  | unterminatedComment
  | unterminatedString
  | incompleteExponent
  | emptyRadix
  | unreadableInput
  | tokenAfterUnary
  | endAfterUnary
  | tokenAfterBinary
  | endAfterBinary
  | unclosedBracket
  | mismatchedBracket
  | missingSeparator
  | emptyItem
  | emptyIndex
  | multipleIndices
  | missingSemicolon
  | endAfterExpression
  | noStatement
  | unclosedBlock
  | malformed
  | cutOff
  | noItem
  | unknownType
  | wrongArity
deriving DecidableEq, Repr

namespace Code

/-- All codes in order. -/
def all : List Code :=
  [.unexpectedCharacter, .unterminatedComment, .unterminatedString, .incompleteExponent, .emptyRadix,
    .unreadableInput, .tokenAfterUnary, .endAfterUnary, .tokenAfterBinary, .endAfterBinary,
    .unclosedBracket, .mismatchedBracket, .missingSeparator, .emptyItem, .emptyIndex, .multipleIndices,
    .missingSemicolon, .endAfterExpression, .noStatement, .unclosedBlock, .malformed, .cutOff, .noItem,
    .unknownType, .wrongArity]

theorem mem_all (c : Code) : c ∈ all := by cases c <;> decide

/-- The code as it is shown. -/
def render : Code → String
  | unexpectedCharacter => "E0001"
  | unterminatedComment => "E0002"
  | unterminatedString => "E0003"
  | incompleteExponent => "E0004"
  | emptyRadix => "E0005"
  | unreadableInput => "E0006"
  | tokenAfterUnary => "E1001"
  | endAfterUnary => "E1002"
  | tokenAfterBinary => "E1003"
  | endAfterBinary => "E1004"
  | unclosedBracket => "E1005"
  | mismatchedBracket => "E1006"
  | missingSeparator => "E1007"
  | emptyItem => "E1008"
  | emptyIndex => "E1009"
  | multipleIndices => "E1010"
  | missingSemicolon => "E1011"
  | endAfterExpression => "E1012"
  | noStatement => "E1013"
  | unclosedBlock => "E1014"
  | malformed => "E1015"
  | cutOff => "E1016"
  | noItem => "E1017"
  | unknownType => "E2001"
  | wrongArity => "E2002"

/-- One line that explains the code. -/
def description : Code → String
  | unexpectedCharacter => "unexpected character"
  | unterminatedComment => "unterminated comment"
  | unterminatedString => "unterminated string literal"
  | incompleteExponent => "incomplete scientific notation"
  | emptyRadix => "radix prefix without digits"
  | unreadableInput => "failed to read input"
  | tokenAfterUnary => "unexpected token after prefix operator"
  | endAfterUnary => "unexpected end of input after prefix operator"
  | tokenAfterBinary => "unexpected token after infix operator"
  | endAfterBinary => "unexpected end of input after infix operator"
  | unclosedBracket => "unclosed bracket"
  | mismatchedBracket => "mismatched brackets"
  | missingSeparator => "expected `,` or closing bracket"
  | emptyItem => "empty list item"
  | emptyIndex => "empty index"
  | multipleIndices => "multiple indices"
  | missingSemicolon => "expected `;` after expression"
  | endAfterExpression => "unexpected end of input after expression"
  | noStatement => "expected statement"
  | unclosedBlock => "unclosed block"
  | malformed => "malformed construct"
  | cutOff => "unexpected end of input in construct"
  | noItem => "expected list item"
  | unknownType => "unknown type"
  | wrongArity => "wrong number of type arguments"

/-- The stage that raises the error. -/
def stage : Code → Stage
  | unexpectedCharacter | unterminatedComment | unterminatedString | incompleteExponent | emptyRadix
  | unreadableInput => .lexer
  | unknownType | wrongArity => .types
  | _ => .parser

/-- Reads a code, in either case of its letter. -/
def parse? (text : String) : Option Code :=
  all.find? fun c => c.render.toList == text.toList.map Char.toUpper

/-- A code reads back from how it is shown. -/
theorem parse?_render (c : Code) : parse? c.render = some c := by cases c <;> decide +kernel

end Code

end SoundLang.Diagnostic
