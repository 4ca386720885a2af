/-! # Symbols

The tokens with a fixed spelling: operators, brackets and separators. -/

namespace SoundLang

/-- A token with a fixed spelling. -/
inductive Symbol where
  | plus
  | plusPlus
  | plusEq
  | minus
  | minusMinus
  | minusEq
  | star
  | starEq
  | slash
  | slashEq
  | percent
  | percentEq
  | eq
  | eqEq
  | bang
  | notEq
  | lt
  | ltEq
  | gt
  | gtEq
  | shl
  | shlEq
  | tripleLt
  | tripleLtEq
  | shr
  | shrEq
  | tripleGt
  | tripleGtEq
  | amp
  | ampEq
  | ampAmp
  | pipe
  | pipeEq
  | pipePipe
  | caret
  | caretEq
  | tilde
  | dot
  | colon
  | semicolon
  | comma
  | question
  | hash
  | lparen
  | rparen
  | lbracket
  | rbracket
  | lbrace
  | rbrace
deriving DecidableEq, Repr

namespace Symbol

/-- Every symbol, in groups of the same first character. -/
def all : List Symbol :=
  [plus, plusPlus, plusEq, minus, minusMinus, minusEq, star, starEq, slash, slashEq, percent, percentEq,
    eq, eqEq, bang, notEq, lt, ltEq, gt, gtEq, shl, shlEq, tripleLt, tripleLtEq, shr, shrEq, tripleGt,
    tripleGtEq, amp, ampEq, ampAmp, pipe, pipeEq, pipePipe, caret, caretEq, tilde, dot, colon, semicolon,
    comma, question, hash, lparen, rparen, lbracket, rbracket, lbrace, rbrace]

theorem mem_all (s : Symbol) : s ∈ all := by cases s <;> decide

/-- The characters of a symbol. -/
def chars : Symbol → List Char
  | plus => ['+']
  | plusPlus => ['+', '+']
  | plusEq => ['+', '=']
  | minus => ['-']
  | minusMinus => ['-', '-']
  | minusEq => ['-', '=']
  | star => ['*']
  | starEq => ['*', '=']
  | slash => ['/']
  | slashEq => ['/', '=']
  | percent => ['%']
  | percentEq => ['%', '=']
  | eq => ['=']
  | eqEq => ['=', '=']
  | bang => ['!']
  | notEq => ['!', '=']
  | lt => ['<']
  | ltEq => ['<', '=']
  | gt => ['>']
  | gtEq => ['>', '=']
  | shl => ['<', '<']
  | shlEq => ['<', '<', '=']
  | tripleLt => ['<', '<', '<']
  | tripleLtEq => ['<', '<', '<', '=']
  | shr => ['>', '>']
  | shrEq => ['>', '>', '=']
  | tripleGt => ['>', '>', '>']
  | tripleGtEq => ['>', '>', '>', '=']
  | amp => ['&']
  | ampEq => ['&', '=']
  | ampAmp => ['&', '&']
  | pipe => ['|']
  | pipeEq => ['|', '=']
  | pipePipe => ['|', '|']
  | caret => ['^']
  | caretEq => ['^', '=']
  | tilde => ['~']
  | dot => ['.']
  | colon => [':']
  | semicolon => [';']
  | comma => [',']
  | question => ['?']
  | hash => ['#']
  | lparen => ['(']
  | rparen => [')']
  | lbracket => ['[']
  | rbracket => [']']
  | lbrace => ['\x7b']
  | rbrace => ['\x7d']

/-- The symbol with the given characters. -/
def ofChars? (cs : List Char) : Option Symbol := all.find? (·.chars == cs)

theorem ofChars?_chars (s : Symbol) : ofChars? s.chars = some s := by cases s <;> rfl

/-- The spelling of a symbol. -/
def spelling (s : Symbol) : String := String.ofList s.chars

/-- The name that a listing of tokens gives to a symbol. -/
def title : Symbol → String
  | plus => "Plus"
  | plusPlus => "PlusPlus"
  | plusEq => "PlusEq"
  | minus => "Minus"
  | minusMinus => "MinusMinus"
  | minusEq => "MinusEq"
  | star => "Star"
  | starEq => "StarEq"
  | slash => "Slash"
  | slashEq => "SlashEq"
  | percent => "Percent"
  | percentEq => "PercentEq"
  | eq => "Eq"
  | eqEq => "EqEq"
  | bang => "Bang"
  | notEq => "NotEq"
  | lt => "Lt"
  | ltEq => "LtEq"
  | gt => "Gt"
  | gtEq => "GtEq"
  | shl => "Shl"
  | shlEq => "ShlEq"
  | tripleLt => "TripleLt"
  | tripleLtEq => "TripleLtEq"
  | shr => "Shr"
  | shrEq => "ShrEq"
  | tripleGt => "TripleGt"
  | tripleGtEq => "TripleGtEq"
  | amp => "Amp"
  | ampEq => "AmpEq"
  | ampAmp => "AmpAmp"
  | pipe => "Pipe"
  | pipeEq => "PipeEq"
  | pipePipe => "PipePipe"
  | caret => "Caret"
  | caretEq => "CaretEq"
  | tilde => "Tilde"
  | dot => "Dot"
  | colon => "Colon"
  | semicolon => "Semicolon"
  | comma => "Comma"
  | question => "Question"
  | hash => "Hash"
  | lparen => "LParen"
  | rparen => "RParen"
  | lbracket => "LBracket"
  | rbracket => "RBracket"
  | lbrace => "LBrace"
  | rbrace => "RBrace"

end Symbol

end SoundLang
