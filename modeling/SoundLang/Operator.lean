/-! # Operators

Unary operators stand before or after their operand, binary operators between two.  `BinaryOp.level` orders
the binary operators from the tightest level 1 to the loosest level 11; only the loosest level, assignment,
groups to the right. -/

namespace SoundLang

/-- Operators with one operand. -/
inductive UnaryOp where
  | plus
  | minus
  | recip
  | logicalNot
  | bitNot
  | preInc
  | preDec
  | postInc
  | postDec
deriving DecidableEq, Repr

namespace UnaryOp

/-- The spelling in the source. -/
def spelling : UnaryOp → String
  | plus => "+"
  | minus => "-"
  | recip => "/"
  | logicalNot => "!"
  | bitNot => "~"
  | preInc | postInc => "++"
  | preDec | postDec => "--"

/-- The name in outlines and messages. -/
def name : UnaryOp → String
  | plus => "plus"
  | minus => "minus"
  | recip => "recip"
  | logicalNot => "logical not"
  | bitNot => "bitwise not"
  | preInc => "prefix increment"
  | preDec => "prefix decrement"
  | postInc => "postfix increment"
  | postDec => "postfix decrement"

/-- The operator stands behind its operand. -/
def isPostfix : UnaryOp → Bool
  | postInc | postDec => true
  | _ => false

end UnaryOp

/-- Operators with two operands. -/
inductive BinaryOp where
  | add
  | sub
  | mul
  | div
  | rem
  | leftShift
  | rightShift
  | forwardShift
  | backwardShift
  | equal
  | notEqual
  | less
  | lessEqual
  | greater
  | greaterEqual
  | logicalAnd
  | logicalOr
  | bitAnd
  | bitOr
  | bitXor
  | assign
  | addAssign
  | subAssign
  | mulAssign
  | divAssign
  | remAssign
  | bitAndAssign
  | bitOrAssign
  | bitXorAssign
  | leftShiftAssign
  | rightShiftAssign
  | forwardShiftAssign
  | backwardShiftAssign
deriving DecidableEq, Repr

namespace BinaryOp

/-- The loosest level, that of assignment. -/
def loosest : Nat := 11

/-- The spelling in the source. -/
def spelling : BinaryOp → String
  | add => "+"
  | sub => "-"
  | mul => "*"
  | div => "/"
  | rem => "%"
  | leftShift => "<<"
  | rightShift => ">>"
  | forwardShift => ">>>"
  | backwardShift => "<<<"
  | equal => "=="
  | notEqual => "!="
  | less => "<"
  | lessEqual => "<="
  | greater => ">"
  | greaterEqual => ">="
  | logicalAnd => "&&"
  | logicalOr => "||"
  | bitAnd => "&"
  | bitOr => "|"
  | bitXor => "^"
  | assign => "="
  | addAssign => "+="
  | subAssign => "-="
  | mulAssign => "*="
  | divAssign => "/="
  | remAssign => "%="
  | bitAndAssign => "&="
  | bitOrAssign => "|="
  | bitXorAssign => "^="
  | leftShiftAssign => "<<="
  | rightShiftAssign => ">>="
  | forwardShiftAssign => ">>>="
  | backwardShiftAssign => "<<<="

/-- The name in outlines and messages. -/
def name : BinaryOp → String
  | add => "add"
  | sub => "sub"
  | mul => "mul"
  | div => "div"
  | rem => "rem"
  | leftShift => "left shift"
  | rightShift => "right shift"
  | forwardShift => "forward shift"
  | backwardShift => "backward shift"
  | equal => "equal to"
  | notEqual => "not equal to"
  | less => "less than"
  | lessEqual => "less than or equal to"
  | greater => "greater than"
  | greaterEqual => "greater than or equal to"
  | logicalAnd => "logical and"
  | logicalOr => "logical or"
  | bitAnd => "bitwise and"
  | bitOr => "bitwise or"
  | bitXor => "bitwise xor"
  | assign => "assign"
  | addAssign => "add assign"
  | subAssign => "sub assign"
  | mulAssign => "mul assign"
  | divAssign => "div assign"
  | remAssign => "rem assign"
  | bitAndAssign => "bitwise and assign"
  | bitOrAssign => "bitwise or assign"
  | bitXorAssign => "bitwise xor assign"
  | leftShiftAssign => "left shift assign"
  | rightShiftAssign => "right shift assign"
  | forwardShiftAssign => "forward shift assign"
  | backwardShiftAssign => "backward shift assign"

/-- How loosely the operator binds its operands. -/
def level : BinaryOp → Nat
  | forwardShift | backwardShift => 1
  | mul | div | rem => 2
  | add | sub => 3
  | leftShift | rightShift => 4
  | bitAnd => 5
  | bitXor => 6
  | bitOr => 7
  | equal | notEqual | less | lessEqual | greater | greaterEqual => 8
  | logicalAnd => 9
  | logicalOr => 10
  | assign | addAssign | subAssign | mulAssign | divAssign | remAssign | bitAndAssign | bitOrAssign
  | bitXorAssign | leftShiftAssign | rightShiftAssign | forwardShiftAssign | backwardShiftAssign => loosest

/-- The operator groups to the right. -/
def isRightAssoc (op : BinaryOp) : Bool := op.level == loosest

theorem one_le_level (op : BinaryOp) : 1 ≤ op.level := by cases op <;> decide

theorem level_le_loosest (op : BinaryOp) : op.level ≤ loosest := by cases op <;> decide

end BinaryOp

end SoundLang
