/-! # The value of a number literal

A number literal keeps its text; `Number.value?` reads the value when it is needed.  Texts with a radix mark
(`0b`, `0o`, `0x`) and plain decimal digits are integers, anything with a decimal point or an exponent is a
real number. -/

namespace SoundLang

/-- The value of a number literal. -/
inductive Number where
  | integer (value : Int)
  | real (value : Float)

namespace Number

/-- The value of a digit in bases up to sixteen; letters may be of either case. -/
def digit? (c : Char) : Option Nat :=
  if '0' ≤ c ∧ c ≤ '9' then some (c.toNat - '0'.toNat)
  else if 'a' ≤ c ∧ c ≤ 'f' then some (c.toNat - 'a'.toNat + 10)
  else if 'A' ≤ c ∧ c ≤ 'F' then some (c.toNat - 'A'.toNat + 10)
  else none

def isDigit (radix : Nat) (c : Char) : Bool := (digit? c).any (· < radix)

/-- The positional value of digits in the given base. -/
def positional (radix : Nat) (digits : List Char) : Nat :=
  digits.foldl (fun n c => n * radix + (digit? c).getD 0) 0

/-- The positional value of a non-empty list of digits in the given base. -/
def natural? (radix : Nat) (text : List Char) : Option Nat :=
  if text ≠ [] ∧ text.all (isDigit radix) then some (positional radix text) else none

/-- An integer fits when a signed word of 64 bits holds it. -/
def Fits (n : Int) : Prop := -0x8000000000000000 ≤ n ∧ n < 0x8000000000000000

instance (n : Int) : Decidable (Fits n) := inferInstanceAs (Decidable (_ ∧ _))

/-- Takes one leading sign off a text; `true` means negative. -/
def unsign : List Char → Bool × List Char
  | '-' :: cs => (true, cs)
  | '+' :: cs => (false, cs)
  | cs => (false, cs)

/-- Digits in the given base with at most one sign before them, if the value fits. -/
def integer? (radix : Nat) (text : List Char) : Option Int := do
  let (negative, digits) := unsign text
  let n ← natural? radix digits
  let value : Int := if negative then -n else n
  if Fits value then some value else none

/-- A decimal number in parts: the value is `digits * 10 ^ exponent`, with its sign apart so that a negative
zero can be told from zero. -/
structure Decimal where
  negative : Bool
  digits : Nat
  exponent : Int
deriving DecidableEq, Repr

/-- The exponent part of a decimal text: nothing, or a mark, at most one sign and at least one digit. -/
def exponent? : List Char → Option Int
  | [] => some 0
  | c :: cs => do
    if c = 'e' ∨ c = 'E' then
      let (negative, digits) := unsign cs
      let n ← natural? 10 digits
      return if negative then -n else n
    else none

/-- Digits with an optional decimal point among or around them, then an optional exponent; at least one
digit stands before the exponent. -/
def decimal? (text : List Char) : Option Decimal := do
  let (negative, body) := unsign text
  let whole := body.takeWhile (isDigit 10)
  let rest := body.dropWhile (isDigit 10)
  let (fraction, rest) := match rest with
    | '.' :: cs => (cs.takeWhile (isDigit 10), cs.dropWhile (isDigit 10))
    | cs => ([], cs)
  if whole = [] ∧ fraction = [] then none
  let exponent ← exponent? rest
  return ⟨negative, positional 10 (whole ++ fraction), exponent - fraction.length⟩

/-- The nearest double.  A magnitude beyond every double is infinite, one below every double is zero, and
both are told from the number of digits alone so that no power of ten is larger than needed. -/
def Decimal.toFloat (d : Decimal) : Float :=
  let places : Int := (Nat.toDigits 10 d.digits).length + d.exponent
  let magnitude : Float :=
    if d.digits = 0 ∨ places < -400 then 0.0
    else if places > 400 then 1.0 / 0.0
    else if d.exponent < 0 then Float.ofScientific d.digits true d.exponent.natAbs
    else Float.ofScientific d.digits false d.exponent.natAbs
  if d.negative then -magnitude else magnitude

/-- The base that a radix mark announces. -/
def radix? : Char → Option Nat
  | 'b' => some 2
  | 'o' => some 8
  | 'x' => some 16
  | _ => none

/-- The value of a text without a radix mark. -/
def unmarked? (text : List Char) : Option Number :=
  if text.all (isDigit 10) then (integer? 10 text).map integer
  else (decimal? text).map (real ·.toFloat)

/-- The value of the text of a number literal; `none` for a text that is no number, and for an integer that
does not fit. -/
def value? (text : String) : Option Number :=
  match text.toList with
  | '0' :: mark :: digits =>
    match radix? mark with
    | some radix => (integer? radix digits).map integer
    | none => unmarked? ('0' :: mark :: digits)
  | cs => unmarked? cs

end Number

end SoundLang
