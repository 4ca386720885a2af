/-! # Type ids

A type is named by an id, a word of 32 bits: the upper four tell the shape of the type, the lower 28 its place
among the types of that shape.  The primitives and the empty tuple have fixed ids. -/

namespace SoundLang

/-- The shapes of types, in the order of their numbers. -/
inductive Shape where
  | primitive
  | tuple
  | function
  | sound
deriving DecidableEq, Repr

namespace Shape

/-- The number of a shape. -/
def number : Shape → Nat
  | primitive => 0
  | tuple => 1
  | function => 2
  | sound => 3

/-- The shape with the given number. -/
def ofNumber? : Nat → Option Shape
  | 0 => some primitive
  | 1 => some tuple
  | 2 => some function
  | 3 => some sound
  | _ => none

@[simp] theorem ofNumber?_number (s : Shape) : ofNumber? s.number = some s := by cases s <;> rfl

theorem number_lt (s : Shape) : s.number < 4 := by cases s <;> decide

end Shape

/-- The name of a type. -/
structure TypeId where
  word : UInt32
deriving DecidableEq, Repr

namespace TypeId

/-- The number of types of one shape that ids can tell apart. -/
def capacity : Nat := 0x10000000

/-- The id of a type from its shape and its place. -/
def ofParts (s : Shape) (place : Nat) : TypeId := ⟨UInt32.ofNat (s.number * capacity + place)⟩

/-- The number of the shape. -/
def shapeNumber (id : TypeId) : Nat := id.word.toNat / capacity

/-- The place among the types of its shape. -/
def place (id : TypeId) : Nat := id.word.toNat % capacity

theorem toNat_ofParts {s : Shape} {place : Nat} (h : place < capacity) :
    (ofParts s place).word.toNat = s.number * capacity + place := by
  have := s.number_lt
  simp only [capacity] at *
  simp only [ofParts, capacity, UInt32.toNat_ofNat']
  omega

theorem shapeNumber_ofParts {s : Shape} {place : Nat} (h : place < capacity) :
    (ofParts s place).shapeNumber = s.number := by
  rw [shapeNumber, toNat_ofParts h, Nat.add_comm, Nat.add_mul_div_right _ _ (by decide),
    Nat.div_eq_of_lt h, Nat.zero_add]

theorem place_ofParts {s : Shape} {place : Nat} (h : place < capacity) :
    (ofParts s place).place = place := by
  rw [TypeId.place, toNat_ofParts h, Nat.add_comm, Nat.add_mul_mod_self_right, Nat.mod_eq_of_lt h]

/-- The id names a primitive type. -/
def isPrimitive (id : TypeId) : Bool := id.shapeNumber == Shape.primitive.number

/-- The parts of an id, for a reader. -/
def render (id : TypeId) : String := s!"TypeId({id.shapeNumber}:{id.place})"

/-- The empty tuple. -/
def unit : TypeId := ofParts .tuple 0

end TypeId

/-- The primitive types, in the order of their ids. -/
inductive Primitive where
  | boolean
  | integer
  | rational
  | float
  | str
deriving DecidableEq, Repr

namespace Primitive

def all : List Primitive := [boolean, integer, rational, float, str]

/-- The name in annotations and in displayed types. -/
def name : Primitive → String
  | boolean => "bool"
  | integer => "int"
  | rational => "rational"
  | float => "float"
  | str => "str"

/-- The primitive with the given name. -/
def ofName? (name : String) : Option Primitive := all.find? (·.name == name)

def isNumeric : Primitive → Bool
  | integer | rational | float => true
  | boolean | str => false

/-- The place of the primitive among the primitives. -/
def place : Primitive → Nat
  | boolean => 0
  | integer => 1
  | rational => 2
  | float => 3
  | str => 4

/-- The fixed id. -/
def id (p : Primitive) : TypeId := .ofParts .primitive p.place

end Primitive

end SoundLang
