import SoundLang.Types.Data

/-! # Flags of a type

Each type has a few facts recorded with it, one bit each: what the type itself is, and what it contains
anywhere inside.  The second kind is handed on from the parts of a type to the type. -/

namespace SoundLang

/-- The facts that are recorded of a type. -/
inductive Flag where
  | isPrimitive
  | isNumeric
  | isTuple
  | isUnit
  | isFunction
  | isSound
  | hasSound
  | hasFunction
deriving DecidableEq, Repr

namespace Flag

/-- All flags, by their bits. -/
def all : List Flag :=
  [isPrimitive, isNumeric, isTuple, isUnit, isFunction, isSound, hasSound, hasFunction]

/-- The bit of a flag. -/
def mask : Flag → UInt16
  | isPrimitive => 0x1
  | isNumeric => 0x2
  | isTuple => 0x4
  | isUnit => 0x8
  | isFunction => 0x10
  | isSound => 0x20
  | hasSound => 0x100
  | hasFunction => 0x200

end Flag

/-- A set of flags. -/
structure Flags where
  bits : UInt16
deriving DecidableEq, Repr

namespace Flags

/-- No flag. -/
def empty : Flags := ⟨0⟩

/-- The flags of either set. -/
def union (a b : Flags) : Flags := ⟨a.bits ||| b.bits⟩

/-- The set of the given flags. -/
def ofList (fs : List Flag) : Flags := ⟨fs.foldl (fun bits f => bits ||| f.mask) 0⟩

/-- The flags among the bits of a word; other bits are dropped. -/
def ofBits (bits : UInt16) : Flags := ⟨bits &&& (ofList Flag.all).bits⟩

/-- The set has the flag. -/
def has (a : Flags) (f : Flag) : Bool := a.bits &&& f.mask == f.mask

/-- The flags of the set, by their bits. -/
def toList (a : Flags) : List Flag := Flag.all.filter a.has

/-- What a part hands on to the types that contain it. -/
def inherited (part : Flags) : Flags := ⟨part.bits &&& (ofList [.hasSound, .hasFunction]).bits⟩

/-- What all parts together hand on. -/
def inheritedAll (parts : List Flags) : Flags :=
  parts.foldl (fun flags part => flags.union part.inherited) empty

/-- What a type is by its own layer. -/
def own : TypeData → Flags
  | .primitive p => if p.isNumeric then ofList [.isPrimitive, .isNumeric] else ofList [.isPrimitive]
  | .tuple [] => ofList [.isTuple, .isUnit]
  | .tuple _ => ofList [.isTuple]
  | .function .. => ofList [.isFunction, .hasFunction]
  | .sound _ => ofList [.isSound, .hasSound]

/-- The flags of a type, from its layer and the flags of its parts. -/
def compute (d : TypeData) (parts : List Flags) : Flags := (own d).union (inheritedAll parts)

end Flags

end SoundLang
