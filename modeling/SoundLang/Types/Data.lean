import SoundLang.Types.Id

/-! # Types, one layer and in full

`TypeData` is one layer of a type: its shape, with the ids of its parts.  `Ty` is a type in full; its text is
what an annotation would say, with functions written `(parameters) -> result`. -/

namespace SoundLang

/-- One layer of a type; the parts are named by their ids. -/
inductive TypeData where
  | primitive (primitive : Primitive)
  | tuple (elems : List TypeId)
  | function (params : List TypeId) (result : TypeId)
  | sound (inner : TypeId)
deriving DecidableEq, Repr

namespace TypeData

def shape : TypeData → Shape
  | primitive _ => .primitive
  | tuple _ => .tuple
  | function .. => .function
  | sound _ => .sound

/-- The ids of the parts; those of a function start with its result. -/
def children : TypeData → List TypeId
  | primitive _ => []
  | tuple elems => elems
  | function params result => result :: params
  | sound inner => [inner]

end TypeData

/-- A type in full. -/
inductive Ty where
  | primitive (primitive : Primitive)
  | tuple (elems : List Ty)
  | function (params : List Ty) (result : Ty)
  | sound (inner : Ty)

namespace Ty

mutual

/-- The type as an annotation writes it.  The tuple of one element has a comma behind it. -/
def render : Ty → String
  | primitive p => p.name
  | tuple [t] => "(" ++ t.render ++ ",)"
  | tuple ts => "(" ++ renderList ts ++ ")"
  | function params result => "(" ++ renderList params ++ ") -> " ++ result.render
  | sound inner => "sound[" ++ inner.render ++ "]"

/-- Types with commas between them. -/
def renderList : List Ty → String
  | [] => ""
  | [t] => t.render
  | t :: ts => t.render ++ ", " ++ renderList ts

end

end Ty

end SoundLang
