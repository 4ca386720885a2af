import SoundLang.Types.Flags

/-! # The interner

The interner stores each type once, one layer at a time, so that two of its ids are equal exactly when they
name equal types.  Types of one shape are kept together and never removed; a new type goes behind the others
of its shape, and the ids of its parts tell its place there. -/

namespace SoundLang

/-- A stored type. -/
structure Interner.Entry where
  data : TypeData
  flags : Flags
deriving DecidableEq, Repr

/-- The stored types of one shape. -/
structure Interner.Bucket where
  /-- The places of the types, by the ids of their parts. -/
  places : List (List TypeId × Nat)
  entries : Array Interner.Entry

namespace Interner.Bucket

def empty : Bucket := ⟨[], #[]⟩

/-- The number of stored types. -/
def size (b : Bucket) : Nat := b.entries.size

/-- The place of the type with the given parts. -/
def place? (b : Bucket) (parts : List TypeId) : Option Nat := b.places.lookup parts

/-- Stores an entry behind the others. -/
def push (b : Bucket) (e : Entry) : Bucket := ⟨(e.data.children, b.size) :: b.places, b.entries.push e⟩

end Interner.Bucket

/-- The stored types, by shape. -/
structure Interner where
  primitives : Interner.Bucket
  tuples : Interner.Bucket
  functions : Interner.Bucket
  sounds : Interner.Bucket

/-- Why a type cannot be stored. -/
inductive InternError where
  /-- There are as many types of the shape as ids can tell apart. -/
  | full (shape : Shape)
  /-- A part is named by an id that names nothing here. -/
  | foreign (id : TypeId)
deriving DecidableEq, Repr

namespace InternError

def message : InternError → String
  | full shape => s!"type interner bucket {shape.number} is full"
  | foreign id => s!"{id.render} does not name a type in this interner"

end InternError

namespace Interner

/-- A layer without parts, as it is stored. -/
def leaf (d : TypeData) : Entry := ⟨d, .compute d []⟩

/-- The interner of the primitive types and the empty tuple.  A primitive type has no parts that would tell its
place; its id is fixed. -/
def initial : Interner where
  primitives := ⟨[], (Primitive.all.map fun p => leaf (.primitive p)).toArray⟩
  tuples := Bucket.empty.push (leaf (.tuple []))
  functions := .empty
  sounds := .empty

/-- The stored types of a shape. -/
def ofShape (t : Interner) : Shape → Bucket
  | .primitive => t.primitives
  | .tuple => t.tuples
  | .function => t.functions
  | .sound => t.sounds

/-- Stores an entry behind the others of its shape. -/
def push (t : Interner) (e : Entry) : Interner :=
  match e.data.shape with
  | .primitive => { t with primitives := t.primitives.push e }
  | .tuple => { t with tuples := t.tuples.push e }
  | .function => { t with functions := t.functions.push e }
  | .sound => { t with sounds := t.sounds.push e }

/-- What an id names here. -/
def entry? (t : Interner) (id : TypeId) : Option Entry := do
  let shape ← Shape.ofNumber? id.shapeNumber
  (t.ofShape shape).entries[id.place]?

/-- The layer that an id names. -/
def get? (t : Interner) (id : TypeId) : Option TypeData := (t.entry? id).map (·.data)

/-- The flags of the type that an id names. -/
def flags? (t : Interner) (id : TypeId) : Option Flags := (t.entry? id).map (·.flags)

/-- The number of stored types. -/
def size (t : Interner) : Nat := t.primitives.size + t.tuples.size + t.functions.size + t.sounds.size

/-- Only the types that are there from the start are stored. -/
def isInitial (t : Interner) : Bool := t.size ≤ initial.size

/-- The id of a stored type. -/
def find? (t : Interner) (d : TypeData) : Option TypeId :=
  match d with
  | .primitive p => some p.id
  | _ => ((t.ofShape d.shape).place? d.children).map (.ofParts d.shape)

/-- The flags of the parts, or the first part that has none. -/
def partFlags (t : Interner) (parts : List TypeId) : Except InternError (List Flags) :=
  parts.mapM fun id => match t.flags? id with
    | some flags => .ok flags
    | none => .error (.foreign id)

/-- The id of a type, which is stored unless it is already. -/
def intern (t : Interner) (d : TypeData) : Except InternError (TypeId × Interner) :=
  match t.find? d with
  | some id => .ok (id, t)
  | none => do
    let parts ← t.partFlags d.children
    let place := (t.ofShape d.shape).size
    if place < TypeId.capacity then return (.ofParts d.shape place, t.push ⟨d, .compute d parts⟩)
    else throw (.full d.shape)

/-- The type that an id names, in full, if it is at most `depth` layers deep. -/
def expandWithin (t : Interner) : Nat → TypeId → Option Ty
  | 0, _ => none
  | depth + 1, id => do
    match ← t.get? id with
    | .primitive p => return .primitive p
    | .tuple elems => return .tuple (← elems.mapM (t.expandWithin depth))
    | .function params result =>
      return .function (← params.mapM (t.expandWithin depth)) (← t.expandWithin depth result)
    | .sound inner => return .sound (← t.expandWithin depth inner)

/-- The type that an id names, in full.  No type has more layers than there are stored types. -/
def expand? (t : Interner) (id : TypeId) : Option Ty := t.expandWithin (t.size + 1) id

/-- The text of the type that an id names. -/
def render? (t : Interner) (id : TypeId) : Option String := (t.expand? id).map Ty.render

end Interner

end SoundLang
