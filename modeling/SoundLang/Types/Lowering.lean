import SoundLang.Diagnostic
import SoundLang.Tree
import SoundLang.Types.Interner

/-! # Types of annotations

An annotation names a primitive type, a sound, or a tuple of types.  Lowering it stores its type and gives the
id; lowering an item does so for all its annotations in the order of the source, and gives a definition whose
parameters and result are all annotated its function type.  The first wrong annotation stops the lowering;
what was stored before stays. -/

namespace SoundLang

/-- What can be wrong with an annotation. -/
inductive TypeError where
  | unknownType (name : String) (span : Span)
  | wrongArity (name : String) (expected found : Nat) (span : Span)
deriving DecidableEq, Repr

namespace TypeError

def code : TypeError → Diagnostic.Code
  | unknownType .. => .unknownType
  | wrongArity .. => .wrongArity

def span : TypeError → Span
  | unknownType _ span | wrongArity _ _ _ span => span

def message : TypeError → String
  | unknownType name span => s!"unknown type `{name}` at {span.render}"
  | wrongArity name expected found span =>
    s!"type `{name}` takes {expected} type argument(s) but {found} were given at {span.render}"

def diagnostic (e : TypeError) : Diagnostic :=
  let d : Diagnostic := { code := e.code, message := e.message }
  match e with
  | unknownType _ span =>
    (d.mark span "not a known type").note
      "annotations name `bool`, `int`, `rational`, `float`, `str`, `sound[T]` or a tuple of types"
  | wrongArity name expected _ span =>
    if expected = 0 then (d.mark span "takes no type arguments").hint s!"write `{name}`"
    else (d.mark span s!"expected {expected} type argument(s)").hint s!"write `{name}[T]`"

end TypeError

/-- The types of an item. -/
structure ItemTypes where
  /-- Every annotation with its span, in the order of the source. -/
  annotations : List (Span × TypeId)
  /-- The function type of a definition that is annotated throughout. -/
  signature : Option TypeId
deriving DecidableEq, Repr

namespace Lowering

/-- Why a lowering has no result. -/
inductive Stop where
  | error (e : TypeError)
  /-- The interner did not take a type. -/
  | refused (e : InternError)
deriving DecidableEq, Repr

end Lowering

/-- A computation that stores types, and keeps those stored when it stops. -/
abbrev Lowering := ExceptT Lowering.Stop (StateM Interner)

namespace Lowering

/-- The word before the brackets of a sound type. -/
def soundWord : String := "sound"

/-- The id of a type, which is stored. -/
def intern (d : TypeData) : Lowering TypeId := do
  match (← get).intern d with
  | .ok (id, t) =>
    set t
    return id
  | .error e => throw (.refused e)

/-- The type of a name by itself. -/
def named (span : Span) (name : String) : Lowering TypeId :=
  match Primitive.ofName? name with
  | some p => return p.id
  | none =>
    if name = soundWord then throw (.error (.wrongArity name 1 0 span))
    else throw (.error (.unknownType name span))

mutual

/-- The type of an annotation. -/
def type : TypeExpr Span → Lowering TypeId
  | .named span name => named span name
  | .applied span name args =>
    let wrong (expected : Nat) : Stop := .error (.wrongArity name.text expected args.length span)
    match Primitive.ofName? name.text with
    | some p => if args.isEmpty then return p.id else throw (wrong 0)
    | none =>
      if name.text = soundWord then
        match args with
        | [inner] => do
          let inner ← type inner
          intern (.sound inner)
        | _ => throw (wrong 1)
      else throw (.error (.unknownType name.text name.note))
  | .tuple _ elems => do
    let ids ← types elems
    intern (.tuple ids)

/-- The types of annotations, in order. -/
def types : List (TypeExpr Span) → Lowering (List TypeId)
  | [] => return []
  | t :: ts => do
    let id ← type t
    let ids ← types ts
    return id :: ids

end

/-- Annotations with their types. -/
def annotations (ts : List (TypeExpr Span)) : Lowering (List (Span × TypeId)) := do
  let ids ← types ts
  return (ts.map (·.note)).zip ids

end Lowering

mutual

/-- The annotations in a statement, in the order of the source. -/
def Stmt.annotations {α : Type} : Stmt α → List (TypeExpr α)
  | .decl _ _ type _ => type.toList
  | .block _ stmts => Stmt.annotationsAll stmts
  | .whileStmt _ _ body => body.annotations
  | .ifThen _ _ yes => yes.annotations
  | .ifElse _ _ yes no => yes.annotations ++ no.annotations
  | .expr .. | .breakStmt _ | .continueStmt _ | .returnStmt .. => []

/-- The annotations in statements, in the order of the source. -/
def Stmt.annotationsAll {α : Type} : List (Stmt α) → List (TypeExpr α)
  | [] => []
  | s :: ss => s.annotations ++ Stmt.annotationsAll ss

end

namespace Lowering

/-- The function type of a definition, from the types of its annotated parameters and result. -/
def signature (d : Definition Span) (params result : List (Span × TypeId)) : Lowering (Option TypeId) :=
  match result with
  | [(_, result)] =>
    if d.params.all (·.type.isSome) then some <$> intern (.function (params.map (·.2)) result)
    else return none
  | _ => return none

/-- The annotations in the body of a definition. -/
def bodyAnnotations : Body Span → List (TypeExpr Span)
  | .value _ => []
  | .block stmts => Stmt.annotationsAll stmts

/-- The types of an item. -/
def item : Item Span → Lowering ItemTypes
  | .stmt s => do
    let annotations ← annotations s.annotations
    return ⟨annotations, none⟩
  | .definition d => do
    let params ← annotations (d.params.filterMap (·.type))
    let result ← annotations d.result.toList
    let signature ← signature d params result
    let body ← annotations (bodyAnnotations d.body)
    return ⟨params ++ result ++ body, signature⟩

/-- The types of an item, and the interner after the attempt. -/
def lowerItem (i : Item Span) (t : Interner) : Except Stop ItemTypes × Interner := (item i).run.run t

end Lowering

end SoundLang
