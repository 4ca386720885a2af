import SoundLang.Proofs.Source.Down
import SoundLang.Proofs.Types.Lowering

/-! # Lowering does not depend on where a text stands

Lowering looks at the names and shapes of annotations and passes their places on.  So an item that stands `k` lines
further down has the same types, which stand `k` lines further down, or the same error there, and the same is stored
(`Lowering.lowerItem_down`). -/

namespace SoundLang

open Placed (down)

instance : Placed TypeId := ⟨fun _ id => id⟩

@[simp] theorem down_ids (k : Nat) (ids : List TypeId) : down k ids = ids := List.map_id ids

instance : Placed TypeError := ⟨fun k e =>
  match e with
  | .unknownType name span => .unknownType name (down k span)
  | .wrongArity name expected found span => .wrongArity name expected found (down k span)⟩

instance : Placed ItemTypes := ⟨fun k types => ⟨down k types.annotations, down k types.signature⟩⟩

instance Lowering.placedStop : Placed Lowering.Stop := ⟨fun k stop =>
  match stop with
  | .error e => .error (down k e)
  | .refused e => .refused e⟩

/-! ### The annotations of a tree -/

section
variable {α β : Type} (f : α → β)

mutual

theorem Stmt.annotations_map : ∀ s : Stmt α, (s.map f).annotations = s.annotations.map (TypeExpr.map f)
  | .decl _ _ type _ => by cases type <;> rfl
  | .block _ stmts => Stmt.annotationsAll_mapAll stmts
  | .whileStmt _ _ body => body.annotations_map
  | .ifThen _ _ yes => yes.annotations_map
  | .ifElse _ _ yes no => by
      simp only [Stmt.map, Stmt.annotations, List.map_append, yes.annotations_map, no.annotations_map]
  | .expr .. | .breakStmt _ | .continueStmt _ | .returnStmt .. => rfl

theorem Stmt.annotationsAll_mapAll : ∀ stmts : List (Stmt α),
    Stmt.annotationsAll (Stmt.mapAll f stmts) = (Stmt.annotationsAll stmts).map (TypeExpr.map f)
  | [] => rfl
  | s :: stmts => by
      simp only [Stmt.mapAll, Stmt.annotationsAll, List.map_append, s.annotations_map,
        Stmt.annotationsAll_mapAll stmts]

end

end

namespace Lowering

theorem bodyAnnotations_down (k : Nat) (b : Body Span) : bodyAnnotations (down k b) = down k (bodyAnnotations b) := by
  cases b with
  | value e => rfl
  | block stmts => exact Stmt.annotationsAll_mapAll (down k) stmts

/-! ### One step after the other -/

variable {α β : Type} [Placed α] [Placed β] {k : Nat}

/-- The second computation does what the first does, `k` lines further down. -/
def Shifts (k : Nat) (m m' : Lowering α) : Prop :=
  ∀ t, m'.run.run t = (down k (m.run.run t).1, (m.run.run t).2)

theorem shifts_pure (a : α) : Shifts k (pure a) (pure (down k a)) := fun _ => rfl

theorem shifts_throw (e : Stop) : Shifts k (throw e : Lowering α) (throw (down k e)) := fun _ => rfl

theorem shifts_intern (d : TypeData) : Shifts k (intern d) (intern d) := by
  intro t
  rw [run_intern]
  cases t.intern d <;> rfl

theorem Shifts.bind {m m' : Lowering β} {f f' : β → Lowering α} (hm : Shifts k m m')
    (hf : ∀ b, Shifts k (f b) (f' (down k b))) : Shifts k (m >>= f) (m' >>= f') := by
  intro t
  rw [run_bind, run_bind, hm t]
  rcases m.run.run t with ⟨e | b, u⟩
  · rfl
  · exact hf b u

theorem shifts_named (span : Span) (name : String) : Shifts k (named span name) (named (down k span) name) := by
  unfold named
  split
  · exact shifts_pure _
  · split <;> exact shifts_throw _

mutual

theorem shifts_type : ∀ type : TypeExpr Span, Shifts k (Lowering.type type) (Lowering.type (down k type))
  | .named span name => by
      rw [Lowering.type]
      exact shifts_named span name
  | .applied span name args => by
      rw [TypeExpr.down_applied]
      unfold Lowering.type
      rw [show (down k name).text = name.text from rfl, length_down, isEmpty_down]
      split
      · split
        · exact shifts_pure _
        · exact shifts_throw _
      · split
        · match args with
          | [] => exact shifts_throw _
          | [inner] => exact (shifts_type inner).bind fun id => shifts_intern (.sound id)
          | _ :: _ :: _ =>
              simp only [down_cons]
              exact shifts_throw _
        · exact shifts_throw _
  | .tuple _ elems => by
      rw [TypeExpr.down_tuple, Lowering.type, Lowering.type]
      exact (shifts_types elems).bind fun ids => (down_ids k ids).symm ▸ shifts_intern (.tuple ids)

theorem shifts_types : ∀ types : List (TypeExpr Span), Shifts k (Lowering.types types) (Lowering.types (down k types))
  | [] => by
      rw [down_nil, Lowering.types]
      exact shifts_pure []
  | type :: types => by
      rw [down_cons, Lowering.types, Lowering.types]
      exact (shifts_type type).bind fun id => (shifts_types types).bind fun ids => shifts_pure (id :: ids)

end

theorem zip_down (types : List (TypeExpr Span)) (ids : List TypeId) :
    ((down k types).map (·.note)).zip ids = down k ((types.map (·.note)).zip ids) := by
  have hnotes : (down k types).map (·.note) = (types.map (·.note)).map (down k) := by
    rw [List.map_map]
    exact (List.map_map).trans (List.map_congr_left fun type _ => TypeExpr.note_down k type)
  rw [hnotes, List.zip_map_left]
  rfl

theorem shifts_annotations (types : List (TypeExpr Span)) :
    Shifts k (annotations types) (annotations (down k types)) := by
  refine (shifts_types types).bind fun ids => ?_
  rw [down_ids, zip_down]
  exact shifts_pure _

theorem shifts_signature (d : Definition Span) (params result : List (Span × TypeId)) :
    Shifts k (signature d params result) (signature (down k d) (down k params) (down k result)) := by
  have hall : (down k d).params.all (·.type.isSome) = d.params.all (·.type.isSome) := by
    change (d.params.map (down k)).all _ = _
    rw [List.all_map]
    exact congrArg (d.params.all ·) (funext fun p => Option.isSome_map)
  have hids : (down k params).map (·.2) = params.map (·.2) := List.map_map
  unfold signature
  rw [hall, hids]
  match result with
  | [] | _ :: _ :: _ => exact shifts_pure none
  | [(_, result)] =>
      simp only [down_cons, down_nil, down_pair]
      split
      · rw [map_eq_pure_bind, map_eq_pure_bind]
        exact (shifts_intern _).bind fun id => shifts_pure (some id)
      · exact shifts_pure none

theorem shifts_item (i : Item Span) : Shifts k (item i) (item (down k i)) := by
  cases i with
  | stmt s =>
      have hs : (down k s).annotations = down k s.annotations := Stmt.annotations_map (down k) s
      change Shifts k (annotations s.annotations >>= fun as => pure (ItemTypes.mk as none))
        (annotations (down k s).annotations >>= fun as => pure (ItemTypes.mk as none))
      rw [hs]
      exact (shifts_annotations s.annotations).bind fun as => shifts_pure (ItemTypes.mk as none)
  | definition d =>
      have hparams : (down k d).params.filterMap (·.type) = down k (d.params.filterMap (·.type)) := by
        change (d.params.map (down k)).filterMap (·.type) = (d.params.filterMap (·.type)).map (down k)
        rw [List.filterMap_map, List.map_filterMap]
        rfl
      have hresult : (down k d).result.toList = down k d.result.toList := by
        change (d.result.map (down k)).toList = _
        cases d.result <;> rfl
      change Shifts k (item (.definition d)) (item (.definition (down k d)))
      unfold item
      simp only [hparams, hresult, show (down k d).body = down k d.body from rfl, bodyAnnotations_down]
      refine (shifts_annotations _).bind fun params => (shifts_annotations _).bind fun result =>
        (shifts_signature d params result).bind fun signature => (shifts_annotations _).bind fun body => ?_
      rw [← down_append, ← down_append]
      exact shifts_pure (ItemTypes.mk (params ++ result ++ body) signature)

/-- An item further down has the same types further down, and the same is stored. -/
theorem lowerItem_down (i : Item Span) (t : Interner) :
    lowerItem (down k i) t = (down k (lowerItem i t).1, (lowerItem i t).2) :=
  shifts_item i t

end Lowering

end SoundLang
