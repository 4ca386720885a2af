import SoundLang.Proofs.Lexer.Orderly
import SoundLang.Proofs.Parse.Spans
import SoundLang.Proofs.Session.Turns
import SoundLang.Proofs.Types.Settled

/-! # Every annotation is found

The annotations of an item are those of its parameters, of its result, and of the declarations in its body, at any depth
(`Item.Annotated`).  `Item.annotations` finds all of them and nothing else (`Item.mem_annotations`), and in an item that
has been read they stand one behind the other (`Phrase.IsItem.annotationParts`).

Lowering the item goes through them in this order, and gives each its type, or the error of the first wrong one
(`Interner.Reachable.item_annotations_found`). -/

namespace SoundLang

open SpanTree

/-! ### What an item is annotated with -/

section
variable {α : Type} {type : TypeExpr α}

/-- A declaration in the statement has the annotation: the statement itself, one in a block, in the body of a loop or in
a branch. -/
inductive Stmt.Annotated : Stmt α → TypeExpr α → Prop
  | decl {note : α} {name : Name α} {type : TypeExpr α} {value : Expr α} :
      Annotated (.decl note name (some type) value) type
  | block {note : α} {stmts : List (Stmt α)} {s : Stmt α} {type : TypeExpr α} (hs : s ∈ stmts) (h : s.Annotated type) :
      Annotated (.block note stmts) type
  | whileStmt {note : α} {cond : Expr α} {body : Stmt α} {type : TypeExpr α} (h : body.Annotated type) :
      Annotated (.whileStmt note cond body) type
  | ifThen {note : α} {cond : Expr α} {yes : Stmt α} {type : TypeExpr α} (h : yes.Annotated type) :
      Annotated (.ifThen note cond yes) type
  | yes {note : α} {cond : Expr α} {yes no : Stmt α} {type : TypeExpr α} (h : yes.Annotated type) :
      Annotated (.ifElse note cond yes no) type
  | no {note : α} {cond : Expr α} {yes no : Stmt α} {type : TypeExpr α} (h : no.Annotated type) :
      Annotated (.ifElse note cond yes no) type

/-- A parameter, the result or a declaration in the item has the annotation. -/
inductive Item.Annotated : Item α → TypeExpr α → Prop
  | param {d : Definition α} {p : Param α} {type : TypeExpr α} (hp : p ∈ d.params) (h : p.type = some type) :
      Annotated (.definition d) type
  | result {d : Definition α} {type : TypeExpr α} (h : d.result = some type) : Annotated (.definition d) type
  | body {d : Definition α} {stmts : List (Stmt α)} {s : Stmt α} {type : TypeExpr α} (hd : d.body = .block stmts)
      (hs : s ∈ stmts) (h : s.Annotated type) : Annotated (.definition d) type
  | stmt {s : Stmt α} {type : TypeExpr α} (h : s.Annotated type) : Annotated (.stmt s) type

theorem Stmt.annotationsAll_eq (stmts : List (Stmt α)) :
    Stmt.annotationsAll stmts = stmts.flatMap Stmt.annotations := by
  induction stmts with
  | nil => rfl
  | cons s stmts ih => rw [annotationsAll, ih, List.flatMap_cons]

theorem Stmt.Annotated.mem {s : Stmt α} (h : s.Annotated type) : type ∈ s.annotations := by
  induction h with
  | decl => exact List.mem_singleton_self _
  | block hs _ ih =>
      rw [annotations, annotationsAll_eq]
      exact List.mem_flatMap.mpr ⟨_, hs, ih⟩
  | whileStmt _ ih | ifThen _ ih => exact ih
  | yes _ ih => exact List.mem_append_left _ ih
  | no _ ih => exact List.mem_append_right _ ih

mutual

theorem Stmt.annotated_of_mem : (s : Stmt α) → type ∈ s.annotations → s.Annotated type
  | .decl _ _ type' _, h => by
      obtain rfl : type' = some type := Option.mem_toList.mp h
      exact .decl
  | .block _ stmts, h => by
      obtain ⟨s, hs, hannotated⟩ := Stmt.annotated_of_memAll stmts h
      exact .block hs hannotated
  | .whileStmt _ _ body, h => .whileStmt (Stmt.annotated_of_mem body h)
  | .ifThen _ _ yes, h => .ifThen (Stmt.annotated_of_mem yes h)
  | .ifElse _ _ yes no, h => by
      obtain h | h := List.mem_append.mp h
      · exact .yes (Stmt.annotated_of_mem yes h)
      · exact .no (Stmt.annotated_of_mem no h)
  | .expr .., h | .breakStmt _, h | .continueStmt _, h | .returnStmt .., h => nomatch h

theorem Stmt.annotated_of_memAll : (stmts : List (Stmt α)) → type ∈ Stmt.annotationsAll stmts →
    ∃ s ∈ stmts, s.Annotated type
  | [], h => nomatch h
  | s :: stmts, h => by
      obtain h | h := List.mem_append.mp h
      · exact ⟨s, List.mem_cons_self, Stmt.annotated_of_mem s h⟩
      · obtain ⟨s', hs', hannotated⟩ := Stmt.annotated_of_memAll stmts h
        exact ⟨s', List.mem_cons_of_mem s hs', hannotated⟩

end

theorem Stmt.mem_annotations {s : Stmt α} : type ∈ s.annotations ↔ s.Annotated type :=
  ⟨s.annotated_of_mem, Annotated.mem⟩

end

theorem Lowering.mem_bodyAnnotations {b : Body Span} {type : TypeExpr Span} :
    type ∈ bodyAnnotations b ↔ ∃ stmts, b = .block stmts ∧ ∃ s ∈ stmts, s.Annotated type := by
  cases b with
  | value e => simp [bodyAnnotations]
  | block stmts => simp [bodyAnnotations, Stmt.annotationsAll_eq, Stmt.mem_annotations]

/-- The annotations of an item are those that something in it has. -/
theorem Item.mem_annotations {i : Item Span} {type : TypeExpr Span} : type ∈ i.annotations ↔ i.Annotated type := by
  constructor
  · intro h
    cases i with
    | stmt s => exact .stmt (Stmt.mem_annotations.mp h)
    | definition d =>
        rw [annotations, List.mem_append, List.mem_append] at h
        obtain (h | h) | h := h
        · obtain ⟨p, hp, hannotated⟩ := List.mem_filterMap.mp h
          exact .param hp hannotated
        · exact .result (Option.mem_toList.mp h)
        · obtain ⟨stmts, hd, s, hs, hannotated⟩ := Lowering.mem_bodyAnnotations.mp h
          exact .body hd hs hannotated
  · intro h
    cases h with
    | stmt h => exact Stmt.mem_annotations.mpr h
    | param hp h => exact List.mem_append_left _ (List.mem_append_left _ (List.mem_filterMap.mpr ⟨_, hp, h⟩))
    | result h => exact List.mem_append_left _ (List.mem_append_right _ (Option.mem_toList.mpr h))
    | body hd hs h => exact List.mem_append_right _ (Lowering.mem_bodyAnnotations.mpr ⟨_, hd, _, hs, h⟩)

/-! ### Where annotations stand -/

theorem TypeExpr.spans_span (t : TypeExpr Span) : t.spans.span = t.note := by
  cases t <;> rfl

theorem TypeExpr.map_spans_toList (t : Option (TypeExpr Span)) : t.toList.map TypeExpr.spans = TypeExpr.spansOf t := by
  cases t <;> rfl

/-- No tree at all is built from any tokens. -/
theorem SpanTree.parts_nil (ts : List Token) : Parts ts [] := by
  induction ts with
  | nil => exact .nil
  | cons t ts ih => exact .skip ih

theorem SpanTree.Parts.inFront {ts : List Token} {trees : List SpanTree} (h : Parts ts trees) (us : List Token) :
    Parts (ts ++ us) trees := by
  have := h.append (parts_nil us)
  rwa [List.append_nil] at this

theorem SpanTree.Parts.behind {us : List Token} {trees : List SpanTree} (h : Parts us trees) (ts : List Token) :
    Parts (ts ++ us) trees := (parts_nil ts).append h

namespace Phrase

theorem Annotation.annotationParts {ts : List Token} {type : Option (TypeExpr Span)} (h : Annotation spanOf ts type) :
    Parts ts (type.toList.map TypeExpr.spans) := by
  rw [TypeExpr.map_spans_toList]
  exact h.parts

mutual

theorem IsStmt.annotationParts : ∀ {ts : List Token} {s : Stmt Span}, IsStmt spanOf ts s →
    Parts ts (s.annotations.map TypeExpr.spans)
  | _, _, .decl hk hn ht hq he hs => by
      rw [Stmt.annotations]
      exact .skip (.skip (ht.annotationParts.inFront _))
  | _, _, .block ho h hc => .enclosed (Stmts.annotationParts h)
  | _, _, .whileStmt hk hc hb => by
      rw [Stmt.annotations]
      exact .skip ((IsStmt.annotationParts hb).behind _)
  | _, _, .ifThen hk hc hy => by
      rw [Stmt.annotations]
      exact .skip ((IsStmt.annotationParts hy).behind _)
  | _, _, .ifElse hk hc hy hclosed hl hn => by
      rw [Stmt.annotations, List.map_append]
      exact .skip (((IsStmt.annotationParts hy).around (IsStmt.annotationParts hn)).behind _)
  | _, _, .empty _ | _, _, .expr .. | _, _, .breakStmt .. | _, _, .continueStmt .. | _, _, .returnNone ..
  | _, _, .returnSome .. => parts_nil _

theorem Stmts.annotationParts : ∀ {ts : List Token} {stmts : List (Stmt Span)}, Stmts spanOf ts stmts →
    Parts ts ((Stmt.annotationsAll stmts).map TypeExpr.spans)
  | _, _, .nil => .nil
  | _, _, .cons h hs => by
      rw [Stmt.annotationsAll, List.map_append]
      exact (IsStmt.annotationParts h).append (Stmts.annotationParts hs)

end

theorem IsParam.annotationParts {ts : List Token} {p : Param Span} (h : IsParam spanOf ts p) :
    Parts ts (p.type.toList.map TypeExpr.spans) := by
  cases h with
  | mk hn ht => exact .skip ht.annotationParts

theorem ParamSeq.annotationParts {ts : List Token} {params : List (Param Span)} (h : ParamSeq spanOf ts params) :
    Parts ts ((params.filterMap (·.type)).map TypeExpr.spans) := by
  have hcons : ∀ (p : Param Span) (params : List (Param Span)),
      (p :: params).filterMap (·.type) = p.type.toList ++ params.filterMap (·.type) := by
    intro p params
    cases htype : p.type <;> simp [htype]
  induction h with
  | one h =>
      rw [hcons, List.filterMap_nil, List.append_nil]
      exact h.annotationParts
  | more h hc _ ih =>
      rw [hcons, List.map_append]
      exact h.annotationParts.around ih

theorem Params.annotationParts {ts : List Token} {params : List (Param Span)} (h : Params spanOf ts params) :
    Parts ts ((params.filterMap (·.type)).map TypeExpr.spans) := by
  cases h with
  | none => exact .nil
  | some h => exact h.annotationParts

theorem IsBody.annotationParts {ts : List Token} {b : Body Span} (h : IsBody spanOf ts b) :
    Parts ts ((Lowering.bodyAnnotations b).map TypeExpr.spans) := by
  cases h with
  | value hq h hs => exact parts_nil _
  | block ho h hc => exact .enclosed h.annotationParts

/-- The annotations of an item are made of parts of its tokens, one behind the other. -/
theorem IsItem.annotationParts {ts : List Token} {i : Item Span} (h : IsItem spanOf ts i) :
    Parts ts (i.annotations.map TypeExpr.spans) := by
  cases h with
  | stmt h => exact h.annotationParts
  | definition h =>
      cases h with
      | mk hk hn ho hp hc hr hb =>
          rw [Item.annotations, List.map_append, List.map_append, List.append_assoc]
          exact .skip (.skip (.skip (hp.annotationParts.around (hr.annotationParts.append hb.annotationParts))))

theorem Sentence.exists_item {ts : List Token} {items : List (Item Span)} {i : Item Span}
    (h : Sentence spanOf ts items) (hi : i ∈ items) : ∃ us : List Token, us.Sublist ts ∧ IsItem spanOf us i := by
  induction h with
  | nil => cases hi
  | @cons ts us first items h _ ih =>
      obtain rfl | hi := List.mem_cons.mp hi
      · exact ⟨ts, List.sublist_append_left ts us, h⟩
      · obtain ⟨vs, hsub, hitem⟩ := ih hi
        exact ⟨vs, hsub.trans (List.sublist_append_right ts us), hitem⟩

end Phrase

/-! ### Items that have been read -/

/-- The item is one of a program, or has been read from a lexer after any calls. -/
inductive Item.Parsed (i : Item Span) : Prop
  | program {text : String} (h : i ∈ (Program.parse text).items)
  | read {input : Input} {prompting : Prompting} {cs : List Lexer.Call}
      (h : (Grammar.read Grammar.item ((Lexer.opened input prompting).calls cs)).1 = .ok (some i))

/-- An item that has been read is made of tokens in reading order that were found on lines, none of which is empty. -/
theorem Item.Parsed.exists_tokens {i : Item Span} (h : i.Parsed) :
    ∃ ts : List Token, Phrase.IsItem spanOf ts i ∧ Ordered ts ∧ (∀ t ∈ ts, t.span.Solid) ∧
      ∀ t ∈ ts, ∃ line, Lexer.Scanned line (.ok t) := by
  cases h with
  | @program text hi =>
      obtain ⟨ts, us, hentries, hsentence⟩ := Program.exists_sentence text
      have horderly := Lexer.orderly_opened (.ofText text none) .off
      obtain ⟨hordered, hsolid⟩ := horderly.ordered hentries
      have hscanned := Lexer.tokensScanned_opened (.ofText text none) .off
      obtain ⟨vs, hsub, hitem⟩ := hsentence.exists_item hi
      refine ⟨vs, hitem, hordered.sublist hsub, fun t ht => hsolid t (hsub.subset ht), fun t ht => ?_⟩
      exact hscanned.of_mem_rest (hentries ▸ List.mem_append_left us (List.mem_map_of_mem (hsub.subset ht)))
  | @read input prompting cs hi =>
      have horderly := (Lexer.orderly_opened input prompting).calls cs
      have hscanned := (Lexer.tokensScanned_opened input prompting).calls cs
      generalize (Lexer.opened input prompting).calls cs = lx at hi horderly hscanned
      have hlength := lx.length_rest_le_pending
      have hbound : lx.rest.length ≤ lx.pending := by omega
      have houtcome := Session.readWithin_eq_outcome hbound
      rw [show (Grammar.readWithin lx.pending Grammar.item lx).1 = .ok (some i) from hi] at houtcome
      cases ho : Grammar.outcome Grammar.item lx.rest with
      | error stop us =>
          rw [ho] at houtcome
          cases stop <;> cases houtcome
      | ok o us =>
          rw [ho] at houtcome
          cases houtcome
          obtain ⟨ts, hrest, hitem⟩ := Grammar.spec_item ho
          obtain ⟨hordered, hsolid⟩ := horderly.ordered hrest
          refine ⟨ts, hitem, hordered, hsolid, fun t ht => ?_⟩
          exact hscanned.of_mem_rest (hrest ▸ List.mem_append_left _ (List.mem_map_of_mem ht))

theorem Ordered.solid_spanOf {ts : List Token} (h : Ordered ts) (hne : ts ≠ []) (hsolid : ∀ t ∈ ts, t.span.Solid) :
    (spanOf ts).Solid where
  le := h.spanOf_le hne
  ne := by
    intro heq
    obtain ⟨t, ht, hstart⟩ := exists_start hne
    have hstop := h.le_stop ht
    rw [← heq, hstart] at hstop
    exact (hsolid t ht).ne (Pos.le_antisymm (hsolid t ht).le hstop)

/-- The annotations of an item that has been read are not empty, and each ends before the next one starts. -/
theorem Item.Parsed.annotations_ordered {i : Item Span} (h : i.Parsed) :
    (∀ type ∈ i.annotations, type.note.Solid) ∧
      i.annotations.Pairwise fun a b => a.note.stop ≤ b.note.start := by
  obtain ⟨ts, hitem, hordered, hsolid, -⟩ := h.exists_tokens
  have hparts := hitem.annotationParts
  constructor
  · intro type htype
    obtain ⟨us, hsub, hbuilt⟩ := hparts.built_of_mem (List.mem_map_of_mem htype)
    rw [← type.spans_span, hbuilt.span_eq]
    exact (hordered.sublist hsub).solid_spanOf hbuilt.ne_nil fun t ht => hsolid t (hsub.subset ht)
  · have hpair := hparts.pairwise hordered
    rw [List.pairwise_map] at hpair
    refine hpair.imp fun {a b} hbefore => ?_
    rw [← a.spans_span, ← b.spans_span]
    exact hbefore

/-! ### What lowering finds in an item -/

namespace Interner

/-- Lowering an item that has been read, after any run.  The annotations of the item are those that something in it has;
none is empty, and each ends before the next one starts.  Lowering finds all of them in this order, each with the type
that the interner gives for it, and the function type if the parameters and the result are all annotated; or it gives
the error of the first annotation that is wrong; or it is refused because all ids of a shape are given away. -/
theorem Reachable.item_annotations_found {t : Interner} (ht : t.Reachable) {i : Item Span} (hi : i.Parsed) :
    (∀ type, type ∈ i.annotations ↔ i.Annotated type) ∧
    (∀ type ∈ i.annotations, type.note.Solid) ∧
    (i.annotations.Pairwise fun a b => a.note.stop ≤ b.note.start) ∧
    (∀ types u, Lowering.lowerItem i t = (.ok types, u) → types.Settled i u) ∧
    (∀ e u, Lowering.lowerItem i t = (.error (.error e), u) → u.FailsAt e i.annotations) ∧
    ∀ e u, Lowering.lowerItem i t = (.error (.refused e), u) →
      ∃ s, e = .full s ∧ TypeId.capacity ≤ (u.ofShape s).size := by
  have hlawful := ht.lawful
  have hinterns := Lowering.interns_item i
  obtain ⟨hsolid, hpairwise⟩ := hi.annotations_ordered
  refine ⟨fun type => Item.mem_annotations, hsolid, hpairwise, ?_, ?_, ?_⟩
  · intro types u hrun
    have hu := (hinterns.extends hlawful hrun).1
    exact (Lowering.judges_item i).found hlawful hrun hu (Extends.refl u)
  · intro e u hrun
    have hu := (hinterns.extends hlawful hrun).1
    exact (Lowering.judges_item i).failed hlawful hrun hu (Extends.refl u)
  · intro e u hrun
    have hends := (Lowering.ends_item hlawful i).2.2
    rw [show (Lowering.item i).run.run t = _ from hrun] at hends
    exact hends

/-- A definition with an annotation inside a loop, and a statement with a wrong one behind another. -/
def nested : String := "def f(a: int): str \x7b\n  while (a) let b: sound[int] = 1;\n\x7d\nif (a) let b: int = 1; else let c: x = 2;"

/-- All three annotations of the definition are found, and it has a function type.  The statement has two annotations,
and the second is wrong. -/
theorem item_annotations_found_nested :
    (∃ i ∈ (Program.parse nested).items, ∃ types u, Lowering.lowerItem i initial = (.ok types, u) ∧
      types.Settled i u ∧ i.annotations.length = 3 ∧ ∃ params result, i.Signed params result) ∧
    ∃ i ∈ (Program.parse nested).items, ∃ u : Interner, u.FailsAt (.unknownType "x" (.onLine 3 35 36)) i.annotations := by
  have hreachable : initial.Reachable := ⟨[], rfl⟩
  have houtcomes : (Program.parse nested).items.map (fun i => (Lowering.lowerItem i initial).1) =
      [.ok ⟨[(.onLine 0 9 12, Primitive.integer.id), (.onLine 0 15 18, Primitive.str.id),
          (.onLine 1 19 29, .ofParts .sound 0)], some (.ofParts .function 0)⟩,
        .error (.error (.unknownType "x" (.onLine 3 35 36)))] := by
    decide +kernel
  obtain ⟨i, rest, hitems, hi, houtcomes⟩ := List.map_eq_cons_iff.mp houtcomes
  obtain ⟨j, rest, rfl, hj, -⟩ := List.map_eq_cons_iff.mp houtcomes
  have himem : i ∈ (Program.parse nested).items := hitems ▸ List.mem_cons_self
  have hjmem : j ∈ (Program.parse nested).items := hitems ▸ List.mem_cons_of_mem i List.mem_cons_self
  constructor
  · have hsettled := (hreachable.item_annotations_found (.program himem)).2.2.2.1 _ _ (Prod.ext hi rfl)
    exact ⟨i, himem, _, _, Prod.ext hi rfl, hsettled, hsettled.located.length_eq, hsettled.isSome_iff.mp rfl⟩
  · have hfails := (hreachable.item_annotations_found (.program hjmem)).2.2.2.2.1 _ _ (Prod.ext hj rfl)
    exact ⟨j, hjmem, _, hfails⟩

end Interner

end SoundLang
