import SoundLang.Proofs.Parse.Phrase

/-! # Plain trees

A tree without its annotations is `Item.plain`, a tree whose notes are all the same.  Phrases do not depend on
annotations: when the notes of a tree are changed by `f`, what was a phrase for `note` is one for `f ∘ note`
(`Sentence.map`), and every phrase for `f ∘ note` comes from one for `note` (`Sentence.lift`). -/

namespace SoundLang

variable {α β : Type} (f : α → β)

/-! ### Changing the annotations of a tree -/

def Name.map (n : Name α) : Name β := ⟨n.text, f n.note⟩

mutual

def TypeExpr.map : TypeExpr α → TypeExpr β
  | .named n name => .named (f n) name
  | .applied n name args => .applied (f n) (name.map f) (TypeExpr.mapAll args)
  | .tuple n elems => .tuple (f n) (TypeExpr.mapAll elems)

def TypeExpr.mapAll : List (TypeExpr α) → List (TypeExpr β)
  | [] => []
  | t :: types => t.map :: TypeExpr.mapAll types

end

mutual

def Expr.map : Expr α → Expr β
  | .name n text => .name (f n) text
  | .number n text => .number (f n) text
  | .string n value => .string (f n) value
  | .call n callee args => .call (f n) callee.map (Expr.mapAll args)
  | .unary n op operand => .unary (f n) op operand.map
  | .binary n op left right => .binary (f n) op left.map right.map
  | .index n base i => .index (f n) base.map i.map
  | .list n items => .list (f n) (Expr.mapAll items)
  | .tuple n items => .tuple (f n) (Expr.mapAll items)
  | .group n inner => .group (f n) inner.map

def Expr.mapAll : List (Expr α) → List (Expr β)
  | [] => []
  | e :: es => e.map :: Expr.mapAll es

end

mutual

def Stmt.map : Stmt α → Stmt β
  | .expr n value => .expr (f n) (value.map (Expr.map f))
  | .decl n name type value => .decl (f n) (name.map f) (type.map (TypeExpr.map f)) (value.map f)
  | .breakStmt n => .breakStmt (f n)
  | .continueStmt n => .continueStmt (f n)
  | .returnStmt n value => .returnStmt (f n) (value.map (Expr.map f))
  | .block n stmts => .block (f n) (Stmt.mapAll stmts)
  | .whileStmt n cond body => .whileStmt (f n) (cond.map f) body.map
  | .ifThen n cond yes => .ifThen (f n) (cond.map f) yes.map
  | .ifElse n cond yes no => .ifElse (f n) (cond.map f) yes.map no.map

def Stmt.mapAll : List (Stmt α) → List (Stmt β)
  | [] => []
  | s :: stmts => s.map :: Stmt.mapAll stmts

end

def Param.map (p : Param α) : Param β := ⟨f p.note, p.name.map f, p.type.map (TypeExpr.map f)⟩

def Body.map : Body α → Body β
  | .value e => .value (e.map f)
  | .block stmts => .block (Stmt.mapAll f stmts)

def Definition.map (d : Definition α) : Definition β :=
  ⟨f d.note, d.name.map f, d.params.map (Param.map f), d.result.map (TypeExpr.map f), d.body.map f⟩

def Item.map : Item α → Item β
  | .stmt s => .stmt (s.map f)
  | .definition d => .definition (d.map f)

/-- The item without annotations. -/
def Item.plain : Item α → Item Unit := Item.map fun _ => ()

theorem Expr.length_mapAll (es : List (Expr α)) : (Expr.mapAll f es).length = es.length := by
  induction es with
  | nil => rfl
  | cons e es ih => simp [Expr.mapAll, ih]

theorem Expr.mapAll_eq_singleton {es : List (Expr α)} {e' : Expr β} (h : Expr.mapAll f es = [e']) :
    ∃ e, es = [e] ∧ e.map f = e' := by
  match es, h with
  | [e], h =>
      simp only [Expr.mapAll, List.cons.injEq, and_true] at h
      exact ⟨e, rfl, h⟩

theorem Stmt.endsInIf_map : ∀ s : Stmt α, (s.map f).endsInIf = s.endsInIf
  | .expr .. | .decl .. | .breakStmt .. | .continueStmt .. | .returnStmt .. | .block .. | .ifThen .. => by
      simp only [Stmt.map, Stmt.endsInIf]
  | .whileStmt _ _ body => by
      simp only [Stmt.map, Stmt.endsInIf]
      exact body.endsInIf_map
  | .ifElse _ _ _ no => by
      simp only [Stmt.map, Stmt.endsInIf]
      exact no.endsInIf_map

namespace Phrase

variable {note : List Token → α}

/-! ### Phrases under a change of annotations -/

mutual

theorem IsType.map : ∀ {ts : List Token} {t : TypeExpr α}, IsType note ts t →
    IsType (f ∘ note) ts (t.map f)
  | _, _, .named hn => .named hn
  | _, _, .applied hn ho ht hc => .applied hn ho ht.map hc
  | _, _, .tuple ho ht hc => .tuple ho ht.map hc

theorem Types.map : ∀ {ts : List Token} {types : List (TypeExpr α)}, Types note ts types →
    Types (f ∘ note) ts (TypeExpr.mapAll f types)
  | _, _, .none => .none
  | _, _, .some h => .some h.map

theorem TypeSeq.map : ∀ {ts : List Token} {types : List (TypeExpr α)}, TypeSeq note ts types →
    TypeSeq (f ∘ note) ts (TypeExpr.mapAll f types)
  | _, _, .one h => .one h.map
  | _, _, .more h hc hs => .more h.map hc hs.map

end

theorem Annotation.map {ts : List Token} {type : Option (TypeExpr α)} (h : Annotation note ts type) :
    Annotation (f ∘ note) ts (type.map (TypeExpr.map f)) := by
  cases h with
  | none => exact .none
  | some hc h => exact .some hc (h.map f)

mutual

theorem Operand.map : ∀ {ts : List Token} {e : Expr α}, Operand note ts e →
    Operand (f ∘ note) ts (e.map f)
  | _, _, .name ht => .name ht
  | _, _, .number ht => .number ht
  | _, _, .string ht => .string ht
  | _, _, .group ho h hc => .group ho h.map hc
  | _, _, .tuple ho h hc hne => .tuple ho h.map hc (by rwa [Expr.length_mapAll])
  | _, _, .list ho h hc => .list ho h.map hc
  | _, _, .suffix h ht => .suffix h.map ht
  | _, _, .call h ho ha hc => .call h.map ho ha.map hc
  | _, _, .index h ho hi hc => .index h.map ho hi.map hc

theorem Factor.map : ∀ {ts : List Token} {e : Expr α}, Factor note ts e →
    Factor (f ∘ note) ts (e.map f)
  | _, _, .operand h => .operand h.map
  | _, _, .prefixed ht h => .prefixed ht h.map

theorem Layer.map : ∀ {n : Nat} {ts : List Token} {e : Expr α}, Layer note n ts e →
    Layer (f ∘ note) n ts (e.map f)
  | _, _, _, .factor h => .factor h.map
  | _, _, _, .tighter h => .tighter h.map
  | _, _, _, .left hn hl ht hop hr => .left hn hl.map ht hop hr.map
  | _, _, _, .right hn hl ht hop hr => .right hn hl.map ht hop hr.map

theorem Items.map : ∀ {ts : List Token} {es : List (Expr α)} {trailing : Bool},
    Items note ts es trailing → Items (f ∘ note) ts (Expr.mapAll f es) trailing
  | _, _, _, .none => .none
  | _, _, _, .plain h => .plain h.map
  | _, _, _, .trailing h hc => .trailing h.map hc

theorem ItemSeq.map : ∀ {ts : List Token} {es : List (Expr α)}, ItemSeq note ts es →
    ItemSeq (f ∘ note) ts (Expr.mapAll f es)
  | _, _, .one h => .one h.map
  | _, _, .more h hc hs => .more h.map hc hs.map

end

theorem Condition.map {ts : List Token} {e : Expr α} (h : Condition note ts e) :
    Condition (f ∘ note) ts (e.map f) := by
  cases h with
  | mk ho h hc => exact .mk ho (h.map f) hc

mutual

theorem IsStmt.map : ∀ {ts : List Token} {s : Stmt α}, IsStmt note ts s →
    IsStmt (f ∘ note) ts (s.map f)
  | _, _, .empty hs => .empty hs
  | _, _, .expr h hs => .expr (h.map f) hs
  | _, _, .decl hk hn ht hq he hs => .decl hk hn (ht.map f) hq (he.map f) hs
  | _, _, .breakStmt hk hs => .breakStmt hk hs
  | _, _, .continueStmt hk hs => .continueStmt hk hs
  | _, _, .returnNone hk hs => .returnNone hk hs
  | _, _, .returnSome hk he hs => .returnSome hk (he.map f) hs
  | _, _, .block ho h hc => .block ho h.map hc
  | _, _, .whileStmt hk hc hb => .whileStmt hk (hc.map f) hb.map
  | _, _, .ifThen hk hc hy => .ifThen hk (hc.map f) hy.map
  | _, _, .ifElse hk hc hy hclosed hl hn =>
      .ifElse hk (hc.map f) hy.map (by rwa [Stmt.endsInIf_map]) hl hn.map

theorem Stmts.map : ∀ {ts : List Token} {stmts : List (Stmt α)}, Stmts note ts stmts →
    Stmts (f ∘ note) ts (Stmt.mapAll f stmts)
  | _, _, .nil => .nil
  | _, _, .cons h hs => .cons h.map hs.map

end

theorem IsParam.map {ts : List Token} {p : Param α} (h : IsParam note ts p) :
    IsParam (f ∘ note) ts (p.map f) := by
  cases h with
  | mk hn ht => exact .mk hn (ht.map f)

theorem ParamSeq.map {ts : List Token} {params : List (Param α)} (h : ParamSeq note ts params) :
    ParamSeq (f ∘ note) ts (params.map (Param.map f)) := by
  induction h with
  | one h => exact .one (h.map f)
  | more h hc _ ih => exact .more (h.map f) hc ih

theorem Params.map {ts : List Token} {params : List (Param α)} (h : Params note ts params) :
    Params (f ∘ note) ts (params.map (Param.map f)) := by
  cases h with
  | none => exact .none
  | some h => exact .some (h.map f)

theorem IsBody.map {ts : List Token} {b : Body α} (h : IsBody note ts b) :
    IsBody (f ∘ note) ts (b.map f) := by
  cases h with
  | value hq h hs => exact .value hq (h.map f) hs
  | block ho h hc => exact .block ho (h.map f) hc

theorem IsItem.map {ts : List Token} {i : Item α} (h : IsItem note ts i) :
    IsItem (f ∘ note) ts (i.map f) := by
  cases h with
  | stmt h => exact .stmt (h.map f)
  | definition h =>
      cases h with
      | mk hk hn ho hp hc hr hb =>
          exact .definition (.mk hk hn ho (hp.map f) hc (hr.map f) (hb.map f))

/-- A sentence stays one when its annotations are changed. -/
theorem Sentence.map {ts : List Token} {items : List (Item α)} (h : Sentence note ts items) :
    Sentence (f ∘ note) ts (items.map (Item.map f)) := by
  induction h with
  | nil => exact .nil
  | cons h _ ih => exact .cons (h.map f) ih

/-! ### Annotations for a phrase without them -/

variable {f}

mutual

theorem IsType.lift : ∀ {ts : List Token} {t' : TypeExpr β}, IsType (f ∘ note) ts t' →
    ∃ t, IsType note ts t ∧ t.map f = t'
  | _, _, .named hn => ⟨_, .named hn, rfl⟩
  | _, _, .applied hn ho ht hc => by
      obtain ⟨args, ht', rfl⟩ := ht.lift
      exact ⟨_, .applied hn ho ht' hc, rfl⟩
  | _, _, .tuple ho ht hc => by
      obtain ⟨elems, ht', rfl⟩ := ht.lift
      exact ⟨_, .tuple ho ht' hc, rfl⟩

theorem Types.lift : ∀ {ts : List Token} {types' : List (TypeExpr β)}, Types (f ∘ note) ts types' →
    ∃ types, Types note ts types ∧ TypeExpr.mapAll f types = types'
  | _, _, .none => ⟨[], .none, rfl⟩
  | _, _, .some h => by
      obtain ⟨types, h', rfl⟩ := h.lift
      exact ⟨types, .some h', rfl⟩

theorem TypeSeq.lift : ∀ {ts : List Token} {types' : List (TypeExpr β)},
    TypeSeq (f ∘ note) ts types' → ∃ types, TypeSeq note ts types ∧ TypeExpr.mapAll f types = types'
  | _, _, .one h => by
      obtain ⟨t, h', rfl⟩ := h.lift
      exact ⟨[t], .one h', rfl⟩
  | _, _, .more h hc hs => by
      obtain ⟨t, h', rfl⟩ := h.lift
      obtain ⟨types, hs', rfl⟩ := hs.lift
      exact ⟨t :: types, .more h' hc hs', rfl⟩

end

theorem Annotation.lift {ts : List Token} {type' : Option (TypeExpr β)}
    (h : Annotation (f ∘ note) ts type') :
    ∃ type, Annotation note ts type ∧ type.map (TypeExpr.map f) = type' := by
  cases h with
  | none => exact ⟨_, .none, rfl⟩
  | some hc h =>
      obtain ⟨t, h', rfl⟩ := h.lift
      exact ⟨_, .some hc h', rfl⟩

mutual

theorem Operand.lift : ∀ {ts : List Token} {e' : Expr β}, Operand (f ∘ note) ts e' →
    ∃ e, Operand note ts e ∧ e.map f = e'
  | _, _, .name ht => ⟨_, .name ht, rfl⟩
  | _, _, .number ht => ⟨_, .number ht, rfl⟩
  | _, _, .string ht => ⟨_, .string ht, rfl⟩
  | _, _, .group ho h hc => by
      obtain ⟨es, h', hes⟩ := h.lift
      obtain ⟨e, rfl, rfl⟩ := Expr.mapAll_eq_singleton f hes
      exact ⟨_, .group ho h' hc, rfl⟩
  | _, _, .tuple ho h hc hne => by
      obtain ⟨es, h', rfl⟩ := h.lift
      exact ⟨_, .tuple ho h' hc (by rwa [Expr.length_mapAll] at hne), rfl⟩
  | _, _, .list ho h hc => by
      obtain ⟨es, h', rfl⟩ := h.lift
      exact ⟨_, .list ho h' hc, rfl⟩
  | _, _, .suffix h ht => by
      obtain ⟨e, h', rfl⟩ := h.lift
      exact ⟨_, .suffix h' ht, rfl⟩
  | _, _, .call h ho ha hc => by
      obtain ⟨callee, h', rfl⟩ := h.lift
      obtain ⟨args, ha', rfl⟩ := ha.lift
      exact ⟨_, .call h' ho ha' hc, rfl⟩
  | _, _, .index h ho hi hc => by
      obtain ⟨base, h', rfl⟩ := h.lift
      obtain ⟨es, hi', hes⟩ := hi.lift
      obtain ⟨i, rfl, rfl⟩ := Expr.mapAll_eq_singleton f hes
      exact ⟨_, .index h' ho hi' hc, rfl⟩

theorem Factor.lift : ∀ {ts : List Token} {e' : Expr β}, Factor (f ∘ note) ts e' →
    ∃ e, Factor note ts e ∧ e.map f = e'
  | _, _, .operand h => by
      obtain ⟨e, h', rfl⟩ := h.lift
      exact ⟨e, .operand h', rfl⟩
  | _, _, .prefixed ht h => by
      obtain ⟨e, h', rfl⟩ := h.lift
      exact ⟨_, .prefixed ht h', rfl⟩

theorem Layer.lift : ∀ {n : Nat} {ts : List Token} {e' : Expr β}, Layer (f ∘ note) n ts e' →
    ∃ e, Layer note n ts e ∧ e.map f = e'
  | _, _, _, .factor h => by
      obtain ⟨e, h', rfl⟩ := h.lift
      exact ⟨e, .factor h', rfl⟩
  | _, _, _, .tighter h => by
      obtain ⟨e, h', rfl⟩ := h.lift
      exact ⟨e, .tighter h', rfl⟩
  | _, _, _, .left hn hl ht hop hr => by
      obtain ⟨l, hl', rfl⟩ := hl.lift
      obtain ⟨r, hr', rfl⟩ := hr.lift
      exact ⟨_, .left hn hl' ht hop hr', rfl⟩
  | _, _, _, .right hn hl ht hop hr => by
      obtain ⟨l, hl', rfl⟩ := hl.lift
      obtain ⟨r, hr', rfl⟩ := hr.lift
      exact ⟨_, .right hn hl' ht hop hr', rfl⟩

theorem Items.lift : ∀ {ts : List Token} {es' : List (Expr β)} {trailing : Bool},
    Items (f ∘ note) ts es' trailing → ∃ es, Items note ts es trailing ∧ Expr.mapAll f es = es'
  | _, _, _, .none => ⟨[], .none, rfl⟩
  | _, _, _, .plain h => by
      obtain ⟨es, h', rfl⟩ := h.lift
      exact ⟨es, .plain h', rfl⟩
  | _, _, _, .trailing h hc => by
      obtain ⟨es, h', rfl⟩ := h.lift
      exact ⟨es, .trailing h' hc, rfl⟩

theorem ItemSeq.lift : ∀ {ts : List Token} {es' : List (Expr β)}, ItemSeq (f ∘ note) ts es' →
    ∃ es, ItemSeq note ts es ∧ Expr.mapAll f es = es'
  | _, _, .one h => by
      obtain ⟨e, h', rfl⟩ := h.lift
      exact ⟨[e], .one h', rfl⟩
  | _, _, .more h hc hs => by
      obtain ⟨e, h', rfl⟩ := h.lift
      obtain ⟨es, hs', rfl⟩ := hs.lift
      exact ⟨e :: es, .more h' hc hs', rfl⟩

end

theorem Condition.lift {ts : List Token} {e' : Expr β} (h : Condition (f ∘ note) ts e') :
    ∃ e, Condition note ts e ∧ e.map f = e' := by
  cases h with
  | mk ho h hc =>
      obtain ⟨e, h', rfl⟩ := h.lift
      exact ⟨e, .mk ho h' hc, rfl⟩

mutual

theorem IsStmt.lift : ∀ {ts : List Token} {s' : Stmt β}, IsStmt (f ∘ note) ts s' →
    ∃ s, IsStmt note ts s ∧ s.map f = s'
  | _, _, .empty hs => ⟨_, .empty hs, rfl⟩
  | _, _, .expr h hs => by
      obtain ⟨e, h', rfl⟩ := h.lift
      exact ⟨_, .expr h' hs, rfl⟩
  | _, _, .decl hk hn ht hq he hs => by
      obtain ⟨type, ht', rfl⟩ := ht.lift
      obtain ⟨e, he', rfl⟩ := he.lift
      exact ⟨_, .decl hk hn ht' hq he' hs, rfl⟩
  | _, _, .breakStmt hk hs => ⟨_, .breakStmt hk hs, rfl⟩
  | _, _, .continueStmt hk hs => ⟨_, .continueStmt hk hs, rfl⟩
  | _, _, .returnNone hk hs => ⟨_, .returnNone hk hs, rfl⟩
  | _, _, .returnSome hk he hs => by
      obtain ⟨e, he', rfl⟩ := he.lift
      exact ⟨_, .returnSome hk he' hs, rfl⟩
  | _, _, .block ho h hc => by
      obtain ⟨stmts, h', rfl⟩ := h.lift
      exact ⟨_, .block ho h' hc, rfl⟩
  | _, _, .whileStmt hk hc hb => by
      obtain ⟨cond, hc', rfl⟩ := hc.lift
      obtain ⟨body, hb', rfl⟩ := hb.lift
      exact ⟨_, .whileStmt hk hc' hb', rfl⟩
  | _, _, .ifThen hk hc hy => by
      obtain ⟨cond, hc', rfl⟩ := hc.lift
      obtain ⟨yes, hy', rfl⟩ := hy.lift
      exact ⟨_, .ifThen hk hc' hy', rfl⟩
  | _, _, .ifElse hk hc hy hclosed hl hn => by
      obtain ⟨cond, hc', rfl⟩ := hc.lift
      obtain ⟨yes, hy', rfl⟩ := hy.lift
      obtain ⟨no, hn', rfl⟩ := hn.lift
      rw [Stmt.endsInIf_map] at hclosed
      exact ⟨_, .ifElse hk hc' hy' hclosed hl hn', rfl⟩

theorem Stmts.lift : ∀ {ts : List Token} {stmts' : List (Stmt β)}, Stmts (f ∘ note) ts stmts' →
    ∃ stmts, Stmts note ts stmts ∧ Stmt.mapAll f stmts = stmts'
  | _, _, .nil => ⟨[], .nil, rfl⟩
  | _, _, .cons h hs => by
      obtain ⟨s, h', rfl⟩ := h.lift
      obtain ⟨stmts, hs', rfl⟩ := hs.lift
      exact ⟨s :: stmts, .cons h' hs', rfl⟩

end

theorem IsParam.lift {ts : List Token} {p' : Param β} (h : IsParam (f ∘ note) ts p') :
    ∃ p, IsParam note ts p ∧ p.map f = p' := by
  cases h with
  | mk hn ht =>
      obtain ⟨type, ht', rfl⟩ := ht.lift
      exact ⟨_, .mk hn ht', rfl⟩

theorem ParamSeq.lift {ts : List Token} {params' : List (Param β)}
    (h : ParamSeq (f ∘ note) ts params') :
    ∃ params, ParamSeq note ts params ∧ params.map (Param.map f) = params' := by
  induction h with
  | one h =>
      obtain ⟨p, h', rfl⟩ := h.lift
      exact ⟨[p], .one h', rfl⟩
  | more h hc _ ih =>
      obtain ⟨p, h', rfl⟩ := h.lift
      obtain ⟨params, hs, rfl⟩ := ih
      exact ⟨p :: params, .more h' hc hs, rfl⟩

theorem Params.lift {ts : List Token} {params' : List (Param β)} (h : Params (f ∘ note) ts params') :
    ∃ params, Params note ts params ∧ params.map (Param.map f) = params' := by
  cases h with
  | none => exact ⟨[], .none, rfl⟩
  | some h =>
      obtain ⟨params, h', rfl⟩ := h.lift
      exact ⟨params, .some h', rfl⟩

theorem IsBody.lift {ts : List Token} {b' : Body β} (h : IsBody (f ∘ note) ts b') :
    ∃ b, IsBody note ts b ∧ b.map f = b' := by
  cases h with
  | value hq h hs =>
      obtain ⟨e, h', rfl⟩ := h.lift
      exact ⟨_, .value hq h' hs, rfl⟩
  | block ho h hc =>
      obtain ⟨stmts, h', rfl⟩ := h.lift
      exact ⟨_, .block ho h' hc, rfl⟩

theorem IsItem.lift {ts : List Token} {i' : Item β} (h : IsItem (f ∘ note) ts i') :
    ∃ i, IsItem note ts i ∧ i.map f = i' := by
  cases h with
  | stmt h =>
      obtain ⟨s, h', rfl⟩ := h.lift
      exact ⟨_, .stmt h', rfl⟩
  | definition h =>
      cases h with
      | mk hk hn ho hp hc hr hb =>
          obtain ⟨params, hp', rfl⟩ := hp.lift
          obtain ⟨result, hr', rfl⟩ := hr.lift
          obtain ⟨body, hb', rfl⟩ := hb.lift
          exact ⟨_, .definition (.mk hk hn ho hp' hc hr' hb'), rfl⟩

/-- A sentence can be annotated in full. -/
theorem Sentence.lift {ts : List Token} {items' : List (Item β)} (h : Sentence (f ∘ note) ts items') :
    ∃ items, Sentence note ts items ∧ items.map (Item.map f) = items' := by
  induction h with
  | nil => exact ⟨[], .nil, rfl⟩
  | cons h _ ih =>
      obtain ⟨i, h', rfl⟩ := h.lift
      obtain ⟨items, hs, rfl⟩ := ih
      exact ⟨i :: items, .cons h' hs, rfl⟩

end Phrase

end SoundLang
