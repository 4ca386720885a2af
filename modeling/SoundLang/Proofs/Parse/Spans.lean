import SoundLang.Proofs.Lexer.Lossless
import SoundLang.Proofs.Parse.Source
import SoundLang.Proofs.Parse.SpanTree

/-! # Spans of programs

The spans of a tree of a program form a tree of spans (`Item.spans`), in which the names that are declared are nodes
too.  The trees of phrases are built from the tokens of the phrases (`Phrase.IsItem.built`, `Phrase.Sentence.parts`).

The items of every program are phrases made of the tokens that its text starts with, and these stand in reading order.
So the spans of the items are exact and nested (`Program.spans_exact`). -/

namespace SoundLang

open SpanTree

/-! ### The spans of a tree -/

def Name.spans (n : Name Span) : SpanTree := .node n.note []

mutual

def TypeExpr.spans : TypeExpr Span → SpanTree
  | .named span _ => .node span []
  | .applied span name args => .node span (name.spans :: TypeExpr.spansAll args)
  | .tuple span elems => .node span (TypeExpr.spansAll elems)

def TypeExpr.spansAll : List (TypeExpr Span) → List SpanTree
  | [] => []
  | t :: types => t.spans :: TypeExpr.spansAll types

end

/-- The spans of a type that may be left out. -/
def TypeExpr.spansOf (t : Option (TypeExpr Span)) : List SpanTree := (t.map TypeExpr.spans).toList

mutual

def Expr.spans : Expr Span → SpanTree
  | .name span _ => .node span []
  | .number span _ => .node span []
  | .string span _ => .node span []
  | .call span callee args => .node span (callee.spans :: Expr.spansAll args)
  | .unary span _ operand => .node span [operand.spans]
  | .binary span _ left right => .node span [left.spans, right.spans]
  | .index span base i => .node span [base.spans, i.spans]
  | .list span items => .node span (Expr.spansAll items)
  | .tuple span items => .node span (Expr.spansAll items)
  | .group span inner => .node span [inner.spans]

def Expr.spansAll : List (Expr Span) → List SpanTree
  | [] => []
  | e :: es => e.spans :: Expr.spansAll es

end

/-- The spans of an expression that may be left out. -/
def Expr.spansOf (e : Option (Expr Span)) : List SpanTree := (e.map Expr.spans).toList

mutual

def Stmt.spans : Stmt Span → SpanTree
  | .expr span value => .node span (Expr.spansOf value)
  | .decl span name type value => .node span (name.spans :: (TypeExpr.spansOf type ++ [value.spans]))
  | .breakStmt span => .node span []
  | .continueStmt span => .node span []
  | .returnStmt span value => .node span (Expr.spansOf value)
  | .block span stmts => .node span (Stmt.spansAll stmts)
  | .whileStmt span cond body => .node span [cond.spans, body.spans]
  | .ifThen span cond yes => .node span [cond.spans, yes.spans]
  | .ifElse span cond yes no => .node span [cond.spans, yes.spans, no.spans]

def Stmt.spansAll : List (Stmt Span) → List SpanTree
  | [] => []
  | s :: stmts => s.spans :: Stmt.spansAll stmts

end

def Param.spans (p : Param Span) : SpanTree := .node p.note (p.name.spans :: TypeExpr.spansOf p.type)

def Body.spans : Body Span → List SpanTree
  | .value e => [e.spans]
  | .block stmts => Stmt.spansAll stmts

def Definition.spans (d : Definition Span) : SpanTree :=
  .node d.note (d.name.spans :: (d.params.map Param.spans ++ (TypeExpr.spansOf d.result ++ d.body.spans)))

def Item.spans : Item Span → SpanTree
  | .stmt s => s.spans
  | .definition d => d.spans

theorem Item.spans_span (i : Item Span) : i.spans.span = i.note := by
  cases i with
  | stmt s => cases s <;> rfl
  | definition d => rfl

namespace Phrase

/-! ### Phrases are built from their tokens -/

mutual

theorem IsType.built : ∀ {ts : List Token} {t : TypeExpr Span}, IsType spanOf ts t → Built ts t.spans
  | _, _, @IsType.named _ _ n text hn => .token n
  | _, _, .applied hn ho ht hc => .node (by simp) (.named (.enclosed (Types.parts ht)))
  | _, _, .tuple ho ht hc => .node (by simp) (.enclosed (Types.parts ht))

theorem Types.parts : ∀ {ts : List Token} {types : List (TypeExpr Span)}, Types spanOf ts types →
    Parts ts (TypeExpr.spansAll types)
  | _, _, .none => .nil
  | _, _, .some h => TypeSeq.parts h

theorem TypeSeq.parts : ∀ {ts : List Token} {types : List (TypeExpr Span)}, TypeSeq spanOf ts types →
    Parts ts (TypeExpr.spansAll types)
  | _, _, .one h => .whole (IsType.built h)
  | _, _, .more h _ hs => .part (IsType.built h) (.skip (TypeSeq.parts hs))

end

theorem Annotation.parts {ts : List Token} {type : Option (TypeExpr Span)} (h : Annotation spanOf ts type) :
    Parts ts (TypeExpr.spansOf type) := by
  cases h with
  | none => exact .nil
  | some hc h => exact .skip (.whole h.built)

mutual

theorem Operand.built : ∀ {ts : List Token} {e : Expr Span}, Operand spanOf ts e → Built ts e.spans
  | _, _, @Operand.name _ _ t text ht => .token t
  | _, _, @Operand.number _ _ t text ht => .token t
  | _, _, @Operand.string _ _ t value ht => .token t
  | _, _, .group ho h hc => .node (by simp) (.enclosed (Items.parts h))
  | _, _, .tuple ho h hc hne => .node (by simp) (.enclosed (Items.parts h))
  | _, _, .list ho h hc => .node (by simp) (.enclosed (Items.parts h))
  | _, _, .suffix h ht => .node (by simp) (.part (Operand.built h) (.token _))
  | _, _, .call h ho ha hc => .node (by simp) (.part (Operand.built h) (.enclosed (Items.parts ha)))
  | _, _, .index h ho hi hc => .node (by simp) (.part (Operand.built h) (.enclosed (Items.parts hi)))

theorem Factor.built : ∀ {ts : List Token} {e : Expr Span}, Factor spanOf ts e → Built ts e.spans
  | _, _, .operand h => Operand.built h
  | _, _, .prefixed ht h => .node (by simp) (.skip (.whole (Factor.built h)))

theorem Layer.built : ∀ {n : Nat} {ts : List Token} {e : Expr Span}, Layer spanOf n ts e → Built ts e.spans
  | _, _, _, .factor h => Factor.built h
  | _, _, _, .tighter h => Layer.built h
  | _, _, _, .left hn hl ht hop hr => .node (by simp) (.part (Layer.built hl) (.skip (.whole (Layer.built hr))))
  | _, _, _, .right hn hl ht hop hr => .node (by simp) (.part (Layer.built hl) (.skip (.whole (Layer.built hr))))

theorem Items.parts : ∀ {ts : List Token} {es : List (Expr Span)} {trailing : Bool},
    Items spanOf ts es trailing → Parts ts (Expr.spansAll es)
  | _, _, _, .none => .nil
  | _, _, _, .plain h => ItemSeq.parts h
  | _, _, _, .trailing h _ => .ended (ItemSeq.parts h)

theorem ItemSeq.parts : ∀ {ts : List Token} {es : List (Expr Span)}, ItemSeq spanOf ts es →
    Parts ts (Expr.spansAll es)
  | _, _, .one h => .whole (Layer.built h)
  | _, _, .more h _ hs => .part (Layer.built h) (.skip (ItemSeq.parts hs))

end

theorem Condition.parts {ts : List Token} {e : Expr Span} (h : Condition spanOf ts e) : Parts ts [e.spans] := by
  cases h with
  | mk ho h hc => exact .enclosed (.whole h.built)

mutual

theorem IsStmt.built : ∀ {ts : List Token} {s : Stmt Span}, IsStmt spanOf ts s → Built ts s.spans
  | _, _, @IsStmt.empty _ _ s hs => .token s
  | _, _, .expr h hs => .node (by simp) (.part h.built (.token _))
  | _, _, .decl hk hn ht hq he hs =>
      .node (by simp) (.skip (.named (ht.parts.around (.part he.built (.token _)))))
  | _, _, .breakStmt hk hs => .node (by simp) (.skip (.token _))
  | _, _, .continueStmt hk hs => .node (by simp) (.skip (.token _))
  | _, _, .returnNone hk hs => .node (by simp) (.skip (.token _))
  | _, _, .returnSome hk he hs => .node (by simp) (.enclosed (.whole he.built))
  | _, _, .block ho h hc => .node (by simp) (.enclosed (Stmts.parts h))
  | _, _, .whileStmt hk hc hb => .node (by simp) (.skip (hc.parts.append (.whole (IsStmt.built hb))))
  | _, _, .ifThen hk hc hy => .node (by simp) (.skip (hc.parts.append (.whole (IsStmt.built hy))))
  | _, _, .ifElse hk hc hy hclosed hl hn =>
      .node (by simp) (.skip (hc.parts.append (.part (IsStmt.built hy) (.skip (.whole (IsStmt.built hn))))))

theorem Stmts.parts : ∀ {ts : List Token} {stmts : List (Stmt Span)}, Stmts spanOf ts stmts →
    Parts ts (Stmt.spansAll stmts)
  | _, _, .nil => .nil
  | _, _, .cons h hs => .part (IsStmt.built h) (Stmts.parts hs)

end

theorem IsParam.built {ts : List Token} {p : Param Span} (h : IsParam spanOf ts p) : Built ts p.spans := by
  cases h with
  | mk hn ht => exact .node (by simp) (.named ht.parts)

theorem ParamSeq.parts {ts : List Token} {params : List (Param Span)} (h : ParamSeq spanOf ts params) :
    Parts ts (params.map Param.spans) := by
  induction h with
  | one h => exact .whole h.built
  | more h hc _ ih => exact .part h.built (.skip ih)

theorem Params.parts {ts : List Token} {params : List (Param Span)} (h : Params spanOf ts params) :
    Parts ts (params.map Param.spans) := by
  cases h with
  | none => exact .nil
  | some h => exact h.parts

theorem IsBody.parts {ts : List Token} {b : Body Span} (h : IsBody spanOf ts b) : Parts ts b.spans := by
  cases h with
  | value hq h hs => exact .enclosed (.whole h.built)
  | block ho h hc => exact .enclosed h.parts

theorem IsDefinition.built {ts : List Token} {d : Definition Span} (h : IsDefinition spanOf ts d) :
    Built ts d.spans := by
  cases h with
  | mk hk hn ho hp hc hr hb =>
      exact .node (by simp) (.skip (.named (.skip (hp.parts.around (hr.parts.append hb.parts)))))

theorem IsItem.built {ts : List Token} {i : Item Span} (h : IsItem spanOf ts i) : Built ts i.spans := by
  cases h with
  | stmt h => exact h.built
  | definition h => exact h.built

theorem Sentence.parts {ts : List Token} {items : List (Item Span)} (h : Sentence spanOf ts items) :
    Parts ts (items.map Item.spans) := by
  induction h with
  | nil => exact .nil
  | cons h _ ih => exact .part h.built ih

end Phrase

namespace Lexer

/-! ### The tokens of a text -/

theorem ordered_of_rest {text : String} {ts : List Token} {us : List Entry}
    (h : (fresh text).rest = ts.map .ok ++ us) : Ordered ts := by
  have hlayout := layout_of_ended (Nat.lt_succ_self (fresh text).rest.length)
  constructor
  · intro t ht
    obtain ⟨pre, mid, post, -, -, -, hspan⟩ := hlayout.token_at (t := t) (by simp [h, ht])
    rw [hspan, Pos.advance_append]
    exact Pos.le_advance _ mid
  · have hpair := hlayout.pairwise
    rw [h] at hpair
    have hts := (List.pairwise_append.mp hpair).1
    rw [List.pairwise_map] at hts
    exact hts.imp fun hbefore => hbefore _ _ rfl rfl

end Lexer

namespace Program

theorem items_eq (text : String) : (parse text).items = (Grammar.readAll (Lexer.fresh text).rest).1 := by
  rw [← Grammar.readAll_rest Lexer.lawful (Lexer.length_rest_fresh_lt text)]
  rfl

theorem error_eq (text : String) : (parse text).error = (Grammar.readAll (Lexer.fresh text).rest).2.1 := by
  rw [← Grammar.readAll_rest Lexer.lawful (Lexer.length_rest_fresh_lt text)]
  rfl

/-- The items of a program are the sentence that some of its first tokens make. -/
theorem exists_sentence (text : String) : ∃ (ts : List Token) (us : List Entry),
    (Lexer.fresh text).rest = ts.map .ok ++ us ∧ Phrase.Sentence spanOf ts (parse text).items := by
  obtain ⟨ts, us, hrest, hsentence, -⟩ := Grammar.readItems_sound (Nat.lt_succ_self (Lexer.fresh text).rest.length)
  change Phrase.Sentence spanOf ts (Grammar.readAll (Lexer.fresh text).rest).1 at hsentence
  rw [← items_eq] at hsentence
  exact ⟨ts, us, hrest, hsentence⟩

/-- The items of a program are the sentence that some of its first tokens make, so that each node has the span of
the tokens it is made of.  And their spans are nested: each goes forward, children lie inside their parents, and
siblings and items follow each other without overlap. -/
theorem spans_exact (text : String) :
    ∃ (ts : List Token) (us : List Entry),
      TokenSource.entries (Lexer.fresh text) = ts.map .ok ++ us ∧
      Phrase.Sentence spanOf ts (parse text).items ∧
      Parts ts ((parse text).items.map Item.spans) ∧
      (∀ i ∈ (parse text).items, Nested i.spans) ∧
      (parse text).items.Pairwise fun i j => i.note.stop ≤ j.note.start := by
  obtain ⟨ts, us, hrest, hsentence⟩ := exists_sentence text
  have hordered := Lexer.ordered_of_rest hrest
  refine ⟨ts, us, ?_, hsentence, hsentence.parts, ?_, ?_⟩
  · rw [Lexer.entries_eq_rest]
    exact hrest
  · intro i hi
    exact hsentence.parts.nested hordered i.spans (List.mem_map_of_mem hi)
  · have hpair := hsentence.parts.pairwise hordered
    rw [List.pairwise_map] at hpair
    refine hpair.imp fun {i j} hbefore => ?_
    rw [← i.spans_span, ← j.spans_span]
    exact hbefore

end Program

end SoundLang
