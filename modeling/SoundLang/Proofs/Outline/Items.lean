import SoundLang.Proofs.Lexer.Longest
import SoundLang.Proofs.Outline.Trees

/-! # Outlines of items that have been read

The names and numbers of an item that has been read are the texts of tokens.  Such a text is on one line, and its token
ends where the text does (`Token.Legible`).  So all lines of the outline are plain (`Phrase.IsItem.plainLines`) and the
annotations fit (`Phrase.IsItem.fits`), and the text of the outline tells the item
(`Item.Parsed.render_outline_eq_iff`). -/

namespace SoundLang

open Outline

/-! ### Tokens -/

/-- The text of a word or a number is on one line, and the token ends where it does. -/
def Token.Legible (t : Token) : Prop := ∀ text, t.kind = .word text ∨ t.kind = .number text →
  '\n' ∉ text.toList ∧ t.span.stop = t.span.start.advance text.toList

theorem Lexer.Scanned.legible {line : Nat} {t : Token} (h : Scanned line (.ok t)) : t.Legible := by
  intro text htext
  generalize he : Except.ok t = e at h
  cases h with
  | @longest _ m hm byte =>
      obtain ⟨hkind, hspan⟩ := entryOf_eq_ok_iff.mp he.symm
      have hnewline := Lexeme.newline_not_mem hm
      obtain rfl : String.ofList m.text = text := by
        obtain ⟨w, form⟩ := m
        cases form with
        | word | number =>
            simp only [Lexeme.Form.kind?, Option.some.injEq] at hkind
            simpa [← hkind] using htext
        | symbol s =>
            simp only [Lexeme.Form.kind?, Option.some.injEq] at hkind
            simp [← hkind] at htext
        | incompleteExponent | emptyRadix => simp [Lexeme.Form.kind?] at hkind
      rw [hspan, String.toList_ofList, Pos.advance_of_not_mem _ hnewline]
      exact ⟨hnewline, rfl⟩
  | unexpected => cases he
  | string value =>
      cases he
      simp at htext

/-- Legible tokens in reading order, none of which is empty. -/
structure Legible (ts : List Token) : Prop where
  ordered : Ordered ts
  solid : ∀ t ∈ ts, t.span.Solid
  texts : ∀ t ∈ ts, t.Legible

namespace Legible

variable {t : Token} {ts us : List Token}

theorem sublist (h : Legible ts) (hs : us.Sublist ts) : Legible us where
  ordered := h.ordered.sublist hs
  solid := fun t ht => h.solid t (hs.subset ht)
  texts := fun t ht => h.texts t (hs.subset ht)

theorem tail (h : Legible (t :: ts)) : Legible ts := h.sublist (List.sublist_cons_self t ts)

theorem left (h : Legible (ts ++ us)) : Legible ts := h.sublist (List.sublist_append_left ts us)

theorem right (h : Legible (ts ++ us)) : Legible us := h.sublist (List.sublist_append_right ts us)

theorem name (h : Legible (t :: ts)) {text : String} (hn : t.kind.name? = some text) :
    '\n' ∉ text.toList ∧ t.span.stop = t.span.start.advance text.toList :=
  h.texts t List.mem_cons_self text (.inl (Token.name?_eq_some hn).1)

/-- The last of several tokens does not end where the first one does. -/
theorem stop_ne {o c : Token} (h : Legible (t :: o :: (ts ++ [c]))) : c.span.stop ≠ t.span.stop := by
  have hc : c ∈ o :: (ts ++ [c]) := by simp
  have hsolid := h.solid c (List.mem_cons_of_mem t hc)
  have hbehind := (List.pairwise_cons.mp h.ordered.pairwise).1 c hc
  intro heq
  exact hsolid.ne (Pos.le_antisymm hsolid.le (heq ▸ hbehind))

end Legible

/-! ### Types -/

theorem TypeExpr.Fits.plain {t : TypeExpr Span} (h : t.Fits) : ∀ d, Outline.Plain (t.outline d) := by
  induction h with
  | named hname => exact fun d => (opens d _).plain (Heading.newline_notMem_some hname) .nil
  | @applied span name args hname _ _ ih =>
      refine fun d => (opens d _).plain (Heading.newline_notMem_some hname) ?_
      rw [outline, List.tail_cons, outlineAll_eq]
      exact .flatMap fun t ht => ih t ht (d + 1)
  | @tuple span elems _ ih =>
      refine fun d => (opens d _).plain (Heading.newline_notMem_count _) ?_
      rw [outline, List.tail_cons, outlineAll_eq]
      exact .flatMap fun t ht => ih t ht (d + 1)

namespace Phrase

mutual

theorem IsType.fits : ∀ {ts : List Token} {t : TypeExpr Span}, IsType spanOf ts t → Legible ts → t.Fits
  | _, _, .named hn, h => .named (h.name hn).1 (h.name hn).2
  | _, _, @IsType.applied _ _ n o c text ts args hn ho ht hc, h => by
      refine .applied (h.name hn).1 ?_ (Types.fits ht h.tail.tail.left)
      have hstop : (spanOf (n :: o :: (ts ++ [c]))).stop = c.span.stop :=
        @spanOf_append_singleton_stop (n :: o :: ts) c
      rw [hstop, spanOf_cons_start, ← (h.name hn).2]
      exact h.stop_ne
  | _, _, .tuple ho ht hc, h => .tuple (Types.fits ht h.tail.left)

theorem Types.fits : ∀ {ts : List Token} {types : List (TypeExpr Span)}, Types spanOf ts types → Legible ts →
    ∀ t ∈ types, t.Fits
  | _, _, .none, _ => nofun
  | _, _, .some hs, h => TypeSeq.fits hs h

theorem TypeSeq.fits : ∀ {ts : List Token} {types : List (TypeExpr Span)}, TypeSeq spanOf ts types → Legible ts →
    ∀ t ∈ types, t.Fits
  | _, _, .one ht, h => List.forall_mem_singleton.mpr (IsType.fits ht h)
  | _, _, .more ht _ hs, h => List.forall_mem_cons.mpr ⟨IsType.fits ht h.left, TypeSeq.fits hs h.right.tail⟩

end

theorem Annotation.fits {ts : List Token} {type : Option (TypeExpr Span)} (h : Annotation spanOf ts type)
    (hts : Legible ts) : ∀ t ∈ type, t.Fits := by
  cases h with
  | none => nofun
  | some hc h => exact fun _ ht => Option.some.inj ht ▸ h.fits hts.tail

/-! ### Expressions -/

theorem newline_notMem_unary (op : UnaryOp) : '\n' ∉ op.name.toList := by
  have hall : ∀ op ∈ UnaryOp.all, '\n' ∉ op.name.toList := by decide
  exact hall op op.mem_all

theorem newline_notMem_binary (op : BinaryOp) : '\n' ∉ op.name.toList := by
  have hall : ∀ op ∈ BinaryOp.all, '\n' ∉ op.name.toList := by decide +kernel
  exact hall op op.mem_all

theorem plain_list {es : List (Expr Span)} (h : ∀ e ∈ es, ∀ d, Outline.Plain (e.outline d)) (d : Nat) :
    Outline.Plain (Expr.outlineAll d es) := by
  rw [Expr.outlineAll_eq]
  exact .flatMap fun e he => h e he d

mutual

theorem Operand.plainLines : ∀ {ts : List Token} {e : Expr Span}, Operand spanOf ts e → Legible ts →
    ∀ d, Outline.Plain (e.outline d)
  | _, _, .name ht, h, d => (Expr.opens d _).plain (Heading.newline_notMem_some (h.name ht).1) .nil
  | _, _, .number ht, h, d =>
      (Expr.opens d _).plain (Heading.newline_notMem_some (h.texts _ List.mem_cons_self _ (.inr ht)).1) .nil
  | _, _, .string ht, h, d =>
      (Expr.opens d _).plain (Heading.newline_notMem_some (Text.newline_notMem_quote _)) .nil
  | _, _, .group ho hi hc, h, d =>
      (Expr.opens d _).plain nofun (Items.plainLines hi h.tail.left _ List.mem_cons_self (d + 1))
  | _, _, .tuple ho hi hc hne, h, d =>
      (Expr.opens d _).plain (Heading.newline_notMem_count _) (plain_list (Items.plainLines hi h.tail.left) (d + 1))
  | _, _, .list ho hi hc, h, d =>
      (Expr.opens d _).plain (Heading.newline_notMem_count _) (plain_list (Items.plainLines hi h.tail.left) (d + 1))
  | _, _, .suffix he ht, h, d =>
      (Expr.opens d _).plain (Heading.newline_notMem_some (newline_notMem_unary _))
        (Operand.plainLines he h.left (d + 1))
  | _, _, .call he ho ha hc, h, d => by
      refine (Expr.opens d _).plain nofun (.append (Operand.plainLines he h.left (d + 1)) (.cons ?_ ?_))
      · exact plain_count d _ "args("
      · exact plain_list (Items.plainLines ha h.right.tail.left) (d + 1)
  | _, _, .index he ho hi hc, h, d => by
      have hbase := Operand.plainLines he h.left (d + 1)
      have hindex := Items.plainLines hi h.right.tail.left _ List.mem_cons_self (d + 1)
      exact (Expr.opens d _).plain nofun (hbase.append hindex)

theorem Factor.plainLines : ∀ {ts : List Token} {e : Expr Span}, Factor spanOf ts e → Legible ts →
    ∀ d, Outline.Plain (e.outline d)
  | _, _, .operand he, h, d => Operand.plainLines he h d
  | _, _, .prefixed _ he, h, d =>
      (Expr.opens d _).plain (Heading.newline_notMem_some (newline_notMem_unary _))
        (Factor.plainLines he h.tail (d + 1))

theorem Layer.plainLines : ∀ {n : Nat} {ts : List Token} {e : Expr Span}, Layer spanOf n ts e → Legible ts →
    ∀ d, Outline.Plain (e.outline d)
  | _, _, _, .factor he, h, d => Factor.plainLines he h d
  | _, _, _, .tighter he, h, d => Layer.plainLines he h d
  | _, _, _, .left _ hl _ _ hr, h, d =>
      (Expr.opens d _).plain (Heading.newline_notMem_some (newline_notMem_binary _))
        (.append (Layer.plainLines hl h.left (d + 1)) (Layer.plainLines hr h.right.tail (d + 1)))
  | _, _, _, .right _ hl _ _ hr, h, d =>
      (Expr.opens d _).plain (Heading.newline_notMem_some (newline_notMem_binary _))
        (.append (Layer.plainLines hl h.left (d + 1)) (Layer.plainLines hr h.right.tail (d + 1)))

theorem Items.plainLines : ∀ {ts : List Token} {es : List (Expr Span)} {trailing : Bool},
    Items spanOf ts es trailing → Legible ts → ∀ e ∈ es, ∀ d, Outline.Plain (e.outline d)
  | _, _, _, .none, _ => nofun
  | _, _, _, .plain hs, h => ItemSeq.plainLines hs h
  | _, _, _, .trailing hs _, h => ItemSeq.plainLines hs h.left

theorem ItemSeq.plainLines : ∀ {ts : List Token} {es : List (Expr Span)}, ItemSeq spanOf ts es → Legible ts →
    ∀ e ∈ es, ∀ d, Outline.Plain (e.outline d)
  | _, _, .one he, h => List.forall_mem_singleton.mpr (Layer.plainLines he h)
  | _, _, .more he _ hs, h =>
      List.forall_mem_cons.mpr ⟨Layer.plainLines he h.left, ItemSeq.plainLines hs h.right.tail⟩

end

/-! ### Statements -/

mutual

theorem IsStmt.fits : ∀ {ts : List Token} {s : Stmt Span}, IsStmt spanOf ts s → Legible ts → s.Fits
  | _, _, .decl hk hn ht hq he hs, h => by
      intro t htype
      cases htype with
      | decl => exact ht.fits h.tail.tail.left t rfl
  | _, _, .block ho hs hc, h => by
      intro t htype
      cases htype with
      | block hmem htype => exact Stmts.fits hs h.tail.left _ hmem t htype
  | _, _, .whileStmt hk hc hb, h => by
      intro t htype
      cases htype with
      | whileStmt htype => exact IsStmt.fits hb h.tail.right t htype
  | _, _, .ifThen hk hc hy, h => by
      intro t htype
      cases htype with
      | ifThen htype => exact IsStmt.fits hy h.tail.right t htype
  | _, _, .ifElse hk hc hy hclosed hl hn, h => by
      intro t htype
      cases htype with
      | yes htype => exact IsStmt.fits hy h.tail.right.left t htype
      | no htype => exact IsStmt.fits hn h.tail.right.right.tail t htype
  | _, _, .empty _, _ | _, _, .expr .., _ | _, _, .breakStmt .., _ | _, _, .continueStmt .., _
  | _, _, .returnNone .., _ | _, _, .returnSome .., _ => nofun

theorem Stmts.fits : ∀ {ts : List Token} {stmts : List (Stmt Span)}, Stmts spanOf ts stmts → Legible ts →
    ∀ s ∈ stmts, s.Fits
  | _, _, .nil, _ => nofun
  | _, _, .cons hs hss, h => List.forall_mem_cons.mpr ⟨IsStmt.fits hs h.left, Stmts.fits hss h.right⟩

end

theorem Condition.plainLines {ts : List Token} {e : Expr Span} (h : Condition spanOf ts e) (hts : Legible ts)
    (d : Nat) : Outline.Plain (e.outline d) := by
  cases h with
  | mk ho h hc => exact h.plainLines hts.tail.left d

mutual

theorem IsStmt.plainLines : ∀ {ts : List Token} {s : Stmt Span}, IsStmt spanOf ts s → Legible ts →
    ∀ d, Outline.Plain (s.outline d)
  | _, _, .empty hs, h, d => (Stmt.opens d _).plain (Heading.newline_notMem_some (by decide)) .nil
  | _, _, .expr he hs, h, d => (Stmt.opens d _).plain nofun (he.plainLines h.left (d + 1))
  | _, _, .decl hk hn ht hq he hs, h, d => by
      refine (Stmt.opens d _).plain (Heading.newline_notMem_some (h.tail.name hn).1) (.append ?_ ?_)
      · exact .option fun t ht' => (ht.fits h.tail.tail.left t ht').plain (d + 1)
      · exact he.plainLines h.tail.tail.right.tail.left (d + 1)
  | _, _, .breakStmt .., _, d | _, _, .continueStmt .., _, d | _, _, .returnNone .., _, d =>
      (Stmt.opens d _).plain nofun .nil
  | _, _, .returnSome hk he hs, h, d => (Stmt.opens d _).plain nofun (he.plainLines h.tail.left (d + 1))
  | _, _, .block ho hs hc, h, d => by
      refine (Stmt.opens d _).plain nofun (.append ?_ (.cons (plain_part d "end block") .nil))
      exact Stmts.plainLines hs h.tail.left (d + 1)
  | _, _, .whileStmt hk hc hb, h, d => by
      have hcond := hc.plainLines h.tail.left (d + 1)
      have hbody := IsStmt.plainLines hb h.tail.right (d + 1)
      exact (Stmt.opens d _).plain nofun
        ((hcond.append (.cons (plain_part d "do") hbody)).append (.cons (plain_part d "end while") .nil))
  | _, _, .ifThen hk hc hy, h, d => by
      have hcond := hc.plainLines h.tail.left (d + 1)
      have hyes := IsStmt.plainLines hy h.tail.right (d + 1)
      exact (Stmt.opens d _).plain nofun
        ((hcond.append (.cons (plain_part d "then") hyes)).append (.cons (plain_part d "end if") .nil))
  | _, _, .ifElse hk hc hy hclosed hl hn, h, d => by
      have hcond := hc.plainLines h.tail.left (d + 1)
      have hyes := IsStmt.plainLines hy h.tail.right.left (d + 1)
      have hno := IsStmt.plainLines hn h.tail.right.right.tail (d + 1)
      have hbranches := (hcond.append (.cons (plain_part d "then") hyes)).append (.cons (plain_part d "else") hno)
      exact (Stmt.opens d _).plain nofun (hbranches.append (.cons (plain_part d "end if") .nil))

theorem Stmts.plainLines : ∀ {ts : List Token} {stmts : List (Stmt Span)}, Stmts spanOf ts stmts → Legible ts →
    ∀ d, Outline.Plain (Stmt.outlineAll d stmts)
  | _, _, .nil, _, _ => .nil
  | _, _, .cons hs hss, h, d => .append (IsStmt.plainLines hs h.left d) (Stmts.plainLines hss h.right d)

end

/-! ### Items -/

theorem IsParam.plainLines {ts : List Token} {p : Param Span} (h : IsParam spanOf ts p) (hts : Legible ts) (d : Nat) :
    Outline.Plain (p.outline d) := by
  cases h with
  | mk hn ht =>
      refine (Param.opens d _).plain (Heading.newline_notMem_some (hts.name hn).1) (.option fun t ht' => ?_)
      exact (ht.fits hts.tail t ht').plain (d + 1)

theorem ParamSeq.plainLines {ts : List Token} {params : List (Param Span)} (h : ParamSeq spanOf ts params)
    (hts : Legible ts) : ∀ p ∈ params, ∀ d, Outline.Plain (p.outline d) := by
  induction h with
  | one h => exact List.forall_mem_singleton.mpr (h.plainLines hts)
  | more h hc _ ih => exact List.forall_mem_cons.mpr ⟨h.plainLines hts.left, ih hts.right.tail⟩

theorem Params.plainLines {ts : List Token} {params : List (Param Span)} (h : Params spanOf ts params)
    (hts : Legible ts) : ∀ p ∈ params, ∀ d, Outline.Plain (p.outline d) := by
  cases h with
  | none => nofun
  | some h => exact h.plainLines hts

theorem IsBody.plainLines {ts : List Token} {b : Body Span} (h : IsBody spanOf ts b) (hts : Legible ts) (d : Nat) :
    Outline.Plain (b.outline d) := by
  cases h with
  | value hq h hs => exact h.plainLines hts.tail.left d
  | block ho h hc => exact h.plainLines hts.tail.left d

theorem plain_result {result : Option (TypeExpr Span)} (h : ∀ t ∈ result, t.Fits) :
    Outline.Plain (Definition.resultOutline result) := by
  cases result with
  | none => exact .nil
  | some t => exact .cons (plain_part 0 "returns:") ((h t rfl).plain 1)

theorem IsItem.plainLines {ts : List Token} {i : Item Span} (h : IsItem spanOf ts i) (hts : Legible ts) :
    Outline.Plain i.outline := by
  cases h with
  | stmt h => exact h.plainLines hts 0
  | definition h =>
      cases h with
      | @mk k n o c text ps rs bs params result body hk hn ho hp hc hr hb =>
          have hbehind := hts.tail.tail.tail.right.tail
          have hparams : Outline.Plain (params.flatMap (Param.outline 1)) :=
            .flatMap fun p hmem => hp.plainLines hts.tail.tail.tail.left p hmem 1
          have hresult := plain_result (hr.fits hbehind.left)
          have hbody := (hb.plainLines hbehind.right 1).append (.cons (plain_part 0 "end definition") .nil)
          refine (Definition.opens _).plain (Heading.newline_notMem_some (hts.tail.name hn).1) ?_
          rw [Definition.outline_eq, List.tail_cons]
          refine .cons ?_ ?_
          · exact plain_count 0 _ "params("
          · exact hparams.append (hresult.append (.cons (plain_part 0 "body:") hbody))

theorem ParamSeq.fits {ts : List Token} {params : List (Param Span)} (h : ParamSeq spanOf ts params)
    (hts : Legible ts) : ∀ p ∈ params, p.Fits := by
  have hone {ts : List Token} {p : Param Span} (h : IsParam spanOf ts p) (hts : Legible ts) : p.Fits := by
    cases h with
    | mk hn ht => exact ht.fits hts.tail
  induction h with
  | one h => exact List.forall_mem_singleton.mpr (hone h hts)
  | more h hc _ ih => exact List.forall_mem_cons.mpr ⟨hone h hts.left, ih hts.right.tail⟩

theorem IsItem.fits {ts : List Token} {i : Item Span} (h : IsItem spanOf ts i) (hts : Legible ts) : i.Fits := by
  intro t ht
  cases h with
  | stmt h =>
      cases ht with
      | stmt ht => exact h.fits hts t ht
  | definition h =>
      cases h with
      | mk hk hn ho hp hc hr hb =>
          have hbehind := hts.tail.tail.tail.right.tail
          cases ht with
          | param hmem htype =>
              cases hp with
              | none => cases hmem
              | some hp => exact hp.fits hts.tail.tail.tail.left _ hmem t htype
          | result hresult => exact hr.fits hbehind.left t hresult
          | body hbody hmem ht =>
              cases hb with
              | value hq h hs => cases hbody
              | block ho h hc =>
                  cases hbody
                  exact h.fits hbehind.right.tail.left _ hmem t ht

end Phrase

theorem Item.Parsed.exists_legible {i : Item Span} (h : i.Parsed) :
    ∃ ts : List Token, Phrase.IsItem spanOf ts i ∧ Legible ts := by
  obtain ⟨ts, hitem, hordered, hsolid, hscanned⟩ := h.exists_tokens
  refine ⟨ts, hitem, hordered, hsolid, fun t ht => ?_⟩
  obtain ⟨line, ht⟩ := hscanned t ht
  exact ht.legible

/-- Two items that have been read have one outline just when they are equal but for the places of the names that they
declare or apply. -/
theorem Item.Parsed.render_outline_eq_iff {i j : Item Span} (hi : i.Parsed) (hj : j.Parsed) :
    i.outline.render = j.outline.render ↔ i.unplaced = j.unplaced := by
  constructor
  · intro h
    obtain ⟨ts, hitem, hts⟩ := hi.exists_legible
    obtain ⟨us, hitem', hus⟩ := hj.exists_legible
    exact (hitem.fits hts).eq_of_outline (hitem'.fits hus)
      (Outline.render_inj (hitem.plainLines hts) (hitem'.plainLines hus) h)
  · intro h
    rw [← i.outline_unplaced, ← j.outline_unplaced, h]

/-- To move a name does not change the outline.  A type that is applied to no arguments has another outline than its
name with blanks behind it. -/
theorem Item.Parsed.render_outline_eq_iff_moved :
    ∃ i ∈ (Program.parse "let a : t[] = 1;").items, ∃ j ∈ (Program.parse "let  a: t[] = 1;").items,
      ∃ k ∈ (Program.parse "let a : t   = 1;").items, i.unplaced = j.unplaced ∧ i.unplaced ≠ k.unplaced := by
  have hi : (Program.parse "let a : t[] = 1;").items.map (·.outline.render) =
      ["1:1-1:17 declaration(a)\n  1:9-1:12 type(t)\n  1:15-1:16 number(1)\n"] := by
    decide +kernel
  have hj : (Program.parse "let  a: t[] = 1;").items.map (·.outline.render) =
      ["1:1-1:17 declaration(a)\n  1:9-1:12 type(t)\n  1:15-1:16 number(1)\n"] := by
    decide +kernel
  have hk : (Program.parse "let a : t   = 1;").items.map (·.outline.render) =
      ["1:1-1:17 declaration(a)\n  1:9-1:10 type(t)\n  1:15-1:16 number(1)\n"] := by
    decide +kernel
  obtain ⟨i, hitems, hi⟩ := List.map_eq_singleton_iff.mp hi
  obtain ⟨j, hitems', hj⟩ := List.map_eq_singleton_iff.mp hj
  obtain ⟨k, hitems'', hk⟩ := List.map_eq_singleton_iff.mp hk
  have himem := hitems ▸ List.mem_singleton_self i
  have hjmem := hitems' ▸ List.mem_singleton_self j
  have hkmem := hitems'' ▸ List.mem_singleton_self k
  refine ⟨i, himem, j, hjmem, k, hkmem, ?_, fun h => ?_⟩
  · exact (render_outline_eq_iff (.program himem) (.program hjmem)).mp (hi.trans hj.symm)
  · have hsame := (render_outline_eq_iff (.program himem) (.program hkmem)).mpr h
    rw [hi, hk] at hsame
    exact absurd hsame (by decide)

end SoundLang
