import SoundLang.Proofs.Parse.Notes
import SoundLang.Proofs.Parse.Reads

/-! # What is read are phrases

`Rule.Spec` says of each rule which phrase it reads, and which tokens cannot follow: the reading of a factor stops
only where no suffix follows, that of operators only where no operator of the level follows, and that of a
statement that ends in an `if` only where no `else` follows.  These facts about the next token are what makes a
list of operators group as the layers say, and an `else` belong to the nearest `if`.

The bodies of the rules keep `Rule.Spec` (`spec_body`), so all rules obey it (`Rule.Reads.spec`). -/

namespace SoundLang

open Phrase

/-! ### Tokens that continue a phrase -/

namespace Token

/-- The token continues an operand. -/
def isSuffix (t : Token) : Bool := t.kind.suffixOp?.isSome || t.kind.opens?.isSome

/-- The token is a binary operator of at most the level. -/
def isInfix (level : Nat) (t : Token) : Bool := t.kind.infixOp?.any (·.level ≤ level)

/-- The token closes a list. -/
def isClosing (t : Token) : Bool := t.kind.closes?.isSome

theorem isInfix_iff {level : Nat} {t : Token} :
    t.isInfix level = true ↔ ∃ op, t.kind.infixOp? = some op ∧ op.level ≤ level := by
  unfold isInfix
  cases t.kind.infixOp? <;> simp

@[simp] theorem isSymbol_iff {s : Symbol} {t : Token} : t.isSymbol s = true ↔ t.kind = .symbol s := by
  simp [isSymbol]

@[simp] theorem isKeyword_iff {k : Keyword} {t : Token} :
    t.isKeyword k = true ↔ t.kind.keyword? = some k := by
  simp [isKeyword]

theorem opens?_eq_some {k : Kind} {b : Bracket} : k.opens? = some b ↔ k = .symbol b.opening := by
  constructor
  · unfold Kind.opens?
    split <;> intro h <;> cases h <;> rfl
  · rintro rfl
    cases b <;> rfl

theorem closes?_eq_some {k : Kind} {b : Bracket} : k.closes? = some b ↔ k = .symbol b.closing := by
  constructor
  · unfold Kind.closes?
    split <;> intro h <;> cases h <;> rfl
  · rintro rfl
    cases b <;> rfl

theorem suffix?_eq_none {t : Token} (h : Grammar.suffix? t = none) : t.isSuffix = false := by
  unfold Grammar.suffix? at h
  unfold isSuffix
  split at h <;> simp_all

theorem isSuffix_of_suffix? {t : Token} {suffix : Grammar.Suffix}
    (h : Grammar.suffix? t = some suffix) : t.isSuffix = true := by
  unfold Grammar.suffix? at h
  unfold isSuffix
  split at h <;> simp_all

theorem suffix?_eq_op {t : Token} {op : UnaryOp} (h : Grammar.suffix? t = some (.op op)) :
    t.kind.suffixOp? = some op := by
  unfold Grammar.suffix? at h
  split at h <;> simp_all

theorem suffix?_eq_opening {t : Token} {b : Bracket} (h : Grammar.suffix? t = some (.opening b)) :
    t.kind = .symbol b.opening := by
  unfold Grammar.suffix? at h
  split at h <;> simp_all [← opens?_eq_some]

/-- The first token of an operand. -/
theorem head?_cases {t : Token} {head : Head} (h : t.head? = some head) :
    (∃ op, head = .unary op t.span ∧ t.kind.prefixOp? = some op) ∨
      (∃ b, head = .opening b t.span ∧ t.kind = .symbol b.opening) ∨
        ∃ e, head = .leaf e ∧ Operand spanOf [t] e := by
  unfold head? at h
  split at h
  · next op hp => cases h; exact .inl ⟨op, rfl, hp⟩
  · next b _ hb => cases h; exact .inr (.inl ⟨b, rfl, opens?_eq_some.mp hb⟩)
  · obtain ⟨e, he, rfl⟩ := Option.map_eq_some_iff.mp h
    refine .inr (.inr ⟨e, rfl, ?_⟩)
    unfold leaf? at he
    split at he
    · next text hk =>
        split at he
        · next hn =>
            cases he
            exact .name (by simp [hk, Kind.name?, hn])
        · cases he
    · next text hk => cases he; exact .number hk
    · next value hk => cases he; exact .string hk
    · cases he

end Token

/-! ### The phrase of each rule -/

/-- The loosest level that the right operand of an operator of the given level can have. -/
def Phrase.innerLevel (level : Nat) : Nat := if level = BinaryOp.loosest then level else level - 1

/-- What a rule reads, and what cannot follow. -/
def Rule.Spec : {β : Type} → Rule β → List Entry → β → List Entry → Prop
  | _, factor head, es, e, us => Entry.Lacks Token.isSuffix us ∧
      ∃ ts : List Token, es = ts.map .ok ++ us ∧
        ∀ t : Token, t.head? = some head → Factor spanOf (t :: ts) e
  | _, suffixes base, es, e, us => Entry.Lacks Token.isSuffix us ∧
      (Entry.Lacks Token.isSuffix es → e = base ∧ us = es) ∧
      ∃ ts : List Token, es = ts.map .ok ++ us ∧
        ∀ bs, Operand spanOf bs base → Operand spanOf (bs ++ ts) e
  | _, climb level left, es, e, us => Entry.Lacks (Token.isInfix level) us ∧
      ∃ ts : List Token, es = ts.map .ok ++ us ∧
        ∀ n ls, Layer spanOf n ls left → n ≤ level → Entry.Lacks (Token.isInfix (innerLevel n)) es →
          Layer spanOf level (ls ++ ts) e
  | _, items b opening trailing, es, l, us => ∃ (ts : List Token) (c : Token),
      es = ts.map .ok ++ .ok c :: us ∧ c.kind = .symbol b.closing ∧ l.span = opening.join c.span ∧
        ((ts = [] ∧ l.items = [] ∧ l.trailing = trailing) ∨
          (Entry.Lacks Token.isClosing es ∧ l.items ≠ [] ∧ Items spanOf ts l.items l.trailing))
  | _, typeExpr _ _, es, t, us => ∃ ts : List Token, es = ts.map .ok ++ us ∧ IsType spanOf ts t
  | _, types b _ _, es, r, us => ∃ (ts : List Token) (c : Token),
      es = ts.map .ok ++ .ok c :: us ∧ c.kind = .symbol b.closing ∧ r.2 = c.span ∧
        TypeSeq spanOf ts r.1
  | _, params _, es, ps, us => ∃ (ts : List Token) (c : Token),
      es = ts.map .ok ++ .ok c :: us ∧ c.kind = .symbol .rparen ∧ ParamSeq spanOf ts ps
  | _, statement, es, none, us => es = [] ∧ us = []
  | _, statement, es, some s, us => ∃ ts : List Token, es = ts.map .ok ++ us ∧ IsStmt spanOf ts s ∧
      (s.endsInIf = true → Entry.Lacks (Token.isKeyword .elseWord) us)
  | _, block opening, es, r, us => ∃ (ts : List Token) (c : Token),
      es = ts.map .ok ++ .ok c :: us ∧ c.kind = .symbol .rbrace ∧ r.2 = opening.join c.span ∧
        Stmts spanOf ts r.1

namespace Grammar

open Parse

variable {es us : List Entry}

/-! ### Operands -/

theorem readsBy_operand {S : {β : Type} → Rule β → List Entry → β → List Entry → Prop} {want : Want}
    {head : Head} : (operand want).ReadsBy S es head us ↔
      ∃ t : Token, es = .ok t :: us ∧ t.head? = some head := by
  rw [operand, readsBy_next_bind]
  constructor
  · rintro (⟨-, h⟩ | ⟨t, vs, rfl, h⟩)
    · exact h.elim
    · cases ht : t.head? with
      | none => simp [ht] at h
      | some head' =>
          simp only [ht, readsBy_pure] at h
          obtain ⟨rfl, rfl⟩ := h
          exact ⟨t, rfl, ht⟩
  · rintro ⟨t, rfl, ht⟩
    exact .inr ⟨t, us, rfl, by simp [ht]⟩

/-- No operator has level 0. -/
theorem lacks_isInfix_zero {accept : Token → Bool} (h : Entry.Lacks accept es) :
    Entry.Lacks (Token.isInfix (innerLevel 0)) es := by
  obtain ⟨o, ho, -⟩ := h
  refine ⟨o, ho, ?_⟩
  cases o with
  | none => rfl
  | some u =>
      rw [Option.any_some, Bool.eq_false_iff, Ne, Token.isInfix_iff]
      rintro ⟨op, -, hop⟩
      have := op.one_le_level
      have h0 : innerLevel 0 = 0 := rfl
      omega

theorem spec_expressionFrom {head : Head} {e : Expr Span}
    (h : (expressionFrom head).ReadsBy Rule.Spec es e us) :
    Entry.Lacks (Token.isInfix BinaryOp.loosest) us ∧ ∃ ts : List Token, es = ts.map .ok ++ us ∧
      ∀ t : Token, t.head? = some head → IsExpr spanOf (t :: ts) e := by
  obtain ⟨left, vs, ⟨hs, ts, rfl, hf⟩, hl, us', rfl, hc⟩ := h
  refine ⟨hl, ts ++ us', by simp, fun t ht => ?_⟩
  exact hc 0 (t :: ts) (.factor (hf t ht)) (Nat.zero_le _) (lacks_isInfix_zero hs)

theorem spec_wanted {want : Want} {e : Expr Span} (h : (wanted want).ReadsBy Rule.Spec es e us) :
    Entry.Lacks (Token.isInfix BinaryOp.loosest) us ∧
      ∃ ts : List Token, es = ts.map .ok ++ us ∧ IsExpr spanOf ts e := by
  obtain ⟨head, vs, hop, hx⟩ := h
  obtain ⟨t, rfl, ht⟩ := readsBy_operand.mp hop
  obtain ⟨hl, ts, rfl, he⟩ := spec_expressionFrom hx
  exact ⟨hl, t :: ts, rfl, he t ht⟩

theorem items_of_spec {ts : List Token} {l : Bracketed}
    (h : (ts = [] ∧ l.items = [] ∧ l.trailing = false) ∨
      (Entry.Lacks Token.isClosing es ∧ l.items ≠ [] ∧ Items spanOf ts l.items l.trailing)) :
    Items spanOf ts l.items l.trailing := by
  obtain ⟨rfl, hi, ht⟩ | ⟨-, -, h⟩ := h
  · rw [hi, ht]
    exact .none
  · exact h

/-- A list in brackets is an operand: a group, a tuple or a list. -/
theorem operand_bracketed {b : Bracket} {t c : Token} {ts : List Token} {l : Bracketed}
    (ho : t.kind = .symbol b.opening) (hi : Items spanOf ts l.items l.trailing)
    (hc : c.kind = .symbol b.closing) (hspan : l.span = t.span.join c.span) :
    Operand spanOf (t :: (ts ++ [c])) (bracketed b l) := by
  obtain ⟨items, trailing, span⟩ := l
  subst hspan
  rw [← spanOf_enclosed]
  cases b with
  | square => exact .list ho hi hc
  | round =>
      match items, trailing, hi with
      | [e], false, hi => exact .group ho hi hc
      | [e], true, hi => exact .tuple ho hi hc (.inr rfl)
      | [], trailing, hi => exact .tuple ho hi hc (.inl (by simp))
      | _ :: _ :: _, trailing, hi => exact .tuple ho hi hc (.inl (by simp))

theorem spec_factor {head : Head} {e : Expr Span} (h : (factor head).ReadsBy Rule.Spec es e us) :
    Rule.Spec (.factor head) es e us := by
  cases head with
  | leaf e₀ =>
      obtain ⟨hl, -, ts, rfl, hs⟩ := h
      refine ⟨hl, ts, rfl, fun t ht => ?_⟩
      obtain ⟨op, he, -⟩ | ⟨b, he, -⟩ | ⟨e', he, ho⟩ := Token.head?_cases ht <;> cases he
      exact .operand (hs [t] ho)
  | unary op operator =>
      obtain ⟨head, vs, hop, inner, ws, ⟨hl, ts, rfl, hf⟩, hs⟩ := h
      obtain ⟨u, rfl, hu⟩ := readsBy_operand.mp hop
      -- the factor leaves no suffix, so nothing more is read behind it
      obtain ⟨rfl, rfl⟩ := hs.2.1 hl
      refine ⟨hl, u :: ts, rfl, fun t ht => ?_⟩
      obtain ⟨op, he, hp⟩ | ⟨b, he, -⟩ | ⟨e', he, -⟩ := Token.head?_cases ht <;> cases he
      have hu' := hf u hu
      have : Factor spanOf _ _ := .prefixed hp hu'
      rwa [spanOf_cons t (by simp), ← hu'.note_eq] at this
  | opening b span =>
      obtain ⟨l, vs, ⟨ts, c, rfl, hc, hspan, hi⟩, hl, -, us', rfl, hs⟩ := h
      refine ⟨hl, ts ++ c :: us', by simp, fun t ht => ?_⟩
      obtain ⟨op, he, -⟩ | ⟨b, he, ho⟩ | ⟨e', he, -⟩ := Token.head?_cases ht <;> cases he
      have hb := operand_bracketed ho (items_of_spec hi) hc hspan
      have := hs _ hb
      simp only [List.cons_append, List.append_assoc, List.nil_append] at this
      exact .operand this

theorem spec_suffixes {base e : Expr Span} (h : (suffixes base).ReadsBy Rule.Spec es e us) :
    Rule.Spec (.suffixes base) es e us := by
  rw [suffixes, readsBy_peek_bind] at h
  obtain ⟨t, ht, h⟩ := h
  cases t with
  | none =>
      obtain ⟨rfl, rfl⟩ := h
      exact ⟨⟨none, ht, rfl⟩, fun _ => ⟨rfl, rfl⟩, [], rfl, fun bs hb => by simpa using hb⟩
  | some t =>
      obtain ⟨vs, rfl⟩ := Entry.front_eq_some ht
      cases hs : suffix? t with
      | none =>
          simp only [hs] at h
          obtain ⟨rfl, rfl⟩ := h
          exact ⟨Entry.Lacks.cons_ok.mpr (Token.suffix?_eq_none hs), fun _ => ⟨rfl, rfl⟩, [], rfl,
            fun bs hb => by simpa using hb⟩
      | some suffix =>
          -- the token is a suffix, so the middle clause of the specification is void
          have hno : ¬ Entry.Lacks Token.isSuffix (.ok t :: vs) := by
            rw [Entry.Lacks.cons_ok, Token.isSuffix_of_suffix? hs]
            exact Bool.noConfusion
          have hvoid : Entry.Lacks Token.isSuffix (.ok t :: vs) → e = base ∧ us = .ok t :: vs :=
            fun hl => absurd hl hno
          simp only [hs] at h
          match suffix, hs, h with
          | .op op, hs, h =>
              obtain ⟨hl, -, ts, rfl, hr⟩ := readsBy_next_bind_cons.mp h
              refine ⟨hl, hvoid, t :: ts, rfl, fun bs hb => ?_⟩
              have hb' := Operand.suffix hb (Token.suffix?_eq_op hs)
              rw [spanOf_append hb.ne_nil (by simp), ← hb.note_eq] at hb'
              simpa using hr _ hb'
          | .opening .round, hs, h =>
              obtain ⟨l, ws, ⟨ts, c, rfl, hc, hspan, hi⟩, hl, -, us', rfl, hr⟩ :=
                readsBy_next_bind_cons.mp h
              refine ⟨hl, hvoid, t :: (ts ++ c :: us'), by simp, fun bs hb => ?_⟩
              have hb' := Operand.call hb (Token.suffix?_eq_opening hs) (items_of_spec hi) hc
              rw [spanOf_append hb.ne_nil (by simp), spanOf_enclosed, ← hspan, ← hb.note_eq] at hb'
              simpa using hr _ hb'
          | .opening .square, hs, h =>
              obtain ⟨l, ws, ⟨ts, c, rfl, hc, hspan, hi⟩, hk⟩ := readsBy_next_bind_cons.mp h
              have hi' := items_of_spec hi
              simp only at hk
              split at hk
              · next i hl₁ =>
                  rw [hl₁] at hi'
                  obtain ⟨hl, -, us', rfl, hr⟩ := hk
                  refine ⟨hl, hvoid, t :: (ts ++ c :: us'), by simp, fun bs hb => ?_⟩
                  have hb' := Operand.index hb (Token.suffix?_eq_opening hs) hi' hc
                  rw [spanOf_append hb.ne_nil (by simp), spanOf_enclosed, ← hspan, ← hb.note_eq]
                    at hb'
                  simpa using hr _ hb'
              · exact hk.elim
              · exact hk.elim

/-! ### Operators -/

theorem readsBy_operator? {S : {β : Type} → Rule β → List Entry → β → List Entry → Prop}
    {level : Nat} {r : Option (BinaryOp × Span)} : (operator? level).ReadsBy S es r us ↔
      (r = none ∧ us = es ∧ Entry.Lacks (Token.isInfix level) es) ∨
        ∃ (t : Token) (op : BinaryOp), r = some (op, t.span) ∧ es = .ok t :: us ∧
          t.kind.infixOp? = some op ∧ op.level ≤ level := by
  rw [operator?, readsBy_peek_bind]
  constructor
  · rintro ⟨t, ht, h⟩
    split at h
    · next found hf =>
        obtain ⟨t', rfl, hm⟩ := Option.bind_eq_some_iff.mp hf
        obtain ⟨op, ho, rfl⟩ := Option.map_eq_some_iff.mp hm
        obtain ⟨ho, hle⟩ := Option.filter_eq_some_iff.mp ho
        obtain ⟨vs, rfl⟩ := Entry.front_eq_some ht
        obtain ⟨rfl, rfl⟩ := readsBy_next_bind_cons.mp h
        exact .inr ⟨t', op, rfl, rfl, ho, by simpa using hle⟩
    · next hf =>
        obtain ⟨rfl, rfl⟩ := h
        refine .inl ⟨rfl, rfl, t, ht, ?_⟩
        cases t with
        | none => rfl
        | some t =>
            rw [Option.any_some, Bool.eq_false_iff, Ne, Token.isInfix_iff]
            rintro ⟨op, ho, hle⟩
            simp only [Option.bind_some, ho, Option.map_eq_none_iff, Option.filter_eq_none_iff] at hf
            exact hf op rfl (by simpa using hle)
  · rintro (⟨rfl, rfl, t, ht, ha⟩ | ⟨t, op, rfl, rfl, ho, hle⟩)
    · refine ⟨t, ht, ?_⟩
      have hf : (t.bind fun t => (t.kind.infixOp?.filter (·.level ≤ level)).map (·, t.span)) = none := by
        cases t with
        | none => rfl
        | some t =>
            rw [Option.any_some, Bool.eq_false_iff, Ne, Token.isInfix_iff] at ha
            simpa using fun op ho => Nat.not_le.mp fun hle => ha ⟨op, ho, hle⟩
      rw [hf]
      exact ⟨rfl, rfl⟩
    · refine ⟨some t, rfl, ?_⟩
      simp only [Option.bind_some, ho, Option.filter_some, hle, decide_true, if_true,
        Option.map_some]
      exact readsBy_next_bind_cons.mpr ⟨rfl, rfl⟩

theorem rightLevel_eq (op : BinaryOp) : rightLevel op = innerLevel op.level := by
  simp only [rightLevel, innerLevel, BinaryOp.isRightAssoc, beq_iff_eq]

theorem layer_binary {n : Nat} {ls rs : List Token} {t : Token} {op : BinaryOp} {l r : Expr Span}
    (hl : Layer spanOf n ls l) (hn : innerLevel n < op.level) (ht : t.kind.infixOp? = some op)
    (hr : Layer spanOf (rightLevel op) rs r) :
    Layer spanOf op.level (ls ++ t :: rs) (.binary (spanOf (ls ++ t :: rs)) op l r) := by
  obtain ⟨m, hm⟩ : ∃ m, op.level = m + 1 := ⟨op.level - 1, by have := op.one_le_level; omega⟩
  have hle := op.level_le_loosest
  rw [rightLevel_eq, hm] at hr
  rw [hm] at hn hle ⊢
  unfold innerLevel at hn hr
  by_cases h : m + 1 = BinaryOp.loosest
  · rw [if_pos h] at hr
    refine .right h (hl.mono ?_) ht hm hr
    split at hn <;> omega
  · rw [if_neg h] at hr
    refine .left (by omega) (hl.mono ?_) ht hm hr
    split at hn <;> omega

theorem spec_climb {level : Nat} {left e : Expr Span}
    (h : (climb level left).ReadsBy Rule.Spec es e us) : Rule.Spec (.climb level left) es e us := by
  obtain ⟨r, vs, ho, h⟩ := h
  obtain ⟨rfl, rfl, hl⟩ | ⟨t, op, rfl, rfl, hop, hle⟩ := readsBy_operator?.mp ho
  · obtain ⟨rfl, rfl⟩ := h
    exact ⟨hl, [], rfl, fun n ls hls hn _ => by simpa using hls.mono hn⟩
  · obtain ⟨head, ws, hh, first, xs, ⟨hsuf, fs, rfl, hf⟩, right, ys, hr, hcl, zs, rfl, hc⟩ := h
    obtain ⟨u, rfl, hu⟩ := readsBy_operand.mp hh
    obtain ⟨hinner, rs, rfl, hr⟩ := hr
    refine ⟨hcl, t :: u :: (fs ++ (rs ++ zs)), by simp, fun n ls hls hn hlack => ?_⟩
    have hright : Layer spanOf (rightLevel op) (u :: (fs ++ rs)) right := by
      exact hr 0 (u :: fs) (.factor (hf u hu)) (Nat.zero_le _) (lacks_isInfix_zero hsuf)
    have hnlt : innerLevel n < op.level := by
      rw [Entry.Lacks.cons_ok, Bool.eq_false_iff, Ne, Token.isInfix_iff] at hlack
      exact Nat.not_le.mp fun hle => hlack ⟨op, hop, hle⟩
    have hnode := layer_binary hls hnlt hop hright
    rw [spanOf_append_cons t hls.ne_nil hright.ne_nil, ← hls.note_eq, ← hright.note_eq] at hnode
    rw [rightLevel_eq] at hinner
    simpa using hc op.level _ hnode hle hinner

/-! ### Lists -/

theorem readsBy_itemEnd {S : {β : Type} → Rule β → List Entry → β → List Entry → Prop} {b : Bracket}
    {opening : Span} {comma : Bool} : (itemEnd b opening).ReadsBy S es comma us ↔
      (comma = true ∧ ∃ c : Token, es = .ok c :: us ∧ c.kind = .symbol .comma) ∨
        (comma = false ∧ us = es ∧ ∃ t vs, es = .ok t :: vs ∧ Token.isClosing t = true) := by
  rw [itemEnd, readsBy_nextIf_bind]
  constructor
  · rintro (⟨-, h⟩ | ⟨c, vs, rfl, hc, h⟩)
    · obtain ⟨t, ht, h⟩ := readsBy_peek_bind.mp h
      split at h
      · next ha =>
          obtain ⟨rfl, rfl⟩ := h
          cases t with
          | none => cases ha
          | some t =>
              obtain ⟨vs, rfl⟩ := Entry.front_eq_some ht
              exact .inr ⟨rfl, rfl, t, vs, rfl, ha⟩
      · obtain ⟨-, h⟩ | ⟨_, _, -, h⟩ := readsBy_next_bind.mp h <;> exact h.elim
    · obtain ⟨rfl, rfl⟩ := h
      exact .inl ⟨rfl, c, rfl, Token.isSymbol_iff.mp hc⟩
  · rintro (⟨rfl, c, rfl, hc⟩ | ⟨rfl, rfl, t, vs, rfl, ht⟩)
    · exact .inr ⟨c, us, rfl, Token.isSymbol_iff.mpr hc, rfl, rfl⟩
    · have hcomma : Token.isSymbol .comma t = false := by
        rw [Bool.eq_false_iff, Ne, Token.isSymbol_iff]
        intro h
        simp [Token.isClosing, h, Token.Kind.closes?] at ht
      refine .inl ⟨Entry.Lacks.cons_ok.mpr hcomma, readsBy_peek_bind.mpr ⟨some t, rfl, ?_⟩⟩
      rw [Token.isClosing] at ht
      simp [ht]

theorem items_cons {ts us : List Token} {c : Token} {e : Expr Span} {es : List (Expr Span)}
    {trailing : Bool} (h : IsExpr spanOf ts e) (hc : c.kind = .symbol .comma)
    (hi : Items spanOf us es trailing) (hne : es ≠ []) :
    Items spanOf (ts ++ c :: us) (e :: es) trailing := by
  cases hi with
  | none => exact absurd rfl hne
  | plain hs => exact .plain (.more h hc hs)
  | trailing hs hc' =>
      rw [← List.cons_append, ← List.append_assoc]
      exact .trailing (.more h hc hs) hc'

theorem spec_items {b : Bracket} {opening : Span} {trailing : Bool} {l : Bracketed}
    (h : (items b opening trailing).ReadsBy Rule.Spec es l us) :
    Rule.Spec (.items b opening trailing) es l us := by
  obtain ⟨t, ht, hp⟩ := readsBy_peek_bind.mp h
  split at hp
  · next closing span hclose =>
      obtain ⟨t, rfl, hm⟩ := Option.bind_eq_some_iff.mp hclose
      obtain ⟨b', hb', ⟨⟩⟩ := Option.map_eq_some_iff.mp hm
      obtain ⟨vs, rfl⟩ := Entry.front_eq_some ht
      split at hp
      · next heq =>
          subst heq
          obtain ⟨rfl, rfl⟩ := readsBy_next_bind_cons.mp hp
          exact ⟨[], t, rfl, Token.closes?_eq_some.mp hb', rfl, .inl ⟨rfl, rfl, rfl⟩⟩
      · exact hp.elim
  · next hclose =>
      have hlack : Entry.Lacks Token.isClosing es := by
        refine ⟨t, ht, ?_⟩
        cases t with
        | none => rfl
        | some t =>
            simp only [Option.bind_some, Option.map_eq_none_iff] at hclose
            simp [Token.isClosing, hclose]
      obtain ⟨-, hq⟩ | ⟨_, _, -, -, hq⟩ := readsBy_nextIf_bind.mp hp
      · obtain ⟨e, vs, hw, comma, ws, hend, l', ys, ⟨rs, c, rfl, hc, hspan, hi⟩, rfl, rfl⟩ := hq
        obtain ⟨-, ts, rfl, he⟩ := spec_wanted hw
        obtain ⟨rfl, k, rfl, hk⟩ | ⟨rfl, hws, t, xs, rfl, hcl⟩ := readsBy_itemEnd.mp hend
        · refine ⟨ts ++ k :: rs, c, by simp, hc, hspan, .inr ⟨hlack, by simp, ?_⟩⟩
          obtain ⟨rfl, hl, htr⟩ | ⟨-, hne, hi⟩ := hi
          · simp only [hl, htr]
            exact .trailing (.one he) hk
          · exact items_cons he hk hi hne
        · refine ⟨ts ++ rs, c, by simp [← hws], hc, hspan, .inr ⟨hlack, by simp, ?_⟩⟩
          obtain ⟨rfl, hl, htr⟩ | ⟨hno, -⟩ := hi
          · simp only [hl, htr, List.append_nil]
            exact .plain (.one he)
          · rw [hws, Entry.Lacks.cons_ok, hcl] at hno
            cases hno
      · exact hq.elim

/-! ### Types -/

theorem readsBy_name {S : {β : Type} → Rule β → List Entry → β → List Entry → Prop}
    {context : Construct} {keyword : Span} {n : Name Span} : (name context keyword).ReadsBy S es n us ↔
      ∃ (t : Token) (text : String), es = .ok t :: us ∧ t.kind.name? = some text ∧ n = ⟨text, t.span⟩ := by
  rw [name, readsBy_next_bind]
  constructor
  · rintro (⟨-, h⟩ | ⟨t, vs, rfl, h⟩)
    · exact h.elim
    · cases ht : t.kind.name? with
      | none => simp [ht] at h
      | some text =>
          simp only [ht, readsBy_pure] at h
          obtain ⟨rfl, rfl⟩ := h
          exact ⟨t, text, rfl, ht, rfl⟩
  · rintro ⟨t, text, rfl, ht, rfl⟩
    exact .inr ⟨t, us, rfl, by simp [ht]⟩

theorem readsBy_symbol {S : {β : Type} → Rule β → List Entry → β → List Entry → Prop}
    {context : Construct} {keyword : Span} {expected : Expectation} {s : Symbol} {t : Token} :
    (symbol context keyword expected s).ReadsBy S es t us ↔ es = .ok t :: us ∧ t.kind = .symbol s := by
  rw [symbol, readsBy_expect, Token.isSymbol_iff]

theorem spec_typeList {b : Bracket} {context : Construct} {keyword : Span}
    {r : List (TypeExpr Span) × Span} (h : (typeList b context keyword).ReadsBy Rule.Spec es r us) :
    ∃ (ts : List Token) (c : Token), es = ts.map .ok ++ .ok c :: us ∧ c.kind = .symbol b.closing ∧
      r.2 = c.span ∧ Types spanOf ts r.1 := by
  obtain ⟨-, h⟩ | ⟨c, vs, rfl, hc, h⟩ := readsBy_nextIf_bind.mp h
  · obtain ⟨ts, c, rfl, hc, hspan, ht⟩ := h
    exact ⟨ts, c, rfl, hc, hspan, .some ht⟩
  · obtain ⟨rfl, rfl⟩ := h
    exact ⟨[], c, rfl, Token.isSymbol_iff.mp hc, rfl, .none⟩

theorem spec_typeExpr {context : Construct} {keyword : Span} {type : TypeExpr Span}
    (h : (typeExpr context keyword).ReadsBy Rule.Spec es type us) :
    Rule.Spec (.typeExpr context keyword) es type us := by
  obtain ⟨-, hx⟩ | ⟨n, vs, rfl, hx⟩ := readsBy_next_bind.mp h
  · exact hx.elim
  · cases hn : n.kind.name? with
    | some text =>
        simp only [hn] at hx
        obtain ⟨-, hy⟩ | ⟨o, ws, rfl, ho, hy⟩ := readsBy_nextIf_bind.mp hx
        · obtain ⟨rfl, rfl⟩ := hy
          exact ⟨[n], rfl, .named hn⟩
        · obtain ⟨r, xs, hl, rfl, rfl⟩ := hy
          obtain ⟨ts, c, rfl, hc, hspan, ht⟩ := spec_typeList hl
          refine ⟨n :: o :: (ts ++ [c]), by simp, ?_⟩
          have : IsType spanOf _ _ := .applied hn (Token.isSymbol_iff.mp ho) ht hc
          rwa [← List.cons_append, spanOf_enclosed, spanOf_singleton, ← hspan] at this
    | none =>
        simp only [hn] at hx
        split at hx
        · next ho =>
            obtain ⟨r, xs, hl, rfl, rfl⟩ := hx
            obtain ⟨ts, c, rfl, hc, hspan, ht⟩ := spec_typeList hl
            refine ⟨n :: (ts ++ [c]), by simp, ?_⟩
            have : IsType spanOf _ _ := .tuple (Token.isSymbol_iff.mp ho) ht hc
            rwa [spanOf_enclosed, ← hspan] at this
        · exact hx.elim

theorem isSeparator_iff {b : Bracket} {t : Token} : isSeparator b t = true ↔
    t.kind = .symbol .comma ∨ t.kind = .symbol b.closing := by
  simp [isSeparator]

theorem spec_types {b : Bracket} {context : Construct} {keyword : Span}
    {r : List (TypeExpr Span) × Span} (h : (types b context keyword).ReadsBy Rule.Spec es r us) :
    Rule.Spec (.types b context keyword) es r us := by
  obtain ⟨first, vs, ⟨ts, rfl, ht⟩, c, ws, hsep, hx⟩ := h
  obtain ⟨rfl, hc⟩ := readsBy_expect.mp hsep
  simp only at hx
  split at hx
  · next hcomma =>
      obtain ⟨r', xs, ⟨us', c', rfl, hc', hspan, hs⟩, rfl, rfl⟩ := hx
      exact ⟨ts ++ c :: us', c', by simp, hc', hspan, .more ht (Token.isSymbol_iff.mp hcomma) hs⟩
  · next hcomma =>
      obtain ⟨rfl, rfl⟩ := hx
      rw [Token.isSymbol_iff] at hcomma
      exact ⟨ts, c, rfl, (isSeparator_iff.mp hc).resolve_left hcomma, rfl, .one ht⟩

theorem spec_annotation {context : Construct} {keyword : Span} {type : Option (TypeExpr Span)}
    (h : ( annotation context keyword).ReadsBy Rule.Spec es type us) :
    ∃ ts : List Token, es = ts.map .ok ++ us ∧ Annotation spanOf ts type := by
  obtain ⟨-, hx⟩ | ⟨c, vs, rfl, hc, hx⟩ := readsBy_nextIf_bind.mp h
  · obtain ⟨rfl, rfl⟩ := hx
    exact ⟨[], rfl, .none⟩
  · obtain ⟨t, ws, ⟨ts, rfl, ht⟩, rfl, rfl⟩ := hx
    exact ⟨c :: ts, rfl, .some (Token.isSymbol_iff.mp hc) ht⟩

/-! ### Statements -/

theorem spec_condition {context : Construct} {keyword : Span} {e : Expr Span}
    (h : (condition context keyword).ReadsBy Rule.Spec es e us) :
    ∃ ts : List Token, es = ts.map .ok ++ us ∧ Condition spanOf ts e := by
  obtain ⟨o, vs, hro, cond, ws, hw, c, xs, hrc, rfl, rfl⟩ := h
  obtain ⟨rfl, ho⟩ := readsBy_symbol.mp hro
  obtain ⟨-, ts, rfl, he⟩ := spec_wanted hw
  obtain ⟨rfl, hc⟩ := readsBy_symbol.mp hrc
  exact ⟨o :: (ts ++ [c]), by simp, .mk ho he hc⟩

theorem spec_governed {context : Construct} {keyword : Span} {s : Stmt Span}
    (h : (governed context keyword).ReadsBy Rule.Spec es s us) :
    ∃ ts : List Token, es = ts.map .ok ++ us ∧ IsStmt spanOf ts s ∧
      (s.endsInIf = true → Entry.Lacks (Token.isKeyword .elseWord) us) := by
  obtain ⟨o, vs, hs, hx⟩ := h
  cases o with
  | none => exact hx.elim
  | some s' =>
      obtain ⟨rfl, rfl⟩ := hx
      exact hs

/-- What the procedures of statements read behind the first token `k`. -/
def StmtSpec (k : Token) (es : List Entry) (s : Stmt Span) (us : List Entry) : Prop :=
  ∃ ts : List Token, es = ts.map .ok ++ us ∧ IsStmt spanOf (k :: ts) s ∧
    (s.endsInIf = true → Entry.Lacks (Token.isKeyword .elseWord) us)

variable {k : Token} {s : Stmt Span}

theorem spec_ifStatement (hk : k.kind.keyword? = some .ifWord)
    (h : (ifStatement k.span).ReadsBy Rule.Spec es s us) : StmtSpec k es s us := by
  obtain ⟨cond, vs, hrc, yes, ws, hry, hx⟩ := h
  obtain ⟨cs, rfl, hc⟩ := spec_condition hrc
  obtain ⟨ys, rfl, hy, hfollow⟩ := spec_governed hry
  obtain ⟨hno, hz⟩ | ⟨l, xs, rfl, hl, hz⟩ := readsBy_nextIf_bind.mp hx
  · obtain ⟨rfl, rfl⟩ := hz
    refine ⟨cs ++ ys, by simp, ?_, fun _ => hno⟩
    have : IsStmt spanOf _ _ := .ifThen hk hc hy
    rwa [spanOf_cons_append k hy.ne_nil, ← hy.note_eq] at this
  · obtain ⟨no, zs, hrn, rfl, rfl⟩ := hz
    obtain ⟨ns, rfl, hn, hlast⟩ := spec_governed hrn
    -- an open `if` before the `else` would have taken it
    have hclosed : yes.endsInIf = false := by
      rw [Bool.eq_false_iff]
      intro hopen
      have := Entry.Lacks.cons_ok.mp (hfollow hopen)
      rw [hl] at this
      cases this
    have hspan : spanOf (k :: (cs ++ (ys ++ l :: ns))) = k.span.join no.note := by
      rw [show cs ++ (ys ++ l :: ns) = (cs ++ (ys ++ [l])) ++ ns by simp,
        spanOf_cons_append k hn.ne_nil, hn.note_eq]
    refine ⟨cs ++ (ys ++ l :: ns), by simp, ?_, hlast⟩
    have : IsStmt spanOf _ _ := .ifElse hk hc hy hclosed (Token.isKeyword_iff.mp hl) hn
    rwa [hspan] at this

theorem spec_whileStatement (hk : k.kind.keyword? = some .whileWord)
    (h : (whileStatement k.span).ReadsBy Rule.Spec es s us) : StmtSpec k es s us := by
  obtain ⟨cond, vs, hrc, body, ws, hrb, rfl, rfl⟩ := h
  obtain ⟨cs, rfl, hc⟩ := spec_condition hrc
  obtain ⟨bs, rfl, hb, hfollow⟩ := spec_governed hrb
  refine ⟨cs ++ bs, by simp, ?_, hfollow⟩
  have : IsStmt spanOf _ _ := .whileStmt hk hc hb
  rwa [spanOf_cons_append k hb.ne_nil, ← hb.note_eq] at this

theorem spec_returnStatement (hk : k.kind.keyword? = some .returnWord)
    (h : (returnStatement k.span).ReadsBy Rule.Spec es s us) : StmtSpec k es s us := by
  obtain ⟨-, hx⟩ | ⟨c, vs, rfl, hc, hx⟩ := readsBy_nextIf_bind.mp h
  · obtain ⟨e, vs, hw, c, ws, hrc, rfl, rfl⟩ := hx
    obtain ⟨-, ts, rfl, he⟩ := spec_wanted hw
    obtain ⟨rfl, hc⟩ := readsBy_symbol.mp hrc
    refine ⟨ts ++ [c], by simp, ?_, by simp [Stmt.endsInIf]⟩
    have : IsStmt spanOf _ _ := .returnSome hk he hc
    rwa [spanOf_enclosed] at this
  · obtain ⟨rfl, rfl⟩ := hx
    exact ⟨[c], rfl, .returnNone hk (Token.isSymbol_iff.mp hc), by simp [Stmt.endsInIf]⟩

theorem spec_letDeclaration (hk : k.kind.keyword? = some .letWord)
    (h : (letDeclaration k.span).ReadsBy Rule.Spec es s us) : StmtSpec k es s us := by
  obtain ⟨name, vs, hrn, type, ws, hrt, q, xs, hrq, e, ys, hw, c, zs, hrc, rfl, rfl⟩ := h
  obtain ⟨n, text, rfl, hn, rfl⟩ := readsBy_name.mp hrn
  obtain ⟨ts, rfl, ht⟩ := spec_annotation hrt
  obtain ⟨rfl, hq⟩ := readsBy_symbol.mp hrq
  obtain ⟨-, us', rfl, he⟩ := spec_wanted hw
  obtain ⟨rfl, hc⟩ := readsBy_symbol.mp hrc
  refine ⟨n :: (ts ++ q :: (us' ++ [c])), by simp, ?_, by simp [Stmt.endsInIf]⟩
  have hspan : spanOf (k :: n :: (ts ++ q :: (us' ++ [c]))) = k.span.join c.span := by
    rw [show n :: (ts ++ q :: (us' ++ [c])) = (n :: (ts ++ q :: us')) ++ [c] by simp, spanOf_enclosed]
  have : IsStmt spanOf _ _ := .decl hk hn ht hq he hc
  rwa [hspan] at this

theorem spec_expressionStatement {head : Head} (hhead : k.head? = some head)
    (h : (expressionStatement head).ReadsBy Rule.Spec es s us) : StmtSpec k es s us := by
  obtain ⟨e, vs, hre, hx⟩ := h
  obtain ⟨-, ts, rfl, he⟩ := spec_expressionFrom hre
  obtain ⟨-, hy⟩ | ⟨c, ws, rfl, hy⟩ := readsBy_next_bind.mp hx
  · exact hy.elim
  · simp only at hy
    split at hy
    · next hc =>
        obtain ⟨rfl, rfl⟩ := hy
        refine ⟨ts ++ [c], by simp, ?_, by simp [Stmt.endsInIf]⟩
        have he' := he k hhead
        have : IsStmt spanOf _ _ := .expr he' (Token.isSymbol_iff.mp hc)
        rwa [spanOf_append he'.ne_nil (by simp), ← he'.note_eq] at this
    · exact hy.elim

theorem spec_jump {context : Construct} {stmt : Span → Stmt Span}
    (hstmt : ∀ c : Token, c.kind = .symbol .semicolon →
      IsStmt spanOf [k, c] (stmt (spanOf [k, c])) ∧ (stmt (spanOf [k, c])).endsInIf = false)
    (h : (do
      let semi ← symbol context k.span .semicolon .semicolon
      return stmt (k.span.join semi.span) : Parse Rule (Stmt Span)).ReadsBy Rule.Spec es s us) :
    StmtSpec k es s us := by
  obtain ⟨c, vs, hrc, rfl, rfl⟩ := h
  obtain ⟨rfl, hc⟩ := readsBy_symbol.mp hrc
  obtain ⟨hs, hopen⟩ := hstmt c hc
  refine ⟨[c], rfl, hs, fun h => ?_⟩
  rw [show k.span.join c.span = spanOf [k, c] from rfl, hopen] at h
  cases h

theorem spec_statementFrom (h : (statementFrom k).ReadsBy Rule.Spec es s us) : StmtSpec k es s us := by
  unfold statementFrom at h
  split at h
  · next hk => exact spec_ifStatement hk h
  · next hk => exact spec_whileStatement hk h
  · next hk => exact spec_jump (fun c hc => ⟨.breakStmt hk hc, rfl⟩) h
  · next hk => exact spec_jump (fun c hc => ⟨.continueStmt hk hc, rfl⟩) h
  · next hk => exact spec_returnStatement hk h
  · next hk => exact spec_letDeclaration hk h
  · exact h.elim
  · exact h.elim
  · split at h
    · next hs =>
        obtain ⟨rfl, rfl⟩ := h
        exact ⟨[], rfl, .empty (Token.isSymbol_iff.mp hs), by simp [Stmt.endsInIf]⟩
    · split at h
      · next ho =>
          obtain ⟨r, vs, ⟨ts, c, rfl, hc, hspan, hs⟩, rfl, rfl⟩ := h
          refine ⟨ts ++ [c], by simp, ?_, by simp [Stmt.endsInIf]⟩
          have : IsStmt spanOf _ _ := .block (Token.isSymbol_iff.mp ho) hs hc
          rwa [spanOf_enclosed, ← hspan] at this
      · split at h
        · next head hhead => exact spec_expressionStatement hhead h
        · exact h.elim

theorem spec_statement {o : Option (Stmt Span)} (h : statement.ReadsBy Rule.Spec es o us) :
    Rule.Spec .statement es o us := by
  obtain ⟨rfl, hx⟩ | ⟨t, vs, rfl, hx⟩ := readsBy_next_bind.mp h
  · obtain ⟨rfl, rfl⟩ := hx
    exact ⟨rfl, rfl⟩
  · obtain ⟨s, ws, hs, rfl, rfl⟩ := hx
    obtain ⟨ts, rfl, hs, hfollow⟩ := spec_statementFrom hs
    exact ⟨t :: ts, rfl, hs, hfollow⟩

theorem spec_block {opening : Span} {r : List (Stmt Span) × Span}
    (h : (block opening).ReadsBy Rule.Spec es r us) : Rule.Spec (.block opening) es r us := by
  obtain ⟨-, hx⟩ | ⟨c, vs, rfl, hc, hx⟩ := readsBy_nextIf_bind.mp h
  · obtain ⟨o, vs, hs, hy⟩ := hx
    cases o with
    | none => exact hy.elim
    | some s =>
        obtain ⟨ts, rfl, hs, -⟩ := hs
        obtain ⟨r', ws, ⟨us', c, rfl, hc, hspan, hr⟩, rfl, rfl⟩ := hy
        exact ⟨ts ++ us', c, by simp, hc, hspan, .cons hs hr⟩
  · obtain ⟨rfl, rfl⟩ := hx
    exact ⟨[], c, rfl, Token.isSymbol_iff.mp hc, rfl, .nil⟩

/-! ### Definitions and items -/

theorem spec_params {keyword : Span} {ps : List (Param Span)}
    (h : (params keyword).ReadsBy Rule.Spec es ps us) : Rule.Spec (.params keyword) es ps us := by
  obtain ⟨name, vs, hrn, type, ws, hrt, c, xs, hsep, hx⟩ := h
  obtain ⟨n, text, rfl, hn, rfl⟩ := readsBy_name.mp hrn
  obtain ⟨ts, rfl, ht⟩ := spec_annotation hrt
  obtain ⟨rfl, hc⟩ := readsBy_expect.mp hsep
  have hp : IsParam spanOf (n :: ts)
      ⟨(type.map fun t => n.span.join t.note).getD n.span, ⟨text, n.span⟩, type⟩ := by
    have : IsParam spanOf _ _ := .mk hn ht
    cases ht with
    | none => exact this
    | @some c us t hc ht =>
        rwa [show n :: c :: us = n :: ([c] ++ us) from rfl, spanOf_cons_append n ht.ne_nil,
          ← ht.note_eq] at this
  simp only at hx
  split at hx
  · next hcomma =>
      obtain ⟨rest, ys, ⟨us', c', rfl, hc', hs⟩, rfl, rfl⟩ := hx
      refine ⟨n :: ts ++ c :: us', c', by simp, hc', ?_⟩
      exact .more hp (Token.isSymbol_iff.mp hcomma) hs
  · next hcomma =>
      obtain ⟨rfl, rfl⟩ := hx
      rw [Token.isSymbol_iff] at hcomma
      exact ⟨n :: ts, c, by simp, (isSeparator_iff.mp hc).resolve_left hcomma, .one hp⟩

theorem spec_definitionBody {keyword : Span} {r : Body Span × Span}
    (h : (definitionBody keyword).ReadsBy Rule.Spec es r us) :
    ∃ ts : List Token, es = ts.map .ok ++ us ∧ IsBody spanOf ts r.1 ∧ r.2.stop = (spanOf ts).stop := by
  obtain ⟨-, hx⟩ | ⟨q, vs, rfl, hx⟩ := readsBy_next_bind.mp h
  · exact hx.elim
  · simp only at hx
    split at hx
    · next hq =>
        obtain ⟨e, ws, hw, c, xs, hrc, rfl, rfl⟩ := hx
        obtain ⟨-, ts, rfl, he⟩ := spec_wanted hw
        obtain ⟨rfl, hc⟩ := readsBy_symbol.mp hrc
        refine ⟨q :: (ts ++ [c]), by simp, .value (Token.isSymbol_iff.mp hq) he hc, ?_⟩
        rw [spanOf_enclosed]
        rfl
    · split at hx
      · next ho =>
          obtain ⟨r, vs, ⟨ts, c, rfl, hc, hspan, hs⟩, rfl, rfl⟩ := hx
          refine ⟨q :: (ts ++ [c]), by simp, .block (Token.isSymbol_iff.mp ho) hs hc, ?_⟩
          rw [spanOf_enclosed, ← hspan]
      · exact hx.elim

theorem spec_definition {k : Token} {d : Definition Span} (hk : k.kind.keyword? = some .defWord)
    (h : (definition k.span).ReadsBy Rule.Spec es d us) :
    ∃ ts : List Token, es = ts.map .ok ++ us ∧ IsDefinition spanOf (k :: ts) d := by
  obtain ⟨name, vs, hrn, o, ws, hro, params, xs, hrp, result, ys, hrr, r, zs, hrb, rfl, rfl⟩ := h
  obtain ⟨n, text, rfl, hn, rfl⟩ := readsBy_name.mp hrn
  obtain ⟨rfl, ho⟩ := readsBy_symbol.mp hro
  obtain ⟨ps, c, rfl, hc, hp⟩ : ∃ (ps : List Token) (c : Token), ws = ps.map .ok ++ .ok c :: xs ∧
      c.kind = .symbol .rparen ∧ Params spanOf ps params := by
    obtain ⟨-, hx⟩ | ⟨c, vs, rfl, hc, hx⟩ := readsBy_nextIf_bind.mp hrp
    · obtain ⟨ps, c, rfl, hc, hp⟩ := hx
      exact ⟨ps, c, rfl, hc, .some hp⟩
    · obtain ⟨rfl, rfl⟩ := hx
      exact ⟨[], c, rfl, Token.isSymbol_iff.mp hc, .none⟩
  obtain ⟨rs, rfl, hr⟩ := spec_annotation hrr
  obtain ⟨bs, rfl, hb, hstop⟩ := spec_definitionBody hrb
  have hspan : spanOf (k :: n :: o :: (ps ++ c :: (rs ++ bs))) = k.span.join r.2 := by
    rw [show n :: o :: (ps ++ c :: (rs ++ bs)) = (n :: o :: (ps ++ c :: rs)) ++ bs by simp,
      spanOf_cons_append k hb.ne_nil, Span.join, ← hstop]
    rfl
  refine ⟨n :: o :: (ps ++ c :: (rs ++ bs)), by simp, ?_⟩
  have : IsDefinition spanOf _ _ := .mk hk hn ho hp hc hr hb
  rwa [hspan] at this

end Grammar

/-! ### The rules -/

theorem Rule.spec_body {α : Type} (rule : Rule α) (es : List Entry) (a : α) (us : List Entry)
    (h : rule.body.ReadsBy Rule.Spec es a us) : rule.Spec es a us := by
  cases rule with
  | factor head => exact Grammar.spec_factor h
  | suffixes base => exact Grammar.spec_suffixes h
  | climb level left => exact Grammar.spec_climb h
  | items b opening trailing => exact Grammar.spec_items h
  | typeExpr context keyword => exact Grammar.spec_typeExpr h
  | types b context keyword => exact Grammar.spec_types h
  | params keyword => exact Grammar.spec_params h
  | statement => exact Grammar.spec_statement h
  | block opening => exact Grammar.spec_block h

/-- All that rules read obeys their specification. -/
theorem Rule.Reads.spec {α : Type} {rule : Rule α} {es us : List Entry} {a : α}
    (h : rule.Reads es a us) : rule.Spec es a us :=
  h.least Rule.spec_body

theorem Parse.ReadsBy.mono {ρ : Type → Type} {α : Type}
    {S T : {β : Type} → ρ β → List Entry → β → List Entry → Prop}
    (hST : ∀ {β : Type} (rule : ρ β) es b us, S rule es b us → T rule es b us) (p : Parse ρ α)
    {es us : List Entry} {a : α} (h : p.ReadsBy S es a us) : p.ReadsBy T es a us := by
  induction p generalizing es us with
  | andThen p q ihp ihq =>
      obtain ⟨b, vs, hp, hq⟩ := h
      exact ⟨b, vs, ihp hp, ihq b hq⟩
  | call rule => exact hST rule es _ us h
  | _ => exact h

/-- An item is read from the tokens of an item, and nothing is read only where nothing is left. -/
theorem Grammar.spec_item {es us : List Entry} {o : Option (Item Span)}
    (h : outcome item es = .ok o us) :
    match o with
    | none => es = [] ∧ us = []
    | some i => ∃ ts : List Token, es = ts.map .ok ++ us ∧ IsItem spanOf ts i := by
  have hs := ((outcome_eq_ok_iff item).mp h).mono (fun _ _ _ _ => Rule.Reads.spec)
  obtain ⟨-, hx⟩ | ⟨k, vs, rfl, hk, hx⟩ := Parse.readsBy_nextIf_bind.mp hs
  · obtain ⟨o, ws, hs, rfl, rfl⟩ := hx
    cases o with
    | none => exact hs
    | some s =>
        obtain ⟨ts, rfl, hs, -⟩ := hs
        exact ⟨ts, rfl, .stmt hs⟩
  · obtain ⟨d, ws, hrd, rfl, rfl⟩ := hx
    obtain ⟨ts, rfl, hd⟩ := spec_definition (Token.isKeyword_iff.mp hk) hrd
    exact ⟨k :: ts, rfl, .definition hd⟩

end SoundLang
