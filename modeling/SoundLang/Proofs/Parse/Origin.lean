import SoundLang.Proofs.Parse.Moved
import SoundLang.Proofs.Parse.Sentence

/-! # What errors are made of

An error that parsing tokens ends with is made of these tokens: the token that it has found is one of them, and the
places that it names reach from one of them to one of them (`ParseError.From`, `Grammar.readItems_from`).

`Parse.Draws` follows a procedure on tokens that all belong to `ts`.  A rule may be followed where what it is given
belongs to `ts` (`Rule.From`), and then so does what it gives (`Rule.Gives`). -/

namespace SoundLang

variable {ts : List Token}

/-- The span reaches from one of the tokens to one of them. -/
structure Span.From (ts : List Token) (s : Span) : Prop where
  start : ∃ t ∈ ts, t.span.start = s.start
  stop : ∃ t ∈ ts, t.span.stop = s.stop

theorem Span.From.join {first last : Span} (h : first.From ts) (h' : last.From ts) : (first.join last).From ts :=
  ⟨h.start, h'.stop⟩

theorem Token.span_from {t : Token} (h : t ∈ ts) : t.span.From ts := ⟨⟨t, h, rfl⟩, ⟨t, h, rfl⟩⟩

namespace ParseError

/-- The token that the error has found in the place of another. -/
def found? : ParseError → Option Token
  | tokenAfterUnary _ _ found | tokenAfterBinary _ _ found | missingSeparator _ _ found | missingSemicolon _ found
  | noStatement found | unexpected _ _ _ found | noItem _ _ found => some found
  | _ => none

/-- The places that the error names, apart from that of the token it has found. -/
def places : ParseError → List Span
  | lexical _ | noStatement _ => []
  | tokenAfterUnary _ operator _ | endAfterUnary _ operator | tokenAfterBinary _ operator _
  | endAfterBinary _ operator => [operator]
  | unclosedBracket _ opening | missingSeparator _ opening _ | unclosedBlock opening | noItem _ opening _ => [opening]
  | mismatchedBracket _ opening closing => [opening, closing]
  | emptyItem comma => [comma]
  | emptyIndex span | multipleIndices span _ => [span]
  | missingSemicolon expr _ | endAfterExpression expr => [expr]
  | unexpected _ keyword _ _ | cutOff _ keyword _ => [keyword]

/-- The error is made of the tokens. -/
structure From (ts : List Token) (e : ParseError) : Prop where
  lexical? : e.lexical? = none
  found? : ∀ t ∈ e.found?, t ∈ ts
  places : ∀ s ∈ e.places, s.From ts

end ParseError

namespace Want

/-- The operator, bracket or keyword that asks. -/
def place : Want → Span
  | unary _ operator | binary _ operator => operator
  | item _ opening => opening
  | construct _ keyword => keyword

theorem from_missing {want : Want} (h : want.place.From ts) : want.missing.From ts := by
  cases want <;> exact ⟨rfl, nofun, List.forall_mem_singleton.mpr h⟩

theorem from_unexpected {want : Want} {t : Token} (h : want.place.From ts) (ht : t ∈ ts) :
    (want.unexpected t).From ts := by
  cases want <;> exact ⟨rfl, fun _ he => Option.some.inj he ▸ ht, List.forall_mem_singleton.mpr h⟩

end Want

/-- The first token of the expression is one of the tokens. -/
def Head.From (ts : List Token) : Head → Prop
  | leaf e => e.note.From ts
  | unary _ operator => operator.From ts
  | opening _ span => span.From ts

theorem Token.head_from {t : Token} {head : Head} (ht : t ∈ ts) (h : t.head? = some head) : head.From ts := by
  unfold Token.head? at h
  split at h
  · cases h
    exact Token.span_from ht
  · cases h
    exact Token.span_from ht
  · obtain ⟨e, he, rfl⟩ := Option.map_eq_some_iff.mp h
    have hnote : e.note = t.span := by
      unfold Token.leaf? at he
      split at he <;> grind [Expr.note]
    change e.note.From ts
    rw [hnote]
    exact Token.span_from ht

/-- What the rule is given is made of the tokens. -/
def Rule.From (ts : List Token) : {β : Type} → Rule β → Prop
  | _, factor head => head.From ts
  | _, suffixes base | _, climb _ base => base.note.From ts
  | _, items _ opening _ | _, block opening => opening.From ts
  | _, typeExpr _ keyword | _, types _ _ keyword | _, params keyword => keyword.From ts
  | _, statement => True

/-- What the rule gives is made of the tokens, as far as an error may name it. -/
def Rule.Gives (ts : List Token) : {β : Type} → Rule β → β → Prop
  | _, factor _, e | _, suffixes _, e | _, climb .., e => e.note.From ts
  | _, items .., l => l.span.From ts
  | _, typeExpr .., _ | _, types .., _ | _, params _, _ | _, statement, _ | _, block _, _ => True

namespace Parse

variable {α β : Type} {Q : α → Prop} {R : β → Prop}

/-- On tokens of `ts` the results of the procedure have `Q`, and its errors are made of these tokens. -/
inductive Draws (ts : List Token) : {α : Type} → Parse Rule α → (α → Prop) → Prop
  | done {α : Type} {Q : α → Prop} {a : α} (h : Q a) : Draws ts (done a) Q
  | andThen {α β : Type} {p : Parse Rule β} {q : β → Parse Rule α} {R : β → Prop} {Q : α → Prop}
      (first : Draws ts p R) (rest : ∀ b, R b → Draws ts (q b) Q) : Draws ts (andThen p q) Q
  | fail {α : Type} {Q : α → Prop} {e : ParseError} (h : e.From ts) : Draws ts (fail e) Q
  | peek : Draws ts peek fun o => ∀ t ∈ o, t ∈ ts
  | next : Draws ts next fun o => ∀ t ∈ o, t ∈ ts
  | call {α : Type} {rule : Rule α} (h : rule.From ts) : Draws ts (call rule) (rule.Gives ts)

namespace Draws

theorem bind {p : Parse Rule β} {q : β → Parse Rule α} (first : p.Draws ts R) (rest : ∀ b, R b → (q b).Draws ts Q) :
    (p >>= q).Draws ts Q :=
  .andThen first rest

/-- One procedure for an answer that is a token, and another for none. -/
theorem option {p : Parse Rule (Option β)} {q : Option β → Parse Rule α} (first : p.Draws ts fun o => ∀ b ∈ o, R b)
    (none : (q none).Draws ts Q) (some : ∀ b, R b → (q (some b)).Draws ts Q) : (p >>= q).Draws ts Q :=
  .andThen first fun o ho =>
    match o with
    | .none => none
    | .some b => some b (ho b rfl)

theorem ite {c : Prop} [Decidable c] {p q : Parse Rule α} (yes : p.Draws ts Q) (no : q.Draws ts Q) :
    (if c then p else q).Draws ts Q := by
  split
  · exact yes
  · exact no

theorem nextIf {accept : Token → Bool} : (nextIf accept).Draws ts fun o => ∀ t ∈ o, t ∈ ts :=
  .bind .peek fun _ _ => .ite .next (.done nofun)

theorem expect {context : Construct} {keyword : Span} {expected : Expectation} {accept : Token → Bool}
    (h : keyword.From ts) : (expect context keyword expected accept).Draws ts (· ∈ ts) :=
  .option .next (.fail ⟨rfl, nofun, List.forall_mem_singleton.mpr h⟩) fun _ ht =>
    .ite (.done ht) (.fail ⟨rfl, fun _ he => Option.some.inj he ▸ ht, List.forall_mem_singleton.mpr h⟩)

end Draws

/-- The result has `Q` and leaves tokens of `ts`, or the error is made of `ts`. -/
def Drawn (ts : List Token) (Q : α → Prop) : EStateM.Result Stop (List Entry) α → Prop
  | .ok a es => Q a ∧ ∃ us, us ⊆ ts ∧ es = us.map .ok
  | .error (.error e) _ => e.From ts
  | .error .tooDeep _ => True

theorem drawn_answer {us vs : List Token} (hus : us ⊆ ts) (hvs : vs ⊆ ts) :
    Drawn ts (fun o => ∀ t ∈ o, t ∈ ts) (answer (Entry.front (us.map .ok), vs.map .ok)) := by
  cases us with
  | nil => exact ⟨nofun, vs, hvs, rfl⟩
  | cons t us => exact ⟨fun _ h => Option.some.inj h ▸ hus List.mem_cons_self, vs, hvs, rfl⟩

/-- A procedure does what is known of it, if the rules do. -/
theorem Draws.run {p : Parse Rule α} (h : p.Draws ts Q)
    {follow : {β : Type} → Rule β → EStateM Stop (List Entry) β}
    (hfollow : ∀ {β : Type} (rule : Rule β) us, rule.From ts → us ⊆ ts →
      Drawn ts (rule.Gives ts) (follow rule (us.map .ok)))
    {us : List Token} (hus : us ⊆ ts) : Drawn ts Q (p.run follow (us.map .ok)) := by
  induction h generalizing us with
  | done h => exact ⟨h, us, hus, rfl⟩
  | @andThen _ _ p q _ _ _ _ ihfirst ihrest =>
      have hp := ihfirst hus
      simp only [Parse.run]
      cases hr : p.run follow (us.map .ok) with
      | ok b es =>
          rw [hr] at hp
          obtain ⟨hb, vs, hvs, rfl⟩ := hp
          exact ihrest b hb hvs
      | error stop es =>
          rw [hr] at hp
          cases stop with
          | error e => exact hp
          | tooDeep => trivial
  | fail h => exact h
  | peek => exact drawn_answer hus hus
  | next =>
      have hrun : (Parse.next : Parse Rule _).run follow (us.map .ok) =
          answer (Entry.front (us.map .ok), us.tail.map .ok) := by
        rw [List.map_tail]
        rfl
      rw [hrun]
      exact drawn_answer hus fun t ht => hus (List.mem_of_mem_tail ht)
  | call h => exact hfollow _ us h hus

end Parse

namespace Grammar

open Parse

/-! ### The procedures -/

theorem draws_operand {want : Want} (h : want.place.From ts) : (operand want).Draws ts (Head.From ts) := by
  refine .option .next (.fail (Want.from_missing h)) fun t ht => ?_
  simp only
  cases hhead : t.head? with
  | none => exact .fail (Want.from_unexpected h ht)
  | some head => exact .done (Token.head_from ht hhead)

theorem draws_expressionFrom {head : Head} (h : head.From ts) :
    (expressionFrom head).Draws ts fun e => e.note.From ts :=
  .bind (.call h) fun _ hleft => .call hleft

theorem draws_wanted {want : Want} (h : want.place.From ts) : (wanted want).Draws ts fun e => e.note.From ts :=
  .bind (draws_operand h) fun _ hhead => draws_expressionFrom hhead

theorem note_bracketed (b : Bracket) (l : Bracketed) : (bracketed b l).note = l.span := by
  unfold bracketed
  split
  · rfl
  · split <;> rfl
  · rfl

theorem draws_factor {head : Head} (h : head.From ts) : (factor head).Draws ts fun e => e.note.From ts := by
  cases head with
  | leaf e => exact .call h
  | unary op operator =>
      exact .bind (draws_operand h) fun _ hhead => .bind (.call hhead) fun _ hinner => .call (h.join hinner)
  | opening b span =>
      refine .bind (.call h) fun l hl => .call ?_
      change (bracketed b l).note.From ts
      rw [note_bracketed]
      exact hl

theorem draws_suffixes {base : Expr Span} (h : base.note.From ts) :
    (suffixes base).Draws ts fun e => e.note.From ts := by
  refine .option .peek (.done h) fun t ht => ?_
  have hspan := Token.span_from ht
  simp only
  match suffix? t with
  | none => exact .done h
  | some (.op op) => exact .bind .next fun _ _ => .call (h.join hspan)
  | some (.opening .round) => exact .bind .next fun _ _ => .bind (.call hspan) fun _ hl => .call (h.join hl)
  | some (.opening .square) =>
      refine .bind .next fun _ _ => .bind (.call hspan) fun l hl => ?_
      split
      · exact .call (h.join hl)
      · exact .fail ⟨rfl, nofun, List.forall_mem_singleton.mpr hl⟩
      · exact .fail ⟨rfl, nofun, List.forall_mem_singleton.mpr hl⟩

theorem draws_operator? (level : Nat) : (operator? level).Draws ts fun o => ∀ r ∈ o, r.2.From ts := by
  refine .option .peek (.done nofun) fun t ht => ?_
  simp only [Option.bind_some]
  cases t.kind.infixOp?.filter (·.level ≤ level) with
  | none => exact .done nofun
  | some op => exact .bind .next fun _ _ => .done fun _ hr => Option.some.inj hr ▸ Token.span_from ht

theorem draws_climb {level : Nat} {left : Expr Span} (h : left.note.From ts) :
    (climb level left).Draws ts fun e => e.note.From ts :=
  .option (draws_operator? level) (.done h) fun (_, _) hoperator =>
    .bind (draws_operand hoperator) fun _ hhead => .bind (.call hhead) fun _ hfirst => .bind (.call hfirst)
      fun _ hright => .call (h.join hright)

theorem draws_itemEnd {b : Bracket} {opening : Span} (h : opening.From ts) :
    (itemEnd b opening).Draws ts fun _ => True := by
  have hplace : ∀ s ∈ [opening], s.From ts := List.forall_mem_singleton.mpr h
  refine .option .nextIf (.bind .peek fun _ _ => .ite (.done trivial) ?_) fun _ _ => .done trivial
  exact .option .next (.fail ⟨rfl, nofun, hplace⟩) fun _ ht => .fail ⟨rfl, fun _ he => Option.some.inj he ▸ ht, hplace⟩

theorem draws_items {b : Bracket} {opening : Span} {trailing : Bool} (h : opening.From ts) :
    (items b opening trailing).Draws ts fun l => l.span.From ts := by
  refine .bind .peek fun o ho => ?_
  cases hclosing : o.bind fun t => t.kind.closes?.map (·, t.span) with
  | none =>
      refine .option .nextIf ?_ fun comma hcomma => .fail ⟨rfl, nofun, ?_⟩
      · exact .bind (draws_wanted h) fun _ _ => .bind (draws_itemEnd h) fun _ _ => .bind (.call h) fun _ hl => .done hl
      · exact List.forall_mem_singleton.mpr (Token.span_from hcomma)
  | some c =>
      obtain ⟨closing, span⟩ := c
      obtain ⟨t, ht, hspan⟩ := Option.bind_eq_some_iff.mp hclosing
      obtain ⟨_, -, hpair⟩ := Option.map_eq_some_iff.mp hspan
      have hstop : span.From ts := (Prod.mk.inj hpair).2 ▸ Token.span_from (ho t ht)
      refine .ite (.bind .next fun _ _ => .done (h.join hstop)) (.fail ⟨rfl, nofun, ?_⟩)
      exact List.forall_mem_cons.mpr ⟨h, List.forall_mem_singleton.mpr hstop⟩

section
variable {context : Construct} {keyword : Span}

theorem from_cutOff {expected : Expectation} (h : keyword.From ts) : (ParseError.cutOff context keyword expected).From ts :=
  ⟨rfl, nofun, List.forall_mem_singleton.mpr h⟩

theorem from_unexpected {expected : Expectation} {t : Token} (h : keyword.From ts) (ht : t ∈ ts) :
    (ParseError.unexpected context keyword expected t).From ts :=
  ⟨rfl, fun _ he => Option.some.inj he ▸ ht, List.forall_mem_singleton.mpr h⟩

theorem draws_name (h : keyword.From ts) : (name context keyword).Draws ts fun _ => True := by
  refine .option .next (.fail (from_cutOff h)) fun t ht => ?_
  simp only
  cases t.kind.name? with
  | none => exact .fail (from_unexpected h ht)
  | some text => exact .done trivial

theorem draws_typeList {b : Bracket} (h : keyword.From ts) : (typeList b context keyword).Draws ts fun _ => True :=
  .option .nextIf (.call h) fun _ _ => .done trivial

theorem draws_typeExpr (h : keyword.From ts) : (typeExpr context keyword).Draws ts fun _ => True := by
  refine .option .next (.fail (from_cutOff h)) fun t ht => ?_
  simp only
  cases t.kind.name? with
  | some text => exact .option .nextIf (.done trivial) fun _ _ => .bind (draws_typeList h) fun _ _ => .done trivial
  | none => exact .ite (.bind (draws_typeList h) fun _ _ => .done trivial) (.fail (from_unexpected h ht))

theorem draws_types {b : Bracket} (h : keyword.From ts) : (types b context keyword).Draws ts fun _ => True :=
  .bind (.call h) fun _ _ => .bind (.expect h) fun _ _ =>
    .ite (.bind (.call h) fun _ _ => .done trivial) (.done trivial)

theorem draws_annotation (h : keyword.From ts) : ( annotation context keyword).Draws ts fun _ => True :=
  .option .nextIf (.done trivial) fun _ _ => .bind (.call h) fun _ _ => .done trivial

theorem draws_condition (h : keyword.From ts) : (condition context keyword).Draws ts fun _ => True :=
  .bind (.expect h) fun _ _ => .bind (draws_wanted h) fun _ _ => .bind (.expect h) fun _ _ => .done trivial

theorem draws_governed (h : keyword.From ts) : (governed context keyword).Draws ts fun _ => True :=
  .bind (.call trivial) fun s _ =>
    match s with
    | none => .fail (from_cutOff h)
    | some _ => .done trivial

theorem draws_ifStatement (h : keyword.From ts) : (ifStatement keyword).Draws ts fun _ => True :=
  .bind (draws_condition h) fun _ _ => .bind (draws_governed h) fun _ _ => .option .nextIf (.done trivial) fun _ _ =>
    .bind (draws_governed h) fun _ _ => .done trivial

theorem draws_whileStatement (h : keyword.From ts) : (whileStatement keyword).Draws ts fun _ => True :=
  .bind (draws_condition h) fun _ _ => .bind (draws_governed h) fun _ _ => .done trivial

theorem draws_returnStatement (h : keyword.From ts) : (returnStatement keyword).Draws ts fun _ => True :=
  .option .nextIf (.bind (draws_wanted h) fun _ _ => .bind (.expect h) fun _ _ => .done trivial) fun _ _ =>
    .done trivial

theorem draws_letDeclaration (h : keyword.From ts) : (letDeclaration keyword).Draws ts fun _ => True :=
  .bind (draws_name h) fun _ _ => .bind ( draws_annotation h) fun _ _ => .bind (.expect h) fun _ _ =>
    .bind (draws_wanted h) fun _ _ => .bind (.expect h) fun _ _ => .done trivial

end

theorem draws_expressionStatement {head : Head} (h : head.From ts) :
    (expressionStatement head).Draws ts fun _ => True :=
  .bind (draws_expressionFrom h) fun _ he =>
    .option .next (.fail ⟨rfl, nofun, List.forall_mem_singleton.mpr he⟩) fun _ ht =>
      .ite (.done trivial) (.fail ⟨rfl, fun _ hf => Option.some.inj hf ▸ ht, List.forall_mem_singleton.mpr he⟩)

theorem draws_statementFrom {t : Token} (ht : t ∈ ts) : (statementFrom t).Draws ts fun _ => True := by
  have hspan := Token.span_from ht
  have hnone : (ParseError.noStatement t).From ts := ⟨rfl, fun _ he => Option.some.inj he ▸ ht, nofun⟩
  unfold statementFrom
  split
  · exact draws_ifStatement hspan
  · exact draws_whileStatement hspan
  · exact .bind (.expect hspan) fun _ _ => .done trivial
  · exact .bind (.expect hspan) fun _ _ => .done trivial
  · exact draws_returnStatement hspan
  · exact draws_letDeclaration hspan
  · exact .fail hnone
  · exact .fail hnone
  · refine .ite (.done trivial) (.ite (.bind (.call hspan) fun _ _ => .done trivial) ?_)
    cases hhead : t.head? with
    | none => exact .fail hnone
    | some head => exact draws_expressionStatement (Token.head_from ht hhead)

theorem draws_statement : statement.Draws ts fun _ => True :=
  .option .next (.done trivial) fun _ ht => .bind (draws_statementFrom ht) fun _ _ => .done trivial

theorem draws_block {opening : Span} (h : opening.From ts) : (block opening).Draws ts fun _ => True :=
  .option .nextIf
    (.bind (.call trivial) fun s _ =>
      match s with
      | none => .fail ⟨rfl, nofun, List.forall_mem_singleton.mpr h⟩
      | some _ => .bind (.call h) fun _ _ => .done trivial)
    fun _ _ => .done trivial

section
variable {keyword : Span}

theorem draws_params (h : keyword.From ts) : (params keyword).Draws ts fun _ => True :=
  .bind (draws_name h) fun _ _ => .bind ( draws_annotation h) fun _ _ => .bind (.expect h) fun _ _ =>
    .ite (.bind (.call h) fun _ _ => .done trivial) (.done trivial)

theorem draws_definitionBody (h : keyword.From ts) : (definitionBody keyword).Draws ts fun _ => True := by
  refine .option .next (.fail (from_cutOff h)) fun t ht => .ite ?_ (.ite ?_ (.fail (from_unexpected h ht)))
  · exact .bind (draws_wanted h) fun _ _ => .bind (.expect h) fun _ _ => .done trivial
  · exact .bind (.call (Token.span_from ht)) fun _ _ => .done trivial

theorem draws_definition (h : keyword.From ts) : (definition keyword).Draws ts fun _ => True := by
  refine .bind (draws_name h) fun _ _ => .bind (.expect h) fun _ _ => .bind (R := fun _ => True) ?_ fun _ _ =>
    .bind ( draws_annotation h) fun _ _ => .bind (draws_definitionBody h) fun _ _ => .done trivial
  exact .option .nextIf (.call h) fun _ _ => .done trivial

end

theorem draws_item : item.Draws ts fun _ => True :=
  .option .nextIf (.bind (.call trivial) fun _ _ => .done trivial) fun _ ht =>
    .bind (draws_definition (Token.span_from ht)) fun _ _ => .done trivial

theorem draws_body {α : Type} (rule : Rule α) (h : rule.From ts) : rule.body.Draws ts (rule.Gives ts) := by
  cases rule with
  | factor head => exact draws_factor h
  | suffixes base => exact draws_suffixes h
  | climb level left => exact draws_climb h
  | items b opening trailing => exact draws_items h
  | typeExpr context keyword => exact draws_typeExpr h
  | types b context keyword => exact draws_types h
  | params keyword => exact draws_params h
  | statement => exact draws_statement
  | block opening => exact draws_block h

/-! ### The errors of a run -/

theorem drawn_runRule (d : Nat) : ∀ {β : Type} (rule : Rule β) (us : List Token), rule.From ts → us ⊆ ts →
    Drawn ts (rule.Gives ts) (runRule Rule.body d rule (us.map .ok)) := by
  induction d with
  | zero => exact fun _ _ _ _ => trivial
  | succ d ih => exact fun rule us h hus => (draws_body rule h).run ih hus

/-- An error that tokens end with is made of these tokens. -/
theorem readItems_from {bound : Nat} {e : ParseError} : ∀ {us : List Token}, us ⊆ ts →
    (readItems bound (us.map .ok : List Entry)).2.1 = some e → e.From ts := by
  induction bound with
  | zero => exact fun _ h => nomatch h
  | succ bound ih =>
      intro us hus h
      have hrun := (@draws_item ts).run (drawn_runRule (depth (bound + 1))) hus
      rw [readItems, readWithin] at h
      cases hr : item.run (runRule Rule.body (depth (bound + 1))) (us.map .ok : List Entry) with
      | error stop es =>
          rw [hr] at hrun h
          cases stop with
          | error e' =>
              cases h
              exact hrun
          | tooDeep => cases h
      | ok o es =>
          rw [hr] at hrun h
          obtain ⟨-, vs, hvs, rfl⟩ := hrun
          cases o with
          | none => cases h
          | some i => exact ih hvs h

theorem readAll_from {us : List Token} {e : ParseError} (h : (readAll (us.map .ok : List Entry)).2.1 = some e) :
    e.From us :=
  readItems_from (List.Subset.refl us) h

end Grammar

end SoundLang
