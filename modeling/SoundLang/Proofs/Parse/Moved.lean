import SoundLang.Proofs.Source.Down

/-! # The grammar does not depend on where a text stands

A procedure looks at the kinds of tokens and passes their places on.  So one that is given everything `k` lines further
down does the same, and gives everything `k` lines further down (`Parse.Moved`).  This is shown of each procedure of the
grammar, and so of each rule (`Grammar.moved_body`).  On two sources that answer alike but for the places, whatever is
read is then alike (`Grammar.readWithin_shifted`). -/

namespace SoundLang

open Placed (down)

instance : Placed Head := ⟨fun k head =>
  match head with
  | .leaf e => .leaf (down k e)
  | .unary op operator => .unary op (down k operator)
  | .opening b span => .opening b (down k span)⟩

instance : Placed Bracketed := ⟨fun k l => ⟨down k l.items, l.trailing, down k l.span⟩⟩

instance : Placed Want := ⟨fun k want =>
  match want with
  | .unary op operator => .unary op (down k operator)
  | .binary op operator => .binary op (down k operator)
  | .item b opening => .item b (down k opening)
  | .construct context keyword => .construct context (down k keyword)⟩

instance Parse.placedStop : Placed Parse.Stop := ⟨fun k stop =>
  match stop with
  | .error e => .error (down k e)
  | .tooDeep => .tooDeep⟩

namespace Rule

/-- What a rule reads names places. -/
@[reducible] def placed : {α : Type} → Rule α → Placed α
  | _, factor _ | _, suffixes _ | _, climb .. => inferInstanceAs (Placed (Expr Span))
  | _, items .. => inferInstanceAs (Placed Bracketed)
  | _, typeExpr .. => inferInstanceAs (Placed (TypeExpr Span))
  | _, types .. => inferInstanceAs (Placed (List (TypeExpr Span) × Span))
  | _, params _ => inferInstanceAs (Placed (List (Param Span)))
  | _, statement => inferInstanceAs (Placed (Option (Stmt Span)))
  | _, block _ => inferInstanceAs (Placed (List (Stmt Span) × Span))

/-- The rule with all that it is given `k` lines further down. -/
def down (k : Nat) : {α : Type} → Rule α → Rule α
  | _, factor head => factor (Placed.down k head)
  | _, suffixes base => suffixes (Placed.down k base)
  | _, climb level left => climb level (Placed.down k left)
  | _, items b opening trailing => items b (Placed.down k opening) trailing
  | _, typeExpr context keyword => typeExpr context (Placed.down k keyword)
  | _, types b context keyword => types b context (Placed.down k keyword)
  | _, params keyword => params (Placed.down k keyword)
  | _, statement => statement
  | _, block opening => block (Placed.down k opening)

end Rule

/-- The lexical error that an error passes on. -/
def ParseError.lexical? : ParseError → Option LexError
  | lexical e => some e
  | _ => none

namespace Parse

variable {α β : Type} [Placed α] [Placed β] {k : Nat}

/-- The second procedure is the first with all that it is given `k` lines further down.  Neither makes up lexical
errors. -/
inductive Moved (k : Nat) : {α : Type} → [Placed α] → Parse Rule α → Parse Rule α → Prop
  | done {α : Type} [Placed α] (a : α) : Moved k (done a) (done (down k a))
  | andThen {α β : Type} [Placed α] [Placed β] {p p' : Parse Rule β} {q q' : β → Parse Rule α}
      (first : Moved k p p') (rest : ∀ b, Moved k (q b) (q' (down k b))) : Moved k (andThen p q) (andThen p' q')
  | fail {α : Type} [Placed α] (e : ParseError) (he : e.lexical? = none) :
      Moved k (fail e : Parse Rule α) (fail (down k e))
  | peek : Moved k peek peek
  | next : Moved k next next
  | call {α : Type} (rule : Rule α) : @Moved k α rule.placed (call rule) (call (rule.down k))

namespace Moved

theorem pure (a : α) : Moved k (pure a) (pure (down k a)) := .done a

theorem bind {p p' : Parse Rule β} {q q' : β → Parse Rule α} (first : Moved k p p')
    (rest : ∀ b, Moved k (q b) (q' (down k b))) : Moved k (p >>= q) (p' >>= q') :=
  .andThen first rest

/-- One procedure for an answer that is a token, and another for none. -/
theorem option {p p' : Parse Rule (Option β)} {q q' : Option β → Parse Rule α} (first : Moved k p p')
    (none : Moved k (q none) (q' none)) (some : ∀ b, Moved k (q (some b)) (q' (some (down k b)))) :
    Moved k (p >>= q) (p' >>= q') :=
  .andThen first fun o =>
    match o with
    | .none => none
    | .some b => some b

/-- One procedure where a condition holds, and another where it does not. -/
theorem ite {c c' : Prop} [Decidable c] [Decidable c'] (hc : c' ↔ c) {p p' q q' : Parse Rule α}
    (yes : Moved k p p') (no : Moved k q q') : Moved k (if c then p else q) (if c' then p' else q') := by
  by_cases h : c
  · rw [if_pos h, if_pos (hc.mpr h)]
    exact yes
  · rw [if_neg h, if_neg (mt hc.mp h)]
    exact no

theorem nextIf {accept : Token → Bool} (haccept : ∀ t, accept (down k t) = accept t) :
    Moved k (nextIf accept) (nextIf accept) :=
  option .peek (.done none) fun t => .ite (iff_of_eq (congrArg (· = true) (haccept t))) .next (.done none)

theorem expect {context : Construct} {keyword : Span} {expected : Expectation} {accept : Token → Bool}
    (haccept : ∀ t, accept (down k t) = accept t) :
    Moved k (expect context keyword expected accept) (expect context (down k keyword) expected accept) :=
  option .next (.fail _ rfl) fun t =>
    .ite (iff_of_eq (congrArg (· = true) (haccept t))) (.done t) (.fail _ rfl)

end Moved

end Parse

/-! ### Tokens and parts of the grammar -/

section
variable (k : Nat)

theorem Token.leaf?_down (t : Token) : (down k t).leaf? = down k t.leaf? := by
  obtain ⟨kind, span⟩ := t
  cases kind with
  | word text =>
      change (if _ then _ else _) = down k (if _ then _ else _)
      split <;> rfl
  | number | string | symbol => rfl

theorem Token.head?_down (t : Token) : (down k t).head? = down k t.head? := by
  unfold Token.head?
  rw [Token.leaf?_down, Token.kind_down]
  split
  · rfl
  · rfl
  · cases t.leaf? <;> rfl

theorem Want.missing_down (want : Want) : (down k want).missing = down k want.missing := by
  cases want <;> rfl

theorem Want.unexpected_down (want : Want) (t : Token) :
    (down k want).unexpected (down k t) = down k (want.unexpected t) := by
  cases want <;> rfl

@[simp] theorem Bracketed.items_down (l : Bracketed) : (down k l).items = down k l.items := rfl

@[simp] theorem Bracketed.span_down (l : Bracketed) : (down k l).span = down k l.span := rfl

theorem ParseError.lexical?_missing (want : Want) : want.missing.lexical? = none := by
  cases want <;> rfl

theorem ParseError.lexical?_unexpected (want : Want) (t : Token) : (want.unexpected t).lexical? = none := by
  cases want <;> rfl

end

namespace Grammar

open Parse

variable {k : Nat}

theorem bracketed_down (b : Bracket) (l : Bracketed) : bracketed b (down k l) = down k (bracketed b l) := by
  obtain ⟨es, trailing, span⟩ := l
  match b, es with
  | .square, es => exact (Expr.down_list k span es).symm
  | .round, [] => exact (Expr.down_tuple k span []).symm
  | .round, e :: e' :: es => exact (Expr.down_tuple k span (e :: e' :: es)).symm
  | .round, [e] =>
      cases trailing with
      | false => rfl
      | true => exact (Expr.down_tuple k span [e]).symm

theorem suffix?_down (t : Token) : suffix? (down k t) = suffix? t := rfl

/-! ### The procedures -/

theorem moved_operand (want : Want) : Moved k (operand want) (operand (down k want)) := by
  refine .option .next ?_ fun t => ?_
  · rw [Want.missing_down]
    exact .fail _ (ParseError.lexical?_missing want)
  · simp only [Token.head?_down, Want.unexpected_down]
    cases t.head? with
    | none => exact .fail _ (ParseError.lexical?_unexpected want t)
    | some head => exact .done head

theorem moved_expressionFrom (head : Head) : Moved k (expressionFrom head) (expressionFrom (down k head)) :=
  .bind (.call (.factor head)) fun left => .call (.climb BinaryOp.loosest left)

theorem moved_wanted (want : Want) : Moved k (wanted want) (wanted (down k want)) :=
  .bind (moved_operand want) moved_expressionFrom

theorem moved_factor (head : Head) : Moved k (factor head) (factor (down k head)) := by
  cases head with
  | leaf e => exact .call (.suffixes e)
  | unary op operator =>
      refine .bind (moved_operand (.unary op operator)) fun head => .bind (.call (.factor head)) fun inner => ?_
      rw [Expr.note_down, down_join]
      exact .call (.suffixes (.unary (operator.join inner.note) op inner))
  | opening b span =>
      refine .bind (.call (.items b span false)) fun l => ?_
      rw [bracketed_down]
      exact .call (.suffixes (bracketed b l))

theorem moved_suffixes (base : Expr Span) : Moved k (suffixes base) (suffixes (down k base)) := by
  refine .option .peek (.done base) fun t => ?_
  simp only [suffix?_down]
  match suffix? t with
  | none => exact .done base
  | some (.op op) =>
      simp only
      rw [Expr.note_down, Token.span_down, down_join]
      exact .bind .next fun _ => .call (.suffixes (.unary (base.note.join t.span) op base))
  | some (.opening .round) =>
      refine .bind .next fun _ => .bind (.call (.items .round t.span false)) fun l => ?_
      rw [Expr.note_down, Bracketed.span_down, down_join, Bracketed.items_down, ← Expr.down_call]
      exact .call (.suffixes (.call (base.note.join l.span) base l.items))
  | some (.opening .square) =>
      refine .bind .next fun _ => .bind (.call (.items .square t.span false)) fun l => ?_
      obtain ⟨es, trailing, span⟩ := l
      match es with
      | [] => exact .fail (.emptyIndex span) rfl
      | [i] =>
          simp only [Bracketed.items_down, Bracketed.span_down, down_cons, down_nil]
          rw [Expr.note_down, down_join]
          exact .call (.suffixes (.index (base.note.join span) base i))
      | e :: e' :: es =>
          simp only [Bracketed.items_down, Bracketed.span_down, down_cons, List.length_cons, length_down]
          exact .fail (.multipleIndices span (es.length + 1 + 1)) rfl

theorem moved_operator? (level : Nat) : Moved k (operator? level) (operator? level) := by
  refine .option .peek (.done none) fun t => ?_
  simp only [Option.bind_some, Token.kind_down, Token.span_down]
  cases t.kind.infixOp?.filter (·.level ≤ level) with
  | none => exact .done none
  | some op => exact .bind .next fun _ => .done (some (op, t.span))

theorem moved_climb (level : Nat) (left : Expr Span) : Moved k (climb level left) (climb level (down k left)) := by
  refine .option (moved_operator? level) (.done left) fun (op, operator) => ?_
  refine .bind (moved_operand (.binary op operator)) fun head => .bind (.call (.factor head)) fun first =>
    .bind (.call (.climb (rightLevel op) first)) fun right => ?_
  rw [Expr.note_down, Expr.note_down, down_join]
  exact .call (.climb level (.binary (left.note.join right.note) op left right))

theorem moved_itemEnd (b : Bracket) (opening : Span) : Moved k (itemEnd b opening) (itemEnd b (down k opening)) :=
  .option (.nextIf fun _ => rfl)
    (.option .peek (.option .next (.fail _ rfl) fun _ => .fail _ rfl) fun _ =>
      .ite .rfl (.done false) (.option .next (.fail _ rfl) fun _ => .fail _ rfl))
    fun _ => .done true

theorem closes?_down (o : Option Token) : ((down k o).bind fun t => t.kind.closes?.map (·, t.span)) =
    (o.bind fun t => t.kind.closes?.map (·, t.span)).map fun c => (c.1, down k c.2) := by
  cases o with
  | none => rfl
  | some t =>
      simp only [down_some, Option.bind_some, Option.map_map, Token.kind_down, Token.span_down]
      rfl

theorem moved_items (b : Bracket) (opening : Span) (trailing : Bool) :
    Moved k (items b opening trailing) (items b (down k opening) trailing) := by
  refine .bind .peek fun o => ?_
  rw [closes?_down]
  rcases o.bind fun t => t.kind.closes?.map (·, t.span) with _ | ⟨closing, span⟩
  · exact .option (.nextIf fun _ => rfl)
      (.bind (moved_wanted (.item b opening)) fun e => .bind (moved_itemEnd b opening) fun comma =>
        .bind (.call (.items b opening comma)) fun l => .done { l with items := e :: l.items })
      fun comma => .fail (.emptyItem comma.span) rfl
  · exact .ite .rfl (.bind .next fun _ => .done (Bracketed.mk [] trailing (opening.join span)))
      (.fail (.mismatchedBracket b opening span) rfl)

theorem moved_name (context : Construct) (keyword : Span) :
    Moved k (name context keyword) (name context (down k keyword)) := by
  refine .option .next (.fail _ rfl) fun t => ?_
  simp only [Token.kind_down]
  cases t.kind.name? with
  | none => exact .fail _ rfl
  | some text => exact .done (Name.mk text t.span)

theorem moved_typeList (b : Bracket) (context : Construct) (keyword : Span) :
    Moved k (typeList b context keyword) (typeList b context (down k keyword)) :=
  .option (.nextIf fun _ => rfl) (.call (.types b context keyword)) fun closing => .done ([], closing.span)

theorem moved_typeExpr (context : Construct) (keyword : Span) :
    Moved k (typeExpr context keyword) (typeExpr context (down k keyword)) := by
  refine .option .next (.fail _ rfl) fun t => ?_
  simp only [Token.kind_down]
  cases t.kind.name? with
  | some text =>
      refine .option (.nextIf fun _ => rfl) (.done (TypeExpr.named t.span text)) fun _ =>
        .bind (moved_typeList .square context keyword) ?_
      rintro ⟨args, closing⟩
      have h := Moved.done (k := k) (TypeExpr.applied (t.span.join closing) ⟨text, t.span⟩ args)
      rwa [TypeExpr.down_applied] at h
  | none =>
      refine .ite .rfl (.bind (moved_typeList .round context keyword) ?_) (.fail _ rfl)
      rintro ⟨elems, closing⟩
      have h := Moved.done (k := k) (TypeExpr.tuple (t.span.join closing) elems)
      rwa [TypeExpr.down_tuple] at h

theorem moved_types (b : Bracket) (context : Construct) (keyword : Span) :
    Moved k (types b context keyword) (types b context (down k keyword)) :=
  .bind (.call (.typeExpr context keyword)) fun first => .bind (.expect fun _ => rfl) fun separator =>
    .ite .rfl (.bind (.call (.types b context keyword)) fun (rest, closing) => .done (first :: rest, closing))
      (.done ([first], separator.span))

theorem moved_annotation (context : Construct) (keyword : Span) :
    Moved k ( annotation context keyword) ( annotation context (down k keyword)) :=
  .option (.nextIf fun _ => rfl) (.done none) fun _ =>
    .bind (.call (.typeExpr context keyword)) fun type => .done (some type)

theorem moved_condition (context : Construct) (keyword : Span) :
    Moved k (condition context keyword) (condition context (down k keyword)) :=
  .bind (.expect fun _ => rfl) fun _ => .bind (moved_wanted (.construct context keyword)) fun cond =>
    .bind (.expect fun _ => rfl) fun _ => .done cond

theorem moved_governed (context : Construct) (keyword : Span) :
    Moved k (governed context keyword) (governed context (down k keyword)) :=
  .option (.call .statement) (.fail _ rfl) .done

theorem moved_ifStatement (keyword : Span) : Moved k (ifStatement keyword) (ifStatement (down k keyword)) := by
  refine .bind (moved_condition .ifStatement keyword) fun cond =>
    .bind (moved_governed .ifStatement keyword) fun yes => .option (.nextIf fun _ => rfl) ?_ fun _ =>
      .bind (moved_governed .ifStatement keyword) fun no => ?_
  · rw [Stmt.note_down, down_join]
    exact .done (Stmt.ifThen (keyword.join yes.note) cond yes)
  · rw [Stmt.note_down, down_join]
    exact .done (Stmt.ifElse (keyword.join no.note) cond yes no)

theorem moved_whileStatement (keyword : Span) :
    Moved k (whileStatement keyword) (whileStatement (down k keyword)) := by
  refine .bind (moved_condition .whileLoop keyword) fun cond =>
    .bind (moved_governed .whileLoop keyword) fun body => ?_
  rw [Stmt.note_down, down_join]
  exact .done (Stmt.whileStmt (keyword.join body.note) cond body)

theorem moved_returnStatement (keyword : Span) :
    Moved k (returnStatement keyword) (returnStatement (down k keyword)) :=
  .option (.nextIf fun _ => rfl)
    (.bind (moved_wanted (.construct .returnStatement keyword)) fun value => .bind (.expect fun _ => rfl) fun semi =>
      .done (Stmt.returnStmt (keyword.join semi.span) (some value)))
    fun semi => .done (Stmt.returnStmt (keyword.join semi.span) none)

theorem moved_letDeclaration (keyword : Span) :
    Moved k (letDeclaration keyword) (letDeclaration (down k keyword)) :=
  .bind (moved_name .letDeclaration keyword) fun name => .bind ( moved_annotation .letDeclaration keyword) fun type =>
    .bind (.expect fun _ => rfl) fun _ => .bind (moved_wanted (.construct .letDeclaration keyword)) fun value =>
      .bind (.expect fun _ => rfl) fun semi => .done (Stmt.decl (keyword.join semi.span) name type value)

theorem moved_expressionStatement (head : Head) :
    Moved k (expressionStatement head) (expressionStatement (down k head)) := by
  refine .bind (moved_expressionFrom head) fun e => ?_
  simp only [Expr.note_down]
  exact .option .next (.fail (.endAfterExpression e.note) rfl) fun t =>
    .ite .rfl (.done (Stmt.expr (e.note.join t.span) (some e))) (.fail (.missingSemicolon e.note t) rfl)

theorem moved_statementFrom (t : Token) : Moved k (statementFrom t) (statementFrom (down k t)) := by
  unfold statementFrom
  rw [Token.kind_down, Token.head?_down]
  split
  · exact moved_ifStatement t.span
  · exact moved_whileStatement t.span
  · exact .bind (.expect fun _ => rfl) fun semi => .done (Stmt.breakStmt (t.span.join semi.span))
  · exact .bind (.expect fun _ => rfl) fun semi => .done (Stmt.continueStmt (t.span.join semi.span))
  · exact moved_returnStatement t.span
  · exact moved_letDeclaration t.span
  · exact .fail _ rfl
  · exact .fail _ rfl
  · refine .ite .rfl (.done (Stmt.expr t.span none)) (.ite .rfl ?_ ?_)
    · refine .bind (.call (.block t.span)) fun (stmts, span) => ?_
      have h := Moved.done (k := k) (Stmt.block span stmts)
      rwa [Stmt.down_block] at h
    · cases t.head? with
      | none => exact .fail _ rfl
      | some head => exact moved_expressionStatement head

theorem moved_statement : Moved k statement statement :=
  .option .next (.done none) fun t => .bind (moved_statementFrom t) fun s => .done (some s)

theorem moved_block (opening : Span) : Moved k (block opening) (block (down k opening)) :=
  .option (.nextIf fun _ => rfl)
    (.option (.call .statement) (.fail _ rfl) fun s =>
      .bind (.call (.block opening)) fun (rest, span) => .done (s :: rest, span))
    fun closing => .done ([], opening.join closing.span)

theorem moved_params (keyword : Span) : Moved k (params keyword) (params (down k keyword)) := by
  refine .bind (moved_name .definition keyword) fun name => .bind ( moved_annotation .definition keyword) fun type =>
    .bind (.expect fun _ => rfl) fun separator => ?_
  have hspan : ((down k type).map fun t => (down k name).note.join t.note).getD (down k name).note =
      down k ((type.map fun t => name.note.join t.note).getD name.note) := by
    cases type with
    | none => rfl
    | some t => exact congrArg (down k name).note.join (TypeExpr.note_down k t)
  rw [hspan]
  generalize (type.map fun t => name.note.join t.note).getD name.note = span
  exact .ite .rfl (.bind (.call (.params keyword)) fun rest => .done (Param.mk span name type :: rest))
    (.done [Param.mk span name type])

theorem moved_definitionBody (keyword : Span) :
    Moved k (definitionBody keyword) (definitionBody (down k keyword)) := by
  refine .option .next (.fail _ rfl) fun t => .ite .rfl ?_ (.ite .rfl ?_ (.fail _ rfl))
  · exact .bind (moved_wanted (.construct .definition keyword)) fun value => .bind (.expect fun _ => rfl) fun semi =>
      .done (Body.value value, semi.span)
  · refine .bind (.call (.block t.span)) fun (stmts, span) => ?_
    have h := Moved.done (k := k) (Body.block stmts, span)
    rwa [down_pair, Body.down_block] at h

theorem moved_definition (keyword : Span) : Moved k (definition keyword) (definition (down k keyword)) := by
  refine .bind (moved_name .definition keyword) fun name => .bind (.expect fun _ => rfl) fun _ => .bind ?_ fun params =>
    .bind ( moved_annotation .definition keyword) fun result => .bind (moved_definitionBody keyword) fun (body, stop) =>
      .done (Definition.mk (keyword.join stop) name params result body)
  exact .option (.nextIf fun _ => rfl) (.call (.params keyword)) fun _ => .done []

theorem moved_item : Moved k item item :=
  .option (.nextIf fun _ => rfl)
    (.option (.call .statement) (.done none) fun s => .done (some (Item.stmt s)))
    fun t => .bind (moved_definition t.span) fun d => .done (some (Item.definition d))

/-- The bodies of the rules do not depend on where a text stands. -/
theorem moved_body {α : Type} (rule : Rule α) : @Moved k α rule.placed rule.body (rule.down k).body := by
  cases rule with
  | factor head => exact moved_factor head
  | suffixes base => exact moved_suffixes base
  | climb level left => exact moved_climb level left
  | items b opening trailing => exact moved_items b opening trailing
  | typeExpr context keyword => exact moved_typeExpr context keyword
  | types b context keyword => exact moved_types b context keyword
  | params keyword => exact moved_params keyword
  | statement => exact moved_statement
  | block opening => exact moved_block opening

end Grammar

/-! ### Runs -/

section
variable {σ α : Type}

/-- A result `k` lines further down, with the source moved. -/
def Parse.shifted [Placed α] (k : Nat) (move : σ → σ) :
    EStateM.Result Parse.Stop σ α → EStateM.Result Parse.Stop σ α
  | .ok a s => .ok (down k a) (move s)
  | .error e s => .error (down k e) (move s)

theorem Parse.answer_shifted {k : Nat} {move : σ → σ} (r : Except LexError (Option Token) × σ) :
    answer (down k r.1, move r.2) = shifted k move (answer r) := by
  obtain ⟨t | t, s⟩ := r <;> rfl

variable [TokenSource σ]

/-- The source `move s` answers what `s` answers, `k` lines further down. -/
structure TokenSource.Shifts (k : Nat) (move : σ → σ) : Prop where
  peek : ∀ s, TokenSource.peek (move s) = (down k (TokenSource.peek s).1, move (TokenSource.peek s).2)
  next : ∀ s, TokenSource.next (move s) = (down k (TokenSource.next s).1, move (TokenSource.next s).2)

namespace Parse

variable {k : Nat} {move : σ → σ}

/-- On a moved source a procedure that is moved alike does the same, further down. -/
theorem Moved.run [Placed α] {p p' : Parse Rule α} (h : Moved k p p') (hmove : TokenSource.Shifts k move)
    {follow : {β : Type} → Rule β → EStateM Stop σ β}
    (hfollow : ∀ {β : Type} (rule : Rule β) s,
      follow (rule.down k) (move s) = @shifted σ β rule.placed k move (follow rule s)) (s : σ) :
    p'.run follow (move s) = shifted k move (p.run follow s) := by
  induction h generalizing s with
  | done a => rfl
  | @andThen α β _ _ p p' q q' first rest ihfirst ihrest =>
      simp only [Parse.run, ihfirst s]
      cases p.run follow s with
      | ok b s' => exact ihrest b s'
      | error e s' => rfl
  | fail e he => rfl
  | peek =>
      simp only [Parse.run, hmove.peek]
      exact answer_shifted _
  | next =>
      simp only [Parse.run, hmove.next]
      exact answer_shifted _
  | call rule => exact hfollow rule s

theorem runRule_shifted (hmove : TokenSource.Shifts k move) (d : Nat) :
    ∀ {β : Type} (rule : Rule β) (s : σ),
      runRule Rule.body d (rule.down k) (move s) = @shifted σ β rule.placed k move (runRule Rule.body d rule s) := by
  induction d with
  | zero => exact fun _ _ => rfl
  | succ d ih =>
      intro β rule s
      let _ := rule.placed
      exact (Grammar.moved_body rule).run hmove ih s

end Parse

/-- What is read from a moved source is what is read from the source, further down. -/
theorem Grammar.readWithin_shifted [Placed α] {k : Nat} {move : σ → σ} (hmove : TokenSource.Shifts k move) (bound : Nat)
    {p : Parse Rule (Option α)} (hp : Parse.Moved k p p) (s : σ) :
    readWithin bound p (move s) = (down k (readWithin bound p s).1, move (readWithin bound p s).2) := by
  unfold readWithin
  rw [hp.run hmove (Parse.runRule_shifted hmove (depth bound)) s]
  cases p.run (Parse.runRule Rule.body (depth bound)) s with
  | ok a s' => rfl
  | error stop s' => cases stop <;> rfl

end

end SoundLang
