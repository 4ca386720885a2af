import SoundLang.Proofs.Lexer.Sited
import SoundLang.Proofs.Parse.Origin
import SoundLang.Proofs.Parse.Sound
import SoundLang.Proofs.Types.Places

/-! # Errors and annotations stand in the log

`Parse.Sited` follows a procedure through states of reading.  Spans are shown to it that stand in the log and start no
later than what is to come (`Reading.Shows`), so those that it joins stand in the log too.  It shows of the grammar
(`Grammar.sited_body`, `Grammar.sited_item`) that an error points to nothing outside the log, and that all annotations
of what is read stand there.  What is shown of a procedure holds of every run on a lexer (`Parse.Sited.run`), and so of
all the items that are read from it (`Grammar.sited_readItems`). -/

namespace SoundLang

/-! ### Rules -/

/-- The span of the first token. -/
def Head.span : Head → Span
  | leaf e => e.note
  | unary _ operator => operator
  | opening _ span => span

theorem Token.span_of_head? {t : Token} {head : Head} (h : t.head? = some head) : head.span = t.span := by
  obtain ⟨op, rfl, -⟩ | ⟨b, rfl, -⟩ | ⟨e, rfl, he⟩ := Token.head?_cases h
  · rfl
  · rfl
  · exact he.note_eq

/-- What a rule is given is shown. -/
def Rule.Given (w : Reading) : {β : Type} → Rule β → Prop
  | _, factor head => w.Shows head.span
  | _, suffixes base | _, climb _ base => w.Shows base.note
  | _, items _ opening _ | _, block opening => w.Shows opening
  | _, typeExpr _ keyword | _, types _ _ keyword | _, params keyword => w.Shows keyword
  | _, statement => True

/-- What a rule gives that is followed from `w` to `w'`: an expression starts where its first token does, and all
annotations stand in the log. -/
def Rule.Yields (w w' : Reading) : {β : Type} → Rule β → β → Prop
  | _, factor head, e => w'.Shows e.note ∧ e.note.start = head.span.start
  | _, suffixes base, e | _, climb _ base, e => w'.Shows e.note ∧ e.note.start = base.note.start
  | _, items _ opening _, l => w'.Shows l.span ∧ l.span.start = opening.start
  | _, typeExpr .., t => w'.log.HoldsTypes [t]
  | _, types .., r => w'.log.HoldsTypes r.1 ∧ w'.log.Holds r.2 ∧ w.place ≤ r.2.start
  | _, params _, ps => w'.log.HoldsTypes (ps.filterMap (·.type))
  | _, statement, o => ∀ s ∈ o, w'.log.HoldsTypes s.annotations
  | _, block _, r => w'.log.HoldsTypes (Stmt.annotationsAll r.1)

namespace Parse

variable {α β : Type} {w w' : Reading} {Q Q' : α → Reading → Prop}

/-- From the state of reading on, the results of the procedure have `Q`, and its errors point to nothing outside the
log. -/
def Sited : {α : Type} → Parse Rule α → Reading → (α → Reading → Prop) → Prop
  | _, done a, w, Q => Q a w
  | _, andThen p q, w, Q => p.Sited w fun b w => (q b).Sited w Q
  | _, fail e, w, _ => e.diagnostic.Sited w.log
  | _, peek, w, Q | _, next, w, Q => ∀ w', w ≤ w' → ∀ o, w.Answers w' (.ok o) → Q o w'
  | _, call rule, w, Q => rule.Given w ∧ ∀ w', w ≤ w' → ∀ a, rule.Yields w w' a → Q a w'

theorem Sited.imp {p : Parse Rule α} (h : p.Sited w Q) (hQ : ∀ a w', Q a w' → Q' a w') : p.Sited w Q' := by
  induction p generalizing w with
  | done a => exact hQ a w h
  | andThen p q ihp ihq => exact ihp h fun b w' hb => ihq b hb hQ
  | fail e => exact h
  | peek | next => exact fun w' hle o ho => hQ o w' (h w' hle o ho)
  | call rule => exact ⟨h.1, fun w' hle a ha => hQ a w' (h.2 w' hle a ha)⟩

theorem sited_bind {β : Type} {p : Parse Rule β} {q : β → Parse Rule α} {R : β → Reading → Prop} (hp : p.Sited w R)
    (hq : ∀ b w', R b w' → (q b).Sited w' Q) : (p >>= q).Sited w Q :=
  hp.imp hq

/-- An answer is a token that comes, or none. -/
theorem sited_answer {Q : Option Token → Reading → Prop} (none : ∀ w', w ≤ w' → Q none w')
    (some : ∀ w' t, w ≤ w' → w.place ≤ t.span.start → w'.Shows t.span → Q (some t) w') :
    ∀ w', w ≤ w' → ∀ o, w.Answers w' (.ok o) → Q o w' := by
  intro w' hle o ho
  cases o with
  | none => exact none w' hle
  | some t => exact some w' t hle (ho t rfl).1 (ho t rfl).2

theorem sited_nextIf {accept : Token → Bool} {Q : Option Token → Reading → Prop} (none : ∀ w', w ≤ w' → Q none w')
    (some : ∀ w' t, w ≤ w' → w.place ≤ t.span.start → w'.Shows t.span → Q (some t) w') :
    (nextIf accept).Sited w Q := by
  intro w₁ h₁ o _
  dsimp only
  split
  · exact sited_answer (fun w₂ h₂ => none w₂ (h₁.trans h₂)) fun w₂ t h₂ hstart ht =>
      some w₂ t (h₁.trans h₂) (Pos.le_trans h₁.2 hstart) ht
  · exact none w₁ h₁

theorem sited_expect {context : Construct} {keyword : Span} {expected : Expectation} {accept : Token → Bool}
    {Q : Token → Reading → Prop} (hkeyword : w.Shows keyword)
    (h : ∀ w' t, w ≤ w' → w.place ≤ t.span.start → w'.Shows t.span → Q t w') :
    (expect context keyword expected accept).Sited w Q := by
  refine sited_answer (fun w₁ h₁ => ?_) fun w₁ t h₁ hstart ht => ?_
  · simpa [Sited, ParseError.diagnostic] using (hkeyword.mono h₁).holds
  · dsimp only
    split
    · exact h w₁ t h₁ hstart ht
    · simpa [Sited, ParseError.diagnostic] using ⟨ht.holds, (hkeyword.mono h₁).holds⟩

end Parse

namespace Grammar

open Parse

variable {w : Reading}

/-! ### Expressions -/

theorem sited_missing {want : Want} {log : Log} (h : log.Holds want.place) : want.missing.diagnostic.Sited log := by
  cases want <;> simpa [Want.missing, ParseError.diagnostic, Want.place] using h

theorem sited_unexpected {want : Want} {log : Log} {t : Token} (h : log.Holds want.place) (ht : log.Holds t.span) :
    (want.unexpected t).diagnostic.Sited log := by
  cases want <;> simpa [Want.unexpected, ParseError.diagnostic, Want.place] using ⟨ht, h⟩

theorem sited_operand {want : Want} {Q : Head → Reading → Prop} (hwant : w.Shows want.place)
    (h : ∀ w' head, w ≤ w' → w.place ≤ head.span.start → w'.Shows head.span → Q head w') :
    (operand want).Sited w Q := by
  refine sited_answer (fun w₁ h₁ => sited_missing (hwant.mono h₁).holds) fun w₁ t h₁ hstart ht => ?_
  cases hhead : t.head? with
  | none =>
      simp only [hhead]
      exact sited_unexpected (hwant.mono h₁).holds ht.holds
  | some head =>
      simp only [hhead]
      rw [← Token.span_of_head? hhead] at hstart ht
      exact h w₁ head h₁ hstart ht

theorem sited_expressionFrom {head : Head} {Q : Expr Span → Reading → Prop} (hhead : w.Shows head.span)
    (h : ∀ w' e, w ≤ w' → e.note.start = head.span.start → w'.Shows e.note → Q e w') :
    (expressionFrom head).Sited w Q :=
  ⟨hhead, fun _ h₁ _ hleft => ⟨hleft.1, fun w₂ h₂ e he =>
    h w₂ e (h₁.trans h₂) (he.2.trans hleft.2) he.1⟩⟩

theorem sited_wanted {want : Want} {Q : Expr Span → Reading → Prop} (hwant : w.Shows want.place)
    (h : ∀ w' e, w ≤ w' → w'.Shows e.note → Q e w') : (wanted want).Sited w Q :=
  sited_operand hwant fun _ _ h₁ _ hhead => sited_expressionFrom hhead fun w₂ e h₂ _ he => h w₂ e (h₁.trans h₂) he

/-- Two spans that are shown are joined, if the last one starts where all that is shown has started. -/
theorem shows_join {w w' : Reading} {first last : Span} (h : w.Shows first) (h' : w'.Shows last) (hle : w ≤ w')
    (hstart : w.place ≤ last.start) : w'.Shows (first.join last) :=
  (h.mono hle).join h' (Pos.le_trans h.start_le hstart)

theorem sited_factor {head : Head} (h : w.Shows head.span) :
    (factor head).Sited w fun e w' => (Rule.factor head).Yields w w' e := by
  cases head with
  | leaf e => exact ⟨h, fun _ _ _ he => he⟩
  | unary op operator =>
      refine sited_operand h fun w₁ head h₁ hstart hhead => ⟨hhead, fun w₂ h₂ inner hinner => ?_⟩
      have hjoin : w₂.Shows (operator.join inner.note) := shows_join h hinner.1 (h₁.trans h₂) (hinner.2 ▸ hstart)
      exact ⟨hjoin, fun _ _ _ he => he⟩
  | opening b span =>
      refine ⟨h, fun w₁ h₁ l hl => ?_⟩
      have hbase : w₁.Shows (bracketed b l).note := note_bracketed b l ▸ hl.1
      exact ⟨hbase, fun w₂ h₂ e he => ⟨he.1, he.2.trans (note_bracketed b l ▸ hl.2)⟩⟩

theorem sited_suffixes {base : Expr Span} (h : w.Shows base.note) :
    (suffixes base).Sited w fun e w' => (Rule.suffixes base).Yields w w' e := by
  refine sited_answer (fun w₁ h₁ => ⟨h.mono h₁, rfl⟩) fun w₁ t h₁ hstart ht => ?_
  dsimp only
  cases hs : suffix? t with
  | none => exact ⟨h.mono h₁, rfl⟩
  | some suffix =>
      have hitems : ∀ w₂, w₁ ≤ w₂ → ∀ w₃, w₂ ≤ w₃ → ∀ l : Bracketed, w₃.Shows l.span ∧ l.span.start = t.span.start →
          w₃.Shows (base.note.join l.span) := fun w₂ h₂ w₃ h₃ l hl =>
        shows_join h hl.1 (h₁.trans (h₂.trans h₃)) (hl.2 ▸ hstart)
      cases suffix with
      | op op => exact fun w₂ h₂ _ _ => ⟨shows_join h (ht.mono h₂) (h₁.trans h₂) hstart, fun _ _ _ he => he⟩
      | opening b =>
          cases b with
          | round =>
              exact fun w₂ h₂ _ _ => ⟨ht.mono h₂, fun w₃ h₃ l hl => ⟨hitems w₂ h₂ w₃ h₃ l hl, fun _ _ _ he => he⟩⟩
          | square =>
              refine fun w₂ h₂ _ _ => ⟨ht.mono h₂, fun w₃ h₃ l hl => ?_⟩
              dsimp only
              split
              · exact ⟨hitems w₂ h₂ w₃ h₃ l hl, fun _ _ _ he => he⟩
              · simpa [Sited, ParseError.diagnostic] using hl.1.holds
              · simpa [Sited, ParseError.diagnostic] using hl.1.holds

theorem sited_operator? (level : Nat) {Q : Option (BinaryOp × Span) → Reading → Prop}
    (none : ∀ w', w ≤ w' → Q none w')
    (some : ∀ w' op operator, w ≤ w' → w.place ≤ operator.start → w'.Shows operator → Q (some (op, operator)) w') :
    (operator? level).Sited w Q := by
  refine sited_answer none fun w₁ t h₁ hstart ht => ?_
  dsimp only [Option.bind_some]
  cases hop : t.kind.infixOp?.filter (·.level ≤ level) with
  | none => exact none w₁ h₁
  | some op => exact fun w₂ h₂ _ _ => some w₂ op t.span (h₁.trans h₂) hstart (ht.mono h₂)

theorem sited_climb (level : Nat) {left : Expr Span} (h : w.Shows left.note) :
    (climb level left).Sited w fun e w' => (Rule.climb level left).Yields w w' e := by
  refine sited_operator? level (fun w₁ h₁ => ⟨h.mono h₁, rfl⟩) fun w₁ op operator h₁ hstart hoperator => ?_
  refine sited_operand hoperator fun w₂ head h₂ hhead₂ hhead => ⟨hhead, fun w₃ h₃ first hfirst => ?_⟩
  refine ⟨hfirst.1, fun w₄ h₄ right hright => ?_⟩
  have hright₂ : w₁.place ≤ right.note.start := (hright.2.trans hfirst.2).symm ▸ hhead₂
  have hjoin : w₄.Shows (left.note.join right.note) :=
    shows_join (h.mono h₁) hright.1 (h₂.trans (h₃.trans h₄)) hright₂
  exact ⟨hjoin, fun _ _ _ he => he⟩

theorem sited_itemEnd {b : Bracket} {opening : Span} {Q : Bool → Reading → Prop} (h : w.Shows opening)
    (hQ : ∀ w' comma, w ≤ w' → Q comma w') : (itemEnd b opening).Sited w Q := by
  refine sited_nextIf (fun w₁ h₁ => ?_) fun w₁ _ h₁ _ _ => hQ w₁ true h₁
  intro w₂ h₂ o _
  dsimp only
  split
  · exact hQ w₂ false (h₁.trans h₂)
  · refine sited_answer (fun w₃ h₃ => ?_) fun w₃ t h₃ _ ht => ?_
    · simpa [Sited, ParseError.diagnostic] using (h.mono (h₁.trans (h₂.trans h₃))).holds
    · simpa [Sited, ParseError.diagnostic] using ⟨ht.holds, (h.mono (h₁.trans (h₂.trans h₃))).holds⟩

theorem sited_items {b : Bracket} {opening : Span} {trailing : Bool} (h : w.Shows opening) :
    (items b opening trailing).Sited w fun l w' => (Rule.items b opening trailing).Yields w w' l := by
  -- if nothing closes the list an item is read, also at the end, where it is missing
  intro w₁ h₁ o ho
  dsimp only
  cases hc : o.bind fun t => t.kind.closes?.map (·, t.span) with
  | none =>
      refine sited_nextIf (fun w₂ h₂ => ?_) fun w₂ t _ _ ht => ?_
      · refine sited_wanted (h.mono (h₁.trans h₂)) fun w₃ e h₃ _ => ?_
        refine sited_itemEnd (h.mono (h₁.trans (h₂.trans h₃))) fun w₄ _ h₄ => ?_
        exact ⟨h.mono (h₁.trans (h₂.trans (h₃.trans h₄))), fun _ _ _ hl => hl⟩
      · simpa [Sited, ParseError.diagnostic] using ht.holds
  | some closing =>
      obtain ⟨t, rfl, hclosing⟩ := Option.bind_eq_some_iff.mp hc
      obtain ⟨b', -, rfl⟩ := Option.map_eq_some_iff.mp hclosing
      obtain ⟨hstart, ht⟩ := ho t rfl
      dsimp only
      split
      · exact fun w₂ h₂ _ _ => ⟨shows_join h (ht.mono h₂) (h₁.trans h₂) hstart, rfl⟩
      · simpa [Sited, ParseError.diagnostic] using ⟨ht.holds, (h.mono h₁).holds⟩

/-! ### Types -/

section
variable {context : Construct} {keyword : Span}

theorem sited_unexpectedToken {expected : Expectation} {t : Token} {log : Log} (h : log.Holds keyword)
    (ht : log.Holds t.span) : (ParseError.unexpected context keyword expected t).diagnostic.Sited log := by
  simpa [ParseError.diagnostic] using ⟨ht, h⟩

theorem sited_cutOff {expected : Expectation} {log : Log} (h : log.Holds keyword) :
    (ParseError.cutOff context keyword expected).diagnostic.Sited log := by
  simpa [ParseError.diagnostic] using h

theorem sited_name {Q : Name Span → Reading → Prop} (h : w.Shows keyword) (hQ : ∀ w' n, w ≤ w' → Q n w') :
    (name context keyword).Sited w Q := by
  refine sited_answer (fun w₁ h₁ => sited_cutOff (h.mono h₁).holds) fun w₁ t h₁ _ ht => ?_
  dsimp only
  cases t.kind.name? with
  | none => exact sited_unexpectedToken (h.mono h₁).holds ht.holds
  | some text => exact hQ w₁ _ h₁

theorem sited_typeList {b : Bracket} {Q : List (TypeExpr Span) × Span → Reading → Prop} (h : w.Shows keyword)
    (hQ : ∀ w' r, w ≤ w' → w'.log.HoldsTypes r.1 → w'.log.Holds r.2 → w.place ≤ r.2.start → Q r w') :
    (typeList b context keyword).Sited w Q := by
  refine sited_nextIf (fun w₁ h₁ => ?_) fun w₁ t h₁ hstart ht => hQ w₁ _ h₁ .nil ht.holds hstart
  exact ⟨h.mono h₁, fun w₂ h₂ r hr => hQ w₂ r (h₁.trans h₂) hr.1 hr.2.1 (Pos.le_trans h₁.2 hr.2.2)⟩

theorem sited_typeExpr (h : w.Shows keyword) :
    (typeExpr context keyword).Sited w fun t w' => w'.log.HoldsTypes [t] := by
  refine sited_answer (fun w₁ h₁ => sited_cutOff (h.mono h₁).holds) fun w₁ t h₁ _ ht => ?_
  dsimp only
  cases t.kind.name? with
  | some text =>
      refine sited_nextIf (fun w₂ h₂ => ?_) fun w₂ _ h₂ _ _ => ?_
      · exact List.forall_mem_singleton.mpr (ht.mono h₂).holds
      · refine sited_typeList (h.mono (h₁.trans h₂)) fun w₃ r h₃ hargs hclosing hstart => ?_
        have ht₃ := ht.mono (h₂.trans h₃)
        have hle := Pos.le_trans (ht.mono h₂).start_le hstart
        exact Log.HoldsTypes.applied (ht₃.holds.join hclosing hle) ht₃.holds hargs
  | none =>
      dsimp only
      split
      · refine sited_typeList (h.mono h₁) fun w₂ r h₂ helems hclosing hstart => ?_
        exact Log.HoldsTypes.tuple ((ht.mono h₂).holds.join hclosing (Pos.le_trans ht.start_le hstart)) helems
      · exact sited_unexpectedToken (h.mono h₁).holds ht.holds

theorem sited_types {b : Bracket} (h : w.Shows keyword) :
    (types b context keyword).Sited w fun r w' => (Rule.types b context keyword).Yields w w' r := by
  refine ⟨h, fun w₁ h₁ first hfirst => sited_expect (h.mono h₁) fun w₂ t h₂ hstart ht => ?_⟩
  dsimp only
  split
  · refine ⟨h.mono (h₁.trans h₂), fun w₃ h₃ r hr => ⟨?_, hr.2.1, Pos.le_trans (h₁.trans h₂).2 hr.2.2⟩⟩
    exact (hfirst.mono (h₂.trans h₃).1).append hr.1
  · exact ⟨hfirst.mono h₂.1, ht.holds, Pos.le_trans h₁.2 hstart⟩

theorem sited_annotation {Q : Option (TypeExpr Span) → Reading → Prop} (h : w.Shows keyword)
    (hQ : ∀ w' type, w ≤ w' → w'.log.HoldsTypes type.toList → Q type w') :
    ( annotation context keyword).Sited w Q :=
  sited_nextIf (fun w₁ h₁ => hQ w₁ none h₁ .nil) fun _ _ h₁ _ _ =>
    ⟨h.mono h₁, fun w₂ h₂ t ht => hQ w₂ (some t) (h₁.trans h₂) ht⟩

/-! ### Statements -/

theorem sited_condition {Q : Expr Span → Reading → Prop} (h : w.Shows keyword) (hQ : ∀ w' e, w ≤ w' → Q e w') :
    (condition context keyword).Sited w Q :=
  sited_expect h fun _ _ h₁ _ _ => sited_wanted (h.mono h₁) fun _ e h₂ _ =>
    sited_expect (h.mono (h₁.trans h₂)) fun w₃ _ h₃ _ _ => hQ w₃ e (h₁.trans (h₂.trans h₃))

theorem sited_governed {Q : Stmt Span → Reading → Prop} (h : w.Shows keyword)
    (hQ : ∀ w' s, w ≤ w' → w'.log.HoldsTypes s.annotations → Q s w') : (governed context keyword).Sited w Q := by
  refine ⟨trivial, fun w₁ h₁ o ho => ?_⟩
  cases o with
  | none => exact sited_cutOff (h.mono h₁).holds
  | some s => exact hQ w₁ s h₁ (ho s rfl)

end

section
variable {keyword : Span}

theorem sited_ifStatement (h : w.Shows keyword) :
    (ifStatement keyword).Sited w fun s w' => w'.log.HoldsTypes s.annotations := by
  refine sited_condition h fun w₁ cond h₁ => sited_governed (h.mono h₁) fun w₂ yes h₂ hyes => ?_
  refine sited_nextIf (fun w₃ h₃ => ?_) fun w₃ _ h₃ _ _ => ?_
  · exact hyes.mono h₃.1
  · refine sited_governed (h.mono (h₁.trans (h₂.trans h₃))) fun w₄ no h₄ hno => ?_
    exact (hyes.mono (h₃.trans h₄).1).append hno

theorem sited_whileStatement (h : w.Shows keyword) :
    (whileStatement keyword).Sited w fun s w' => w'.log.HoldsTypes s.annotations := by
  exact sited_condition h fun w₁ cond h₁ => sited_governed (h.mono h₁) fun w₂ body h₂ hbody => hbody

theorem sited_returnStatement (h : w.Shows keyword) :
    (returnStatement keyword).Sited w fun s w' => w'.log.HoldsTypes s.annotations :=
  sited_nextIf (fun _ h₁ => sited_wanted (h.mono h₁) fun _ _ h₂ _ =>
    sited_expect (h.mono (h₁.trans h₂)) fun _ _ _ _ _ => .nil) fun _ _ _ _ _ => .nil

theorem sited_letDeclaration (h : w.Shows keyword) :
    (letDeclaration keyword).Sited w fun s w' => w'.log.HoldsTypes s.annotations := by
  refine sited_name h fun w₁ _ h₁ => sited_annotation (h.mono h₁) fun w₂ type h₂ htype => ?_
  refine sited_expect (h.mono (h₁.trans h₂)) fun w₃ _ h₃ _ _ => ?_
  refine sited_wanted (h.mono (h₁.trans (h₂.trans h₃))) fun w₄ _ h₄ _ => ?_
  refine sited_expect (h.mono (h₁.trans (h₂.trans (h₃.trans h₄)))) fun w₅ _ h₅ _ _ => ?_
  exact htype.mono (h₃.trans (h₄.trans h₅)).1

theorem sited_expressionStatement {head : Head} (h : w.Shows head.span) :
    (expressionStatement head).Sited w fun s w' => w'.log.HoldsTypes s.annotations := by
  refine sited_expressionFrom h fun w₁ e h₁ _ he => sited_answer (fun w₂ h₂ => ?_) fun w₂ t h₂ _ ht => ?_
  · simpa [Sited, ParseError.diagnostic] using (he.mono h₂).holds
  · dsimp only
    split
    · exact Log.HoldsTypes.nil
    · simpa [Sited, ParseError.diagnostic] using ⟨ht.holds, (he.mono h₂).holds⟩

theorem sited_statementFrom {t : Token} (h : w.Shows t.span) :
    (statementFrom t).Sited w fun s w' => w'.log.HoldsTypes s.annotations := by
  have hno : ∀ {α : Type} {Q : α → Reading → Prop}, (fail (.noStatement t) : Parse Rule α).Sited w Q := by
    simpa [Sited, ParseError.diagnostic] using h.holds
  unfold statementFrom
  split
  · exact sited_ifStatement h
  · exact sited_whileStatement h
  · exact sited_expect h fun _ _ _ _ _ => Log.HoldsTypes.nil
  · exact sited_expect h fun _ _ _ _ _ => Log.HoldsTypes.nil
  · exact sited_returnStatement h
  · exact sited_letDeclaration h
  · exact hno
  · exact hno
  · split
    · exact Log.HoldsTypes.nil
    · split
      · exact ⟨h, fun w₁ _ r hr => hr⟩
      · split
        · next head hhead => exact sited_expressionStatement (Token.span_of_head? hhead ▸ h)
        · exact hno

theorem sited_statement : statement.Sited w fun o w' => Rule.statement.Yields w w' o :=
  sited_answer (fun _ _ => nofun) fun _ _ _ _ ht =>
    (sited_statementFrom ht).imp fun _ _ hs _ he => Option.some.inj he ▸ hs

theorem sited_block {opening : Span} (h : w.Shows opening) :
    (block opening).Sited w fun r w' => (Rule.block opening).Yields w w' r := by
  refine sited_nextIf (fun w₁ h₁ => ⟨trivial, fun w₂ h₂ o ho => ?_⟩) fun _ _ _ _ _ => Log.HoldsTypes.nil
  cases o with
  | none => simpa [Sited, ParseError.diagnostic] using (h.mono (h₁.trans h₂)).holds
  | some s =>
      refine ⟨h.mono (h₁.trans h₂), fun w₃ h₃ r hr => ?_⟩
      exact ((ho s rfl).mono h₃.1).append hr

/-! ### Definitions and items -/

theorem sited_params (h : w.Shows keyword) :
    (params keyword).Sited w fun ps w' => (Rule.params keyword).Yields w w' ps := by
  refine sited_name h fun w₁ _ h₁ => sited_annotation (h.mono h₁) fun w₂ type h₂ htype => ?_
  refine sited_expect (h.mono (h₁.trans h₂)) fun w₃ t h₃ _ _ => ?_
  have htypes : ∀ {log : Log}, w₂.log.Grows log → ∀ {n : Name Span} {span : Span} {ps : List (Param Span)},
      log.HoldsTypes (ps.filterMap (·.type)) → log.HoldsTypes ((⟨span, n, type⟩ :: ps).filterMap (·.type)) := by
    intro log hgrows n span ps hps
    cases type with
    | none => exact hps
    | some t => exact (htype.mono hgrows).append hps
  dsimp only
  split
  · exact ⟨h.mono (h₁.trans (h₂.trans h₃)), fun w₄ h₄ ps hps => htypes (h₃.trans h₄).1 hps⟩
  · exact htypes h₃.1 .nil

theorem sited_definitionBody {Q : Body Span × Span → Reading → Prop} (h : w.Shows keyword)
    (hQ : ∀ w' r, w ≤ w' → w'.log.HoldsTypes (Lowering.bodyAnnotations r.1) → Q r w') :
    (definitionBody keyword).Sited w Q := by
  refine sited_answer (fun w₁ h₁ => sited_cutOff (h.mono h₁).holds) fun w₁ t h₁ _ ht => ?_
  dsimp only
  split
  · refine sited_wanted (h.mono h₁) fun w₂ _ h₂ _ => sited_expect (h.mono (h₁.trans h₂)) fun w₃ _ h₃ _ _ => ?_
    exact hQ w₃ _ (h₁.trans (h₂.trans h₃)) .nil
  · split
    · exact ⟨ht, fun w₂ h₂ r hr => hQ w₂ _ (h₁.trans h₂) hr⟩
    · exact sited_unexpectedToken (h.mono h₁).holds ht.holds

theorem sited_definition (h : w.Shows keyword) :
    (definition keyword).Sited w fun d w' => w'.log.HoldsTypes (Item.definition d).annotations := by
  refine sited_name h fun w₁ n h₁ => sited_expect (h.mono h₁) fun w₂ _ h₂ _ _ => ?_
  have hkeyword := h.mono (h₁.trans h₂)
  refine sited_bind (R := fun ps w₃ => w₂ ≤ w₃ ∧ w₃.log.HoldsTypes (ps.filterMap (·.type))) ?_ fun ps w₃ hps => ?_
  · refine sited_nextIf (fun w₃ h₃ => ?_) fun w₃ _ h₃ _ _ => ⟨h₃, .nil⟩
    exact ⟨hkeyword.mono h₃, fun w₄ h₄ ps hps => ⟨h₃.trans h₄, hps⟩⟩
  · refine sited_annotation (hkeyword.mono hps.1) fun w₄ result h₄ hresult => ?_
    refine sited_definitionBody (hkeyword.mono (hps.1.trans h₄)) fun w₅ r h₅ hbody => ?_
    exact ((hps.2.mono (h₄.trans h₅).1).append (hresult.mono h₅.1)).append hbody

end

theorem sited_item : item.Sited w fun o w' => ∀ i ∈ o, w'.log.HoldsTypes i.annotations := by
  refine sited_nextIf (fun w₁ h₁ => ⟨trivial, fun w₂ h₂ o ho => ?_⟩) fun w₁ t h₁ _ ht => ?_
  · rintro _ hi
    obtain ⟨s, hs, rfl⟩ := Option.map_eq_some_iff.mp hi
    exact ho s hs
  · exact (sited_definition ht).imp fun d w' hd _ he => Option.some.inj he ▸ hd

theorem sited_expression : expression.Sited w fun _ _ => True := by
  refine sited_answer (fun _ _ => trivial) fun w₁ t _ _ ht => ?_
  dsimp only
  cases hhead : t.head? with
  | none => simpa [Sited, ParseError.diagnostic] using ht.holds
  | some head =>
      rw [← Token.span_of_head? hhead] at ht
      exact sited_expressionFrom ht fun _ _ _ _ _ => trivial

/-! ### Rules and runs -/

theorem sited_body {α : Type} (rule : Rule α) (h : rule.Given w) :
    rule.body.Sited w fun a w' => rule.Yields w w' a := by
  cases rule with
  | factor head => exact sited_factor h
  | suffixes base => exact sited_suffixes h
  | climb level left => exact sited_climb level h
  | items b opening trailing => exact sited_items h
  | typeExpr context keyword => exact sited_typeExpr h
  | types b context keyword => exact sited_types h
  | params keyword => exact sited_params h
  | statement => exact sited_statement
  | block opening => exact sited_block h

end Grammar

namespace Parse

open Lexer (At)

variable {α : Type} {w : Reading} {lx : Lexer}

/-- Reading goes on from `w`, to a result that has `Q` or to an error that points to nothing outside the log. -/
def Reached (w : Reading) (Q : α → Reading → Prop) : EStateM.Result Stop Lexer α → Prop
  | .ok a lx => ∃ w', w ≤ w' ∧ At w' lx ∧ Q a w'
  | .error stop lx => ∃ w', w ≤ w' ∧ At w' lx ∧ ∀ e, stop = .error e → e.diagnostic.Sited w'.log

theorem Reached.imp {Q Q' : α → Reading → Prop} {r : EStateM.Result Stop Lexer α} (h : Reached w Q r)
    (hQ : ∀ w', w ≤ w' → ∀ a, Q a w' → Q' a w') : Reached w Q' r := by
  cases r with
  | ok a lx =>
      obtain ⟨w', hle, hat, ha⟩ := h
      exact ⟨w', hle, hat, hQ w' hle a ha⟩
  | error stop lx => exact h

theorem Reached.from {w₀ : Reading} {Q : α → Reading → Prop} {r : EStateM.Result Stop Lexer α} (h : Reached w Q r)
    (hle : w₀ ≤ w) : Reached w₀ Q r := by
  cases r with
  | ok a lx | error stop lx =>
      obtain ⟨w', hle', hat, h⟩ := h
      exact ⟨w', hle.trans hle', hat, h⟩

theorem reached_answer {r : Except LexError (Option Token) × Lexer} {Q : Option Token → Reading → Prop}
    (h : ∃ w', w ≤ w' ∧ w.Answers w' r.1 ∧ At w' r.2) (hQ : ∀ w', w ≤ w' → ∀ o, w.Answers w' (.ok o) → Q o w') :
    Reached w Q (answer r) := by
  obtain ⟨w', hle, hanswers, hat⟩ := h
  obtain ⟨e | o, lx⟩ := r
  · refine ⟨w', hle, hat, ?_⟩
    rintro _ ⟨⟩
    exact hanswers
  · exact ⟨w', hle, hat, hQ w' hle o hanswers⟩

/-- What is shown of a procedure holds of its runs, if it holds of the rules. -/
theorem Sited.run {p : Parse Rule α} {Q : α → Reading → Prop} (h : p.Sited w Q)
    {follow : {β : Type} → Rule β → EStateM Stop Lexer β}
    (hfollow : ∀ {β : Type} (rule : Rule β) w lx, rule.Given w → At w lx →
      Reached w (fun b w' => rule.Yields w w' b) (follow rule lx))
    (hat : At w lx) : Reached w Q (p.run follow lx) := by
  induction p generalizing w lx with
  | done a => exact ⟨w, le_refl w, hat, h⟩
  | andThen p q ihp ihq =>
      have hp := ihp h hat
      simp only [Parse.run]
      cases hr : p.run follow lx with
      | ok b lx' =>
          rw [hr] at hp
          obtain ⟨w', hle, hat', hq⟩ := hp
          exact (ihq b hq hat').from hle
      | error stop lx' =>
          rw [hr] at hp
          exact hp
  | fail e =>
      refine ⟨w, le_refl w, hat, ?_⟩
      rintro _ ⟨⟩
      exact h
  | peek => exact reached_answer hat.peek h
  | next => exact reached_answer hat.next h
  | call rule => exact (hfollow rule w lx h.1 hat).imp h.2

theorem reached_runRule (d : Nat) : ∀ {β : Type} (rule : Rule β) (w : Reading) (lx : Lexer), rule.Given w → At w lx →
    Reached w (fun b w' => rule.Yields w w' b) (runRule Rule.body d rule lx) := by
  induction d with
  | zero => exact fun _ w lx _ hat => ⟨w, le_refl w, hat, fun _ he => nomatch he⟩
  | succ d ih =>
      intro _ rule w lx h hat
      rw [runRule]
      exact (Grammar.sited_body rule h).run ih hat

end Parse

/-! ### Phrases -/

/-- What is read has `R`, or there is an error that points to nothing outside the log. -/
def Reading.Gives {α : Type} (w : Reading) (R : α → Reading → Prop) : Except ParseError (Option α) → Prop
  | .ok o => ∀ a ∈ o, R a w
  | .error e => e.diagnostic.Sited w.log

namespace Grammar

open Lexer (At)

variable {w : Reading} {lx : Lexer}

/-- What is shown of a phrase holds of what is read. -/
theorem sited_readWithin {α : Type} {p : Parse Rule (Option α)} {R : α → Reading → Prop}
    (h : p.Sited w fun o w' => ∀ a ∈ o, R a w') (hat : At w lx) (bound : Nat) :
    ∃ w', w ≤ w' ∧ At w' (readWithin bound p lx).2 ∧ w'.Gives R (readWithin bound p lx).1 := by
  have hrun := h.run (Parse.reached_runRule (depth bound)) hat
  unfold readWithin
  generalize p.run (Parse.runRule Rule.body (depth bound)) lx = r at hrun ⊢
  obtain ⟨o, lx'⟩ | ⟨e | _, lx'⟩ := r <;> obtain ⟨w', hle, hat', hend⟩ := hrun
  · exact ⟨w', hle, hat', hend⟩
  · exact ⟨w', hle, hat', hend e rfl⟩
  · exact ⟨w', hle, hat', fun a ha => absurd ha (Option.not_mem_none a)⟩

/-- The annotations of the items read stand in the log, and so does the error that they end with. -/
theorem sited_readItems (bound : Nat) (hat : At w lx) :
    ∃ w', w ≤ w' ∧ At w' (readItems bound lx).2.2 ∧
      (∀ i ∈ (readItems bound lx).1, w'.log.HoldsTypes i.annotations) ∧
        ∀ e ∈ (readItems bound lx).2.1, e.diagnostic.Sited w'.log := by
  induction bound generalizing w lx with
  | zero =>
      rw [readItems]
      exact ⟨w, le_refl w, hat, List.forall_mem_nil _, fun e he => absurd he (Option.not_mem_none e)⟩
  | succ bound ih =>
      obtain ⟨w', hle, hat', hread⟩ := sited_readWithin sited_item hat (bound + 1)
      rw [readItems]
      generalize readWithin (bound + 1) item lx = r at hat' hread ⊢
      obtain ⟨e | _ | i, lx'⟩ := r
      · exact ⟨w', hle, hat', List.forall_mem_nil _, fun _ he => Option.some.inj he ▸ hread⟩
      · exact ⟨w', hle, hat', List.forall_mem_nil _, fun e he => absurd he (Option.not_mem_none e)⟩
      · obtain ⟨w'', hle', hat'', hitems, herror⟩ := ih hat'
        have hi : w''.log.HoldsTypes i.annotations := (hread i rfl).mono hle'.1
        exact ⟨w'', hle.trans hle', hat'', List.forall_mem_cons.mpr ⟨hi, hitems⟩, herror⟩

end Grammar

end SoundLang
