import SoundLang.Proofs.Parse.Sentence

/-! # Where the end of the input is met

A procedure that never meets the end of its tokens does the same whatever follows them; one that meets it stops with
the lexical error that stands there, if one does.  So a run on tokens alone tells how the run goes on (`Tells`), once it
is known whether it met the end.

`Parse.Within` follows a procedure and keeps what is known of the next token.  It shows of the grammar (`within_body`,
`within_item`) that

* an error says that the input has ended just where the end was met (`ParseError.atEnd`);
* what is read without an error has met the end only if it can go on there: an operand, a type, or a statement that
  ends in an `if` without `else`. -/

namespace SoundLang

/-- The error says that the input has ended where a token was needed. -/
def ParseError.atEnd : ParseError → Bool
  | endAfterUnary .. | endAfterBinary .. | unclosedBracket .. | endAfterExpression .. | unclosedBlock ..
  | cutOff .. => true
  | _ => false

theorem Want.atEnd_missing (want : Want) : want.missing.atEnd = true := by
  cases want <;> rfl

theorem Want.atEnd_unexpected (want : Want) (t : Token) : (want.unexpected t).atEnd = false := by
  cases want <;> rfl

namespace Parse

variable {ρ : Type → Type} {α β : Type}

/-! ### What is known of the next token -/

/-- Nothing is known of the next token, or it is known as `peek` gives it: `some none` is the end. -/
abbrev Knowledge := Option (Option Token)

/-- What is known is true of the tokens to come. -/
def Knowledge.Fits (k : Knowledge) (ts : List Token) : Prop := ∀ o ∈ k, ts.head? = o

@[simp] theorem Knowledge.fits_none (ts : List Token) : Knowledge.Fits none ts := fun _ h => nomatch h

@[simp] theorem Knowledge.fits_head? (ts : List Token) : Knowledge.Fits (some ts.head?) ts :=
  fun _ h => Option.some.inj h

/-- Where `k` is known before the procedure, its results have `Q`, with what is known behind them, and its errors say
that the input has ended just where the end is known.  `S` says of rules what is assumed of their results. -/
def Within (S : {β : Type} → ρ β → β → Knowledge → Prop) :
    {α : Type} → Parse ρ α → Knowledge → (α → Knowledge → Prop) → Prop
  | _, done a, k, Q => Q a k
  | _, andThen p q, k, Q => p.Within S k fun b k => (q b).Within S k Q
  | _, fail e, k, _ => e.atEnd = true ↔ k = some none
  | _, peek, none, Q => Q none (some none) ∧ ∀ t, Q (some t) (some (some t))
  | _, peek, some o, Q => Q o (some o)
  | _, next, none, Q => Q none (some none) ∧ ∀ t, Q (some t) none
  | _, next, some none, Q => Q none (some none)
  | _, next, some (some t), Q => Q (some t) none
  | _, call rule, _, Q => ∀ a k, S rule a k → Q a k

section
variable {S : {β : Type} → ρ β → β → Knowledge → Prop} {k : Knowledge}

@[simp] theorem within_pure (a : α) {Q : α → Knowledge → Prop} :
    (pure a : Parse ρ α).Within S k Q ↔ Q a k := Iff.rfl

@[simp] theorem within_fail (e : ParseError) {Q : α → Knowledge → Prop} :
    (fail e : Parse ρ α).Within S k Q ↔ (e.atEnd = true ↔ k = some none) := Iff.rfl

@[simp] theorem within_bind (p : Parse ρ β) (q : β → Parse ρ α) {Q : α → Knowledge → Prop} :
    (p >>= q).Within S k Q ↔ p.Within S k fun b k => (q b).Within S k Q := Iff.rfl

@[simp] theorem within_call (rule : ρ α) {Q : α → Knowledge → Prop} :
    (call rule).Within S k Q ↔ ∀ a k, S rule a k → Q a k := Iff.rfl

@[simp] theorem within_next_known (t : Token) {Q : Option Token → Knowledge → Prop} :
    (next : Parse ρ _).Within S (some (some t)) Q ↔ Q (some t) none := Iff.rfl

theorem within_peek {Q : Option Token → Knowledge → Prop} (h0 : Q none (some none))
    (h1 : ∀ t, Q (some t) (some (some t))) : (peek : Parse ρ _).Within S k Q := by
  match k with
  | none => exact ⟨h0, h1⟩
  | some none => exact h0
  | some (some t) => exact h1 t

theorem within_next {Q : Option Token → Knowledge → Prop} (h0 : Q none (some none))
    (h1 : ∀ t, Q (some t) none) : (next : Parse ρ _).Within S k Q := by
  match k with
  | none => exact ⟨h0, h1⟩
  | some none => exact h0
  | some (some t) => exact h1 t

theorem within_nextIf {accept : Token → Bool} {Q : Option Token → Knowledge → Prop} (h0 : ∀ k, Q none k)
    (h1 : ∀ t, Q (some t) none) : (nextIf accept : Parse ρ _).Within S k Q := by
  refine within_peek (h0 _) fun t => ?_
  cases ha : accept t with
  | false => simpa [ha] using h0 _
  | true => simpa [ha] using h1 t

theorem within_expect {context : Construct} {keyword : Span} {expected : Expectation} {accept : Token → Bool}
    {Q : Token → Knowledge → Prop} (h : ∀ t, Q t none) :
    (expect context keyword expected accept : Parse ρ _).Within S k Q := by
  refine within_next ?_ fun t => ?_
  · simp [ParseError.atEnd]
  · cases ha : accept t with
    | false => simp [ha, ParseError.atEnd]
    | true => simpa [ha] using h t

theorem Within.imp {p : Parse ρ α} {Q Q' : α → Knowledge → Prop} (h : p.Within S k Q)
    (hQ : ∀ a k, Q a k → Q' a k) : p.Within S k Q' := by
  induction p generalizing k with
  | done a => exact hQ a k h
  | andThen p q ihp ihq => exact ihp h fun b k hb => ihq b hb hQ
  | fail e => exact h
  | peek =>
      match k, h with
      | none, h => exact ⟨hQ _ _ h.1, fun t => hQ _ _ (h.2 t)⟩
      | some o, h => exact hQ _ _ h
  | next =>
      match k, h with
      | none, h => exact ⟨hQ _ _ h.1, fun t => hQ _ _ (h.2 t)⟩
      | some none, h => exact hQ _ _ h
      | some (some t), h => exact hQ _ _ h
  | call rule => exact fun a k ha => hQ a k (h a k ha)

end

/-! ### Runs on tokens, and on what follows them -/

/-- With the entries `vs` in place of the end, the run stops at the error that comes first in them. -/
def Interrupted (vs : List Entry) (r : EStateM.Result Stop (List Entry) α) : Prop :=
  ∀ e ws, vs = .error e :: ws → ∃ us, r = .error (.error (.lexical e)) us

/-- What the run `r` on the tokens `ts` alone tells of the run on the tokens with `vs` behind them. -/
inductive Tells (r : List Entry → EStateM.Result Stop (List Entry) α) (ts : List Token) (vs : List Entry)
    (Q : α → Knowledge → Prop) (k : Knowledge) : Prop
  /-- It reads the same. -/
  | read (a : α) (us : List Token) (k' : Knowledge) (halone : r (ts.map .ok) = .ok a (us.map .ok))
      (hwhole : r (ts.map .ok ++ vs) = .ok a (us.map .ok ++ vs)) (hk : k ≠ some none) (hQ : Q a k')
      (hk' : k' ≠ some none) (hfits : k'.Fits us)
  /-- It has met the end. -/
  | ended (a : α) (halone : r (ts.map .ok) = .ok a []) (hQ : Q a (some none))
      (hwhole : k ≠ some none → Interrupted vs (r (ts.map .ok ++ vs)))
  /-- It fails in the same way. -/
  | failed (e : ParseError) (us : List Token) (he : e.atEnd = false)
      (halone : r (ts.map .ok) = .error (.error e) (us.map .ok))
      (hwhole : r (ts.map .ok ++ vs) = .error (.error e) (us.map .ok ++ vs)) (hk : k ≠ some none)
  /-- It fails for want of a token. -/
  | cutOff (e : ParseError) (he : e.atEnd = true) (halone : r (ts.map .ok) = .error (.error e) [])
      (hwhole : k ≠ some none → Interrupted vs (r (ts.map .ok ++ vs)))
  /-- It does not come to an end of its own. -/
  | tooDeep (us : List Entry) (halone : r (ts.map .ok) = .error .tooDeep us)

namespace Tells

variable {S : {β : Type} → ρ β → β → Knowledge → Prop} {f : {β : Type} → ρ β → EStateM Stop (List Entry) β}
  {ts : List Token} {vs : List Entry} {k : Knowledge} {Q : α → Knowledge → Prop}

theorem interrupted_answer (us : List Entry) : Interrupted vs (answer (Entry.front vs, us)) := by
  rintro e ws rfl
  exact ⟨us, rfl⟩

theorem ne_end_of_fits {t : Token} (hfits : k.Fits (t :: ts)) : k ≠ some none := by
  rintro rfl
  cases hfits none rfl

theorem peek {Q : Option Token → Knowledge → Prop} (hfits : k.Fits ts) (h : (peek : Parse ρ _).Within S k Q) :
    Tells ((peek : Parse ρ _).run f) ts vs Q k := by
  have hQ : Q ts.head? (some ts.head?) := by
    match k, hfits with
    | none, _ => cases ts with
      | nil => exact h.1
      | cons t ts => exact h.2 t
    | some o, hfits => cases hfits o rfl; exact h
  cases ts with
  | nil => exact .ended none rfl hQ fun _ => interrupted_answer vs
  | cons t ts =>
      exact .read (some t) (t :: ts) (some (some t)) rfl rfl (ne_end_of_fits hfits) hQ (by simp)
        (Knowledge.fits_head? (t :: ts))

theorem next {Q : Option Token → Knowledge → Prop} (hfits : k.Fits ts) (h : (next : Parse ρ _).Within S k Q) :
    Tells ((next : Parse ρ _).run f) ts vs Q k := by
  cases ts with
  | nil =>
      have hQ : Q none (some none) := by
        match k, hfits with
        | none, _ => exact h.1
        | some o, hfits => cases hfits o rfl; exact h
      exact .ended none rfl hQ fun _ => interrupted_answer vs.tail
  | cons t ts =>
      have hQ : Q (some t) none := by
        match k, hfits with
        | none, _ => exact h.2 t
        | some o, hfits => cases hfits o rfl; exact h
      exact .read (some t) ts none rfl rfl (ne_end_of_fits hfits) hQ (by simp) (Knowledge.fits_none ts)

theorem fail (e : ParseError) (hfits : k.Fits ts) (h : (fail e : Parse ρ α).Within S k Q) :
    Tells ((fail e : Parse ρ α).run f) ts vs Q k := by
  by_cases hk : k = some none
  · subst hk
    have hts : ts = [] := List.head?_eq_none_iff.mp (hfits none rfl)
    subst hts
    exact .cutOff e (h.mpr rfl) rfl fun hk => absurd rfl hk
  · refine .failed e ts ?_ rfl rfl hk
    rw [Bool.eq_false_iff]
    exact fun he => hk (h.mp he)

theorem done (a : α) (hfits : k.Fits ts) (h : Q a k) : Tells ((done a : Parse ρ α).run f) ts vs Q k := by
  by_cases hk : k = some none
  · subst hk
    have hts : ts = [] := List.head?_eq_none_iff.mp (hfits none rfl)
    subst hts
    exact .ended a rfl h fun hk => absurd rfl hk
  · exact .read a ts k rfl rfl hk h hk hfits

theorem interrupted_andThen {p : Parse ρ β} {q : β → Parse ρ α} {es : List Entry} (h : Interrupted vs (p.run f es)) :
    Interrupted vs ((p.andThen q).run f es) := by
  intro e ws hvs
  obtain ⟨us, hus⟩ := h e ws hvs
  exact ⟨us, by simp only [run, hus]⟩

theorem andThen {p : Parse ρ β} {q : β → Parse ρ α} {R : β → Knowledge → Prop} (hp : Tells (p.run f) ts vs R k)
    (hq : ∀ b k us, k.Fits us → R b k → Tells ((q b).run f) us vs Q k) :
    Tells ((p.andThen q).run f) ts vs Q k := by
  cases hp with
  | read b us k' halone hwhole hk hR hk' hfits =>
      have halone' : (p.andThen q).run f (ts.map .ok) = (q b).run f (us.map .ok) := by simp only [run, halone]
      have hwhole' : (p.andThen q).run f (ts.map .ok ++ vs) = (q b).run f (us.map .ok ++ vs) := by
        simp only [run, hwhole]
      cases hq b k' us hfits hR with
      | read a ws k'' ha hw _ hQ hk'' hws =>
          exact .read a ws k'' (halone'.trans ha) (hwhole'.trans hw) hk hQ hk'' hws
      | ended a ha hQ hw => exact .ended a (halone'.trans ha) hQ fun _ => hwhole' ▸ hw hk'
      | failed e ws he ha hw _ => exact .failed e ws he (halone'.trans ha) (hwhole'.trans hw) hk
      | cutOff e he ha hw => exact .cutOff e he (halone'.trans ha) fun _ => hwhole' ▸ hw hk'
      | tooDeep ws ha => exact .tooDeep ws (halone'.trans ha)
  | ended b halone hR hwhole =>
      have halone' : (p.andThen q).run f (ts.map .ok) = (q b).run f [] := by simp only [run, halone]
      have hwhole' := fun hk => interrupted_andThen (q := q) (hwhole hk)
      -- behind the end there is nothing that could be read or be wrong
      cases hq b (some none) [] (Knowledge.fits_head? []) hR with
      | read _ _ _ _ _ hk | failed _ _ _ _ _ hk => exact absurd rfl hk
      | ended a ha hQ _ => exact .ended a (halone'.trans ha) hQ hwhole'
      | cutOff e he ha _ => exact .cutOff e he (halone'.trans ha) hwhole'
      | tooDeep ws ha => exact .tooDeep ws (halone'.trans ha)
  | failed e us he halone hwhole hk =>
      exact .failed e us he (by simp only [run, halone]) (by simp only [run, hwhole]) hk
  | cutOff e he halone hwhole =>
      exact .cutOff e he (by simp only [run, halone]) fun hk => interrupted_andThen (hwhole hk)
  | tooDeep us halone => exact .tooDeep us (by simp only [run, halone])

theorem imp {r : List Entry → EStateM.Result Stop (List Entry) α} {Q' : α → Knowledge → Prop}
    (h : Tells r ts vs Q k) (hQ : ∀ a k, Q a k → Q' a k) : Tells r ts vs Q' k := by
  cases h with
  | read a us k' halone hwhole hk hQa hk' hfits => exact .read a us k' halone hwhole hk (hQ a k' hQa) hk' hfits
  | ended a halone hQa hwhole => exact .ended a halone (hQ a _ hQa) hwhole
  | failed e us he halone hwhole hk => exact .failed e us he halone hwhole hk
  | cutOff e he halone hwhole => exact .cutOff e he halone hwhole
  | tooDeep us halone => exact .tooDeep us halone

theorem congr {r r' : List Entry → EStateM.Result Stop (List Entry) α} (h : Tells r ts vs Q k)
    (halone : r (ts.map .ok) = r' (ts.map .ok)) (hwhole : r (ts.map .ok ++ vs) = r' (ts.map .ok ++ vs)) :
    Tells r' ts vs Q k := by
  cases h with
  | read a us k' ha hw hk hQ hk' hfits => exact .read a us k' (halone ▸ ha) (hwhole ▸ hw) hk hQ hk' hfits
  | ended a ha hQ hw => exact .ended a (halone ▸ ha) hQ (hwhole ▸ hw)
  | failed e us he ha hw hk => exact .failed e us he (halone ▸ ha) (hwhole ▸ hw) hk
  | cutOff e he ha hw => exact .cutOff e he (halone ▸ ha) (hwhole ▸ hw)
  | tooDeep us ha => exact .tooDeep us (halone ▸ ha)

/-- A procedure does what is known of it, if the rules do. -/
theorem run (p : Parse ρ α) (hf : ∀ {β : Type} (rule : ρ β) ts k, k.Fits ts → Tells (f rule) ts vs (S rule) k)
    (hfits : k.Fits ts) (h : p.Within S k Q) : Tells (p.run f) ts vs Q k := by
  induction p generalizing ts k with
  | done a => exact done a hfits h
  | andThen p q ihp ihq => exact (ihp hfits h).andThen fun b k us hus hR => ihq b hus hR
  | fail e => exact fail e hfits h
  | peek => exact peek hfits h
  | next => exact next hfits h
  | call rule => exact (hf rule ts k hfits).imp h

end Tells

/-- If the bodies of the rules do what is assumed of the rules, so do the rules. -/
theorem tells_runRule {S : {β : Type} → ρ β → β → Knowledge → Prop} {body : {β : Type} → ρ β → Parse ρ β}
    (hbody : ∀ {β : Type} (rule : ρ β) k, (body rule).Within S k (S rule)) (vs : List Entry) (d : Nat) :
    ∀ {β : Type} (rule : ρ β) (ts : List Token) (k : Knowledge), k.Fits ts →
      Tells (runRule body d rule) ts vs (S rule) k := by
  induction d with
  | zero => exact fun _ ts _ _ => .tooDeep (ts.map .ok) rfl
  | succ d ih => exact fun rule ts k hfits => Tells.run (body rule) ih hfits (hbody rule k)

end Parse

/-! ### Where the grammar meets the end -/

/-- What the rules leave known: lists, blocks and the like are read to their closing bracket, and a statement behind
which the end is known could go on with an `else`. -/
def Rule.Leaves : {β : Type} → Rule β → β → Parse.Knowledge → Prop
  | _, factor _, _, _ | _, suffixes _, _, _ | _, climb .., _, _ | _, typeExpr .., _, _ => True
  | _, items .., _, k | _, types .., _, k | _, params _, _, k | _, block _, _, k => k ≠ some none
  | _, statement, none, k => k = some none
  | _, statement, some s, k => k = some none → s.endsInIf = true

namespace Grammar

open Parse

variable {k : Knowledge}

theorem within_operand {want : Want} {Q : Head → Knowledge → Prop} (h : ∀ head, Q head none) :
    (operand want).Within Rule.Leaves k Q := by
  refine within_next ?_ fun t => ?_
  · simp [want.atEnd_missing]
  · cases ht : t.head? with
    | none => simp [ht, want.atEnd_unexpected]
    | some head => simpa [ht] using h head

theorem within_name {context : Construct} {keyword : Span} {Q : Name Span → Knowledge → Prop}
    (h : ∀ n, Q n none) : (name context keyword).Within Rule.Leaves k Q := by
  refine within_next ?_ fun t => ?_
  · simp [ParseError.atEnd]
  · cases ht : t.kind.name? with
    | none => simp [ht, ParseError.atEnd]
    | some text => simpa [ht] using h ⟨text, t.span⟩

theorem within_expressionFrom {head : Head} {Q : Expr Span → Knowledge → Prop} (h : ∀ e k, Q e k) :
    (expressionFrom head).Within Rule.Leaves k Q :=
  fun _ _ _ e k _ => h e k

theorem within_wanted {want : Want} {Q : Expr Span → Knowledge → Prop} (h : ∀ e k, Q e k) :
    (wanted want).Within Rule.Leaves k Q :=
  within_operand fun _ => within_expressionFrom h

theorem within_factor (head : Head) : (factor head).Within Rule.Leaves k fun _ _ => True := by
  cases head with
  | leaf e => exact fun _ _ _ => trivial
  | unary op operator => exact within_operand fun _ _ _ _ _ _ _ => trivial
  | opening b span => exact fun _ _ _ _ _ _ => trivial

theorem within_suffixes (base : Expr Span) : (suffixes base).Within Rule.Leaves k fun _ _ => True := by
  refine within_peek trivial fun t => ?_
  cases hs : suffix? t with
  | none => simp [hs]
  | some suffix =>
      match suffix with
      | .op op | .opening .round => simp [hs]
      | .opening .square =>
          simp only [hs, within_bind, within_next_known, within_call]
          intro l k (hk : k ≠ some none)
          split
          · simp
          · simpa [ParseError.atEnd] using hk
          · simpa [ParseError.atEnd] using hk

theorem within_operator? {level : Nat} {Q : Option (BinaryOp × Span) → Knowledge → Prop}
    (h0 : ∀ k, Q none k) (h1 : ∀ r, Q (some r) none) : (operator? level).Within Rule.Leaves k Q := by
  refine within_peek (h0 _) fun t => ?_
  simp only [Option.bind_some]
  split
  · exact h1 _
  · exact h0 _

theorem within_climb (level : Nat) (left : Expr Span) :
    (climb level left).Within Rule.Leaves k fun _ _ => True :=
  within_operator? (fun _ => trivial) fun _ =>
    within_operand fun _ _ _ _ _ _ _ _ _ _ => trivial

/-- At the end no list item is complete. -/
theorem within_itemEnd {b : Bracket} {opening : Span} {Q : Bool → Knowledge → Prop}
    (h : ∀ comma k, k ≠ some none → Q comma k) : (itemEnd b opening).Within Rule.Leaves k Q := by
  refine within_nextIf (fun k => within_peek (iff_of_true rfl rfl) fun t => ?_) fun _ => h true none (by simp)
  cases ht : t.kind.closes? with
  | none => simp [ht, ParseError.atEnd]
  | some b => simpa [ht] using h false _ (by simp)

theorem within_items (b : Bracket) (opening : Span) (trailing : Bool) :
    (items b opening trailing).Within Rule.Leaves k fun _ k => k ≠ some none := by
  refine within_peek ?_ fun t => ?_
  · exact within_nextIf (fun _ => within_wanted fun _ _ => within_itemEnd fun _ _ _ _ _ hk => hk)
      (by simp [ParseError.atEnd])
  · cases ht : t.kind.closes? with
    | none =>
        simp only [Option.bind_some, ht, Option.map_none]
        exact within_nextIf (fun _ => within_wanted fun _ _ => within_itemEnd fun _ _ _ _ _ hk => hk)
          (by simp [ParseError.atEnd])
    | some closing =>
        by_cases hb : closing = b
        · simp [ht, hb]
        · simp [ht, hb, ParseError.atEnd]

theorem within_typeList {b : Bracket} {context : Construct} {keyword : Span}
    {Q : List (TypeExpr Span) × Span → Knowledge → Prop} (h : ∀ r k, k ≠ some none → Q r k) :
    (typeList b context keyword).Within Rule.Leaves k Q :=
  within_nextIf (fun _ r k hk => h r k hk) fun _ => h _ none (by simp)

theorem within_typeExpr (context : Construct) (keyword : Span) :
    (typeExpr context keyword).Within Rule.Leaves k fun _ _ => True := by
  refine within_next (iff_of_true rfl rfl) fun t => ?_
  simp only
  cases t.kind.name? with
  | some text => exact within_nextIf (fun _ => trivial) fun _ => within_typeList fun _ _ _ => trivial
  | none =>
      simp only
      split
      · exact within_typeList fun _ _ _ => trivial
      · simp [ParseError.atEnd]

theorem within_types (b : Bracket) (context : Construct) (keyword : Span) :
    (types b context keyword).Within Rule.Leaves k fun _ k => k ≠ some none := by
  refine fun first k _ => within_expect fun separator => ?_
  cases hs : separator.isSymbol .comma with
  | true =>
      simp only [hs, if_true]
      exact fun _ _ hk => hk
  | false => simp [hs]

theorem within_annotation {context : Construct} {keyword : Span}
    {Q : Option (TypeExpr Span) → Knowledge → Prop} (h : ∀ type k, Q type k) :
    ( annotation context keyword).Within Rule.Leaves k Q :=
  within_nextIf (h none) fun _ _ k _ => h _ k

theorem within_condition {context : Construct} {keyword : Span} {Q : Expr Span → Knowledge → Prop}
    (h : ∀ e, Q e none) : (condition context keyword).Within Rule.Leaves k Q :=
  within_expect fun _ => within_wanted fun _ _ => within_expect fun _ => h _

/-- A governed statement behind which the end is known ends in an `if`. -/
theorem within_governed {context : Construct} {keyword : Span} {Q : Stmt Span → Knowledge → Prop}
    (h : ∀ s k, (k = some none → s.endsInIf = true) → Q s k) :
    (governed context keyword).Within Rule.Leaves k Q := by
  intro s k hs
  cases s with
  | none => exact iff_of_true rfl hs
  | some s => exact h s k hs

theorem within_ifStatement (keyword : Span) :
    (ifStatement keyword).Within Rule.Leaves k fun s k => k = some none → s.endsInIf = true :=
  within_condition fun _ => within_governed fun _ _ _ =>
    within_nextIf (fun _ _ => rfl) fun _ => within_governed fun _ _ hno => hno

theorem within_whileStatement (keyword : Span) :
    (whileStatement keyword).Within Rule.Leaves k fun s k => k = some none → s.endsInIf = true :=
  within_condition fun _ => within_governed fun _ _ hbody => hbody

theorem within_returnStatement (keyword : Span) :
    (returnStatement keyword).Within Rule.Leaves k fun _ k => k ≠ some none :=
  within_nextIf (fun _ => within_wanted fun _ _ => within_expect fun _ => by simp) (by simp)

theorem within_letDeclaration (keyword : Span) :
    (letDeclaration keyword).Within Rule.Leaves k fun _ k => k ≠ some none :=
  within_name fun _ => within_annotation fun _ _ => within_expect fun _ => within_wanted fun _ _ =>
    within_expect fun _ => by simp

theorem within_expressionStatement (head : Head) :
    (expressionStatement head).Within Rule.Leaves k fun _ k => k ≠ some none := by
  refine within_expressionFrom fun e k => within_next (iff_of_true rfl rfl) fun t => ?_
  cases ht : t.isSymbol .semicolon <;> simp [ht, ParseError.atEnd]

theorem within_statementFrom (t : Token) :
    (statementFrom t).Within Rule.Leaves none fun s k => k = some none → s.endsInIf = true := by
  unfold statementFrom
  split
  · exact within_ifStatement t.span
  · exact within_whileStatement t.span
  · exact within_expect fun _ => by simp
  · exact within_expect fun _ => by simp
  · exact (within_returnStatement t.span).imp fun _ _ hk h => absurd h hk
  · exact (within_letDeclaration t.span).imp fun _ _ hk h => absurd h hk
  · simp [ParseError.atEnd]
  · simp [ParseError.atEnd]
  · split
    · simp
    · split
      · exact fun _ _ hk h => absurd h hk
      · split
        · next head _ => exact (within_expressionStatement head).imp fun _ _ hk h => absurd h hk
        · simp [ParseError.atEnd]

theorem within_statement : statement.Within Rule.Leaves k (Rule.Leaves .statement) :=
  within_next rfl fun t => within_statementFrom t

theorem within_block (opening : Span) :
    (block opening).Within Rule.Leaves k fun _ k => k ≠ some none := by
  refine within_nextIf (fun _ s k hs => ?_) (by simp)
  cases s with
  | none => exact iff_of_true rfl hs
  | some s => exact fun _ _ hk => hk

theorem within_params (keyword : Span) :
    (params keyword).Within Rule.Leaves k fun _ k => k ≠ some none := by
  refine within_name fun name => within_annotation fun type k => within_expect fun separator => ?_
  cases hs : separator.isSymbol .comma with
  | true =>
      simp only [hs, if_true]
      exact fun _ _ hk => hk
  | false => simp [hs]

theorem within_definitionBody {keyword : Span} {Q : Body Span × Span → Knowledge → Prop}
    (h : ∀ r k, k ≠ some none → Q r k) : (definitionBody keyword).Within Rule.Leaves k Q := by
  refine within_next (iff_of_true rfl rfl) fun t => ?_
  simp only
  split
  · exact within_wanted fun _ _ => within_expect fun _ => h _ none (by simp)
  · split
    · exact fun r k hk => h _ k hk
    · simp [ParseError.atEnd]

theorem within_definition (keyword : Span) :
    (definition keyword).Within Rule.Leaves k fun _ k => k ≠ some none :=
  within_name fun _ => within_expect fun _ => within_nextIf
    (fun _ _ _ _ => within_annotation fun _ _ => within_definitionBody fun _ _ hk => hk)
    (fun _ => within_annotation fun _ _ => within_definitionBody fun _ _ hk => hk)

/-- An item behind which the end is known could go on with an `else`; there is no item just where the end is met
first. -/
theorem within_item : item.Within Rule.Leaves k fun o k =>
    match o with
    | none => k = some none
    | some i => k = some none → i.endsInIf = true := by
  refine within_nextIf (fun _ s k hs => ?_) fun t =>
    (within_definition t.span).imp fun _ _ hk h => absurd h hk
  cases s with
  | none => exact hs
  | some s => exact hs

/-- The bodies of the rules leave known what `Rule.Leaves` says. -/
theorem within_body {α : Type} (rule : Rule α) (k : Knowledge) :
    rule.body.Within Rule.Leaves k (Rule.Leaves rule) := by
  cases rule with
  | factor head => exact within_factor head
  | suffixes base => exact within_suffixes base
  | climb level left => exact within_climb level left
  | items b opening trailing => exact within_items b opening trailing
  | typeExpr context keyword => exact within_typeExpr context keyword
  | types b context keyword => exact within_types b context keyword
  | params keyword => exact within_params keyword
  | statement => exact within_statement
  | block opening => exact within_block opening

/-- What a procedure of the grammar makes of tokens alone tells what it makes of them with entries behind. -/
theorem tells_outcome {α : Type} {p : Parse Rule α} {Q : α → Knowledge → Prop}
    (h : p.Within Rule.Leaves none Q) (ts : List Token) (vs : List Entry) : Tells (outcome p) ts vs Q none := by
  have htells := Tells.run p (tells_runRule within_body vs (depth (ts.length + vs.length))) (Knowledge.fits_none ts) h
  refine htells.congr ?_ ?_
  · exact run_eq_outcome p (by simp only [depth, List.length_map]; omega)
  · exact run_eq_outcome p (by simp only [depth, List.length_append, List.length_map]; omega)

end Grammar

end SoundLang
