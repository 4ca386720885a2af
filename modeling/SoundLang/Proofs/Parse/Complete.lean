import SoundLang.Proofs.Parse.Sound

/-! # Phrases are read

The converse of `Rule.Reads.spec`: where the tokens of a phrase come first, and what follows cannot continue it,
the rule of the phrase reads these tokens and gives the tree of the phrase.

An operand is built from its suffixes and a layer from its operators in the order in which they are read, so the
statements about them are made for what comes after: if `suffixes e` goes on to `r` behind the operand `e`, then
the factor that starts with its first token is read up to `r` (`Operand.reads`), and likewise for `climb` behind a
layer (`Layer.reads`). -/

namespace SoundLang

open Phrase

/-! ### The first token of a phrase -/

namespace Token

theorem name?_eq_some {k : Kind} {text : String} (h : k.name? = some text) :
    k = .word text ∧ (Keyword.lookup? text).isNone = true := by
  cases k with
  | word w =>
      simp only [Kind.name?] at h
      split at h
      · next hn => cases h; exact ⟨rfl, hn⟩
      · cases h
  | _ => cases h

theorem head?_of_name {t : Token} {text : String} (h : t.kind.name? = some text) :
    t.head? = some (.leaf (.name t.span text)) := by
  obtain ⟨hk, hn⟩ := name?_eq_some h
  simp [head?, hk, Kind.prefixOp?, Kind.opens?, leaf?, hn]

theorem head?_of_number {t : Token} {text : String} (h : t.kind = .number text) :
    t.head? = some (.leaf (.number t.span text)) := by
  simp [head?, h, Kind.prefixOp?, Kind.opens?, leaf?]

theorem head?_of_string {t : Token} {value : String} (h : t.kind = .string value) :
    t.head? = some (.leaf (.string t.span value)) := by
  simp [head?, h, Kind.prefixOp?, Kind.opens?, leaf?]

theorem head?_of_opening {t : Token} {b : Bracket} (h : t.kind = .symbol b.opening) :
    t.head? = some (.opening b t.span) := by
  cases b <;> simp [head?, h, Bracket.opening, Kind.prefixOp?, Kind.opens?]

theorem head?_of_prefix {t : Token} {op : UnaryOp} (h : t.kind.prefixOp? = some op) :
    t.head? = some (.unary op t.span) := by
  simp [head?, h]

theorem suffix?_of_op {t : Token} {op : UnaryOp} (h : t.kind.suffixOp? = some op) :
    Grammar.suffix? t = some (.op op) := by
  simp [Grammar.suffix?, h]

theorem suffix?_of_opening {t : Token} {b : Bracket} (h : t.kind = .symbol b.opening) :
    Grammar.suffix? t = some (.opening b) := by
  cases b <;> simp [Grammar.suffix?, h, Bracket.opening, Kind.suffixOp?, Kind.opens?]

theorem suffix?_of_not {t : Token} (h : t.isSuffix = false) : Grammar.suffix? t = none := by
  unfold isSuffix at h
  unfold Grammar.suffix?
  split <;> simp_all

theorem isSuffix_of_infix {t : Token} {op : BinaryOp} (h : t.kind.infixOp? = some op) :
    t.isSuffix = false := by
  unfold Kind.infixOp? at h
  split at h <;> simp_all [isSuffix, Kind.suffixOp?, Kind.opens?]

/-- A comma, a semicolon or a closing bracket. -/
def isStop (t : Token) : Bool :=
  t.isSymbol .comma || t.isSymbol .semicolon || t.isSymbol .rparen || t.isSymbol .rbracket

theorem isStop_iff {t : Token} : t.isStop = true ↔ t.kind = .symbol .comma ∨
    t.kind = .symbol .semicolon ∨ t.kind = .symbol .rparen ∨ t.kind = .symbol .rbracket := by
  simp [isStop, or_assoc]

theorem isSuffix_of_isStop {t : Token} (h : t.isStop = true) : t.isSuffix = false := by
  obtain h | h | h | h := isStop_iff.mp h <;> simp [isSuffix, h, Kind.suffixOp?, Kind.opens?]

theorem head?_of_isStop {t : Token} (h : t.isStop = true) : t.head? = none := by
  obtain h | h | h | h := isStop_iff.mp h <;>
    simp [head?, leaf?, h, Kind.prefixOp?, Kind.opens?]

theorem isStop_of_closing {t : Token} {b : Bracket} (h : t.kind = .symbol b.closing) :
    t.isStop = true := by
  rw [isStop_iff, h]
  cases b <;> simp [Bracket.closing]

theorem isInfix_of_isStop {t : Token} (n : Nat) (h : t.isStop = true) : t.isInfix n = false := by
  obtain h | h | h | h := isStop_iff.mp h <;> simp [isInfix, h, Kind.infixOp?]

/-- The token can be the first one of a statement, as far as its kind tells. -/
def startsStmt (t : Token) : Bool :=
  !(t.isKeyword .elseWord || t.isKeyword .defWord || t.isSymbol .rbrace)

theorem isKeyword_of_startsStmt {t : Token} (h : t.startsStmt = true) :
    t.isKeyword .elseWord = false ∧ t.isKeyword .defWord = false := by
  simp only [startsStmt, Bool.not_eq_true', Bool.or_eq_false_iff] at h
  exact h.1

theorem isSymbol_rbrace_of_startsStmt {t : Token} (h : t.startsStmt = true) :
    t.isSymbol .rbrace = false := by
  simp only [startsStmt, Bool.not_eq_true', Bool.or_eq_false_iff] at h
  exact h.2

theorem startsStmt_of_symbol {t : Token} {s : Symbol} (h : t.kind = .symbol s) (hs : s ≠ .rbrace) :
    t.startsStmt = true := by
  simp [startsStmt, isKeyword, isSymbol, h, Kind.keyword?, hs]

theorem startsStmt_of_keyword {t : Token} {k : Keyword} (h : t.kind.keyword? = some k)
    (hk : k ≠ .elseWord ∧ k ≠ .defWord) : t.startsStmt = true := by
  have hr : t.kind ≠ .symbol .rbrace := by
    intro hr
    rw [hr] at h
    cases h
  simp [startsStmt, isKeyword, isSymbol, h, hk, hr]

/-- The first token of an expression begins no other statement. -/
theorem plain_of_head? {t : Token} {head : Head} (h : t.head? = some head) :
    t.kind.keyword? = none ∧ t.isSymbol .semicolon = false ∧ t.isSymbol .lbrace = false := by
  obtain ⟨kind, span⟩ := t
  cases kind with
  | word text =>
      refine ⟨?_, rfl, rfl⟩
      simp only [head?, Kind.prefixOp?, Kind.opens?, leaf?] at h
      split at h
      · next hn => simpa [Kind.keyword?] using hn
      · cases h
  | number text => exact ⟨rfl, rfl, rfl⟩
  | string value => exact ⟨rfl, rfl, rfl⟩
  | symbol s =>
      refine ⟨rfl, ?_, ?_⟩
      · rw [Bool.eq_false_iff, Ne, isSymbol_iff]
        rintro ⟨⟩
        cases h
      · rw [Bool.eq_false_iff, Ne, isSymbol_iff]
        rintro ⟨⟩
        cases h

theorem startsStmt_of_head? {t : Token} {head : Head} (h : t.head? = some head) :
    t.startsStmt = true := by
  have hr : t.kind ≠ .symbol .rbrace := by
    intro hr
    simp [head?, leaf?, hr, Kind.prefixOp?, Kind.opens?] at h
  simp [startsStmt, isKeyword, isSymbol, (plain_of_head? h).1, hr]

end Token

namespace Rule

open Parse Grammar

variable {es us vs ws : List Entry} {t : Token}

/-! ### Rules at work -/

theorem reads_suffixes_stop {base : Expr Span} (h : Entry.Lacks Token.isSuffix us) :
    (suffixes base).Reads us base us := by
  obtain ⟨o, ho, ha⟩ := h
  refine reads_iff.mpr (readsBy_peek_bind.mpr ⟨o, ho, ?_⟩)
  cases o with
  | none => exact ⟨rfl, rfl⟩
  | some t =>
      simp only [Token.suffix?_of_not (by simpa using ha)]
      exact ⟨rfl, rfl⟩

theorem reads_suffixes_op {base e : Expr Span} {op : UnaryOp} (ht : t.kind.suffixOp? = some op)
    (h : (suffixes (.unary (base.note.join t.span) op base)).Reads us e vs) :
    (suffixes base).Reads (.ok t :: us) e vs := by
  refine reads_iff.mpr (readsBy_peek_bind.mpr ⟨some t, rfl, ?_⟩)
  simp only [Token.suffix?_of_op ht]
  exact readsBy_next_bind_cons.mpr h

theorem reads_suffixes_call {base e : Expr Span} {l : Bracketed} (ht : t.kind = .symbol .lparen)
    (hl : (items .round t.span false).Reads us l vs)
    (h : (suffixes (.call (base.note.join l.span) base l.items)).Reads vs e ws) :
    (suffixes base).Reads (.ok t :: us) e ws := by
  refine reads_iff.mpr (readsBy_peek_bind.mpr ⟨some t, rfl, ?_⟩)
  simp only [Token.suffix?_of_opening (b := .round) ht]
  exact readsBy_next_bind_cons.mpr ⟨l, vs, hl, h⟩

theorem reads_suffixes_index {base e i : Expr Span} {l : Bracketed}
    (ht : t.kind = .symbol .lbracket) (hl : (items .square t.span false).Reads us l vs)
    (hi : l.items = [i]) (h : (suffixes (.index (base.note.join l.span) base i)).Reads vs e ws) :
    (suffixes base).Reads (.ok t :: us) e ws := by
  refine reads_iff.mpr (readsBy_peek_bind.mpr ⟨some t, rfl, ?_⟩)
  simp only [Token.suffix?_of_opening (b := .square) ht]
  refine readsBy_next_bind_cons.mpr ⟨l, vs, hl, ?_⟩
  simp only [hi]
  exact h

theorem reads_climb_stop {level : Nat} {left : Expr Span} (h : Entry.Lacks (Token.isInfix level) us) :
    (climb level left).Reads us left us :=
  reads_iff.mpr ⟨none, us, readsBy_operator?.mpr (.inl ⟨rfl, rfl, h⟩), rfl, rfl⟩

theorem reads_climb_step {level : Nat} {left first right e : Expr Span} {op : BinaryOp} {head : Head}
    {u : Token} {xs : List Entry} (ht : t.kind.infixOp? = some op) (hle : op.level ≤ level)
    (hu : u.head? = some head) (hf : (factor head).Reads us first vs)
    (hr : (climb (rightLevel op) first).Reads vs right ws)
    (h : (climb level (.binary (left.note.join right.note) op left right)).Reads ws e xs) :
    (climb level left).Reads (.ok t :: .ok u :: us) e xs :=
  reads_iff.mpr ⟨some (op, t.span), .ok u :: us, readsBy_operator?.mpr (.inr ⟨t, op, rfl, rfl, ht, hle⟩),
    head, us, readsBy_operand.mpr ⟨u, rfl, hu⟩, first, vs, hf, right, ws, hr, h⟩

theorem reads_items_close {b : Bracket} {opening : Span} {trailing : Bool}
    (ht : t.kind = .symbol b.closing) :
    (items b opening trailing).Reads (.ok t :: us) ⟨[], trailing, opening.join t.span⟩ us := by
  refine reads_iff.mpr (readsBy_peek_bind.mpr ⟨some t, rfl, ?_⟩)
  simp only [Option.bind_some, Token.closes?_eq_some.mpr ht, Option.map_some, if_true]
  exact readsBy_next_bind_cons.mpr ⟨rfl, rfl⟩

theorem reads_items_step (trailing : Bool) {b : Bracket} {opening : Span} {comma : Bool} {e : Expr Span}
    {head : Head} {l : Bracketed} (ht : t.head? = some head)
    (he : (expressionFrom head).ReadsBy Rule.Reads us e vs)
    (hend : (itemEnd b opening).ReadsBy Rule.Reads vs comma ws)
    (hl : (items b opening comma).Reads ws l es) :
    (items b opening trailing).Reads (.ok t :: us) { l with items := e :: l.items } es := by
  have hstop : t.isStop = false := by
    rw [Bool.eq_false_iff]
    intro h
    rw [Token.head?_of_isStop h] at ht
    cases ht
  have hclose : t.kind.closes? = none := by
    rw [Option.eq_none_iff_forall_ne_some]
    intro b' hb
    rw [Token.isStop_of_closing (Token.closes?_eq_some.mp hb)] at hstop
    cases hstop
  have hcomma : t.isSymbol .comma = false := by
    simp only [Token.isStop, Bool.or_eq_false_iff] at hstop
    exact hstop.1.1.1
  refine reads_iff.mpr (readsBy_peek_bind.mpr ⟨some t, rfl, ?_⟩)
  simp only [Option.bind_some, hclose, Option.map_none]
  refine readsBy_nextIf_bind.mpr (.inl ⟨Entry.Lacks.cons_ok.mpr hcomma, ?_⟩)
  exact ⟨e, vs, ⟨head, us, readsBy_operand.mpr ⟨t, rfl, ht⟩, he⟩, comma, ws, hend, l, es, hl, rfl, rfl⟩

end Rule

/-- Nothing that comes first continues an expression. -/
def Entry.Ends (es : List Entry) : Prop :=
  Entry.Lacks Token.isSuffix es ∧ Entry.Lacks (Token.isInfix BinaryOp.loosest) es

theorem Entry.ends_of_isStop {t : Token} {es : List Entry} (h : t.isStop = true) :
    Entry.Ends (.ok t :: es) :=
  ⟨Entry.Lacks.cons_ok.mpr (Token.isSuffix_of_isStop h),
    Entry.Lacks.cons_ok.mpr (Token.isInfix_of_isStop _ h)⟩

theorem Entry.Lacks.isInfix_mono {m n : Nat} {es : List Entry} (hmn : m ≤ n)
    (h : Entry.Lacks (Token.isInfix n) es) : Entry.Lacks (Token.isInfix m) es :=
  h.mono fun t ht => by
    obtain ⟨op, ho, hle⟩ := Token.isInfix_iff.mp ht
    exact Token.isInfix_iff.mpr ⟨op, ho, by omega⟩

namespace Phrase

open Parse Grammar

/-! ### Expressions -/

/-- Where `suffixes` goes on behind an operand, it does so from the first token of the operand. -/
def OperandRead (ts : List Token) (e : Expr Span) : Prop :=
  ∃ t rest head, ts = t :: rest ∧ t.head? = some head ∧
    ∀ us r vs, (Rule.suffixes e).Reads us r vs → (Rule.factor head).Reads (rest.map .ok ++ us) r vs

/-- From its first token on, a factor is read where no suffix follows. -/
def FactorRead (ts : List Token) (e : Expr Span) : Prop :=
  ∃ t rest head, ts = t :: rest ∧ t.head? = some head ∧
    ∀ us, Entry.Lacks Token.isSuffix us → (Rule.factor head).Reads (rest.map .ok ++ us) e us

/-- Where `climb` goes on behind a layer, it does so from the factor that the layer starts with. -/
def LayerRead (n : Nat) (ts : List Token) (e : Expr Span) : Prop :=
  ∃ t rest head, ts = t :: rest ∧ t.head? = some head ∧
    ∀ level us r vs, n ≤ level → Entry.Lacks Token.isSuffix us →
      Entry.Lacks (Token.isInfix (innerLevel n)) us → (Rule.climb level e).Reads us r vs →
      ∃ first ws, (Rule.factor head).Reads (rest.map .ok ++ us) first ws ∧
        (Rule.climb level first).Reads ws r vs

/-- The items of a list are read up to a closing bracket. -/
def ItemsRead (ts : List Token) (es : List (Expr Span)) (trailing : Bool) : Prop :=
  ∀ b opening c us, c.kind = .symbol b.closing →
    (Rule.items b opening false).Reads (ts.map .ok ++ .ok c :: us) ⟨es, trailing, opening.join c.span⟩ us

/-- Items are read up to what ends the last one and leaves no further item. -/
def SeqRead (ts : List Token) (es : List (Expr Span)) : Prop :=
  ∀ b opening trailing comma us vs l ws, (itemEnd b opening).ReadsBy Rule.Reads us comma vs →
    (Rule.items b opening comma).Reads vs l ws → l.items = [] →
    (Rule.items b opening trailing).Reads (ts.map .ok ++ us) { l with items := es } ws

theorem innerLevel_le (n : Nat) : innerLevel n ≤ n := by
  unfold innerLevel
  split <;> omega

theorem innerLevel_mono {m n : Nat} (h : m ≤ n) : innerLevel m ≤ innerLevel n := by
  unfold innerLevel
  split <;> split <;> omega

theorem layerRead_binary {m : Nat} {ls rs : List Token} {t : Token} {op : BinaryOp} {l r : Expr Span}
    (ht : t.kind.infixOp? = some op) (hl : LayerRead m ls l) (hm : m ≤ op.level)
    (hlt : innerLevel m < op.level) (hr : LayerRead (rightLevel op) rs r) :
    LayerRead op.level (ls ++ t :: rs) (.binary (l.note.join r.note) op l r) := by
  obtain ⟨f, rest, head, rfl, hf, hrest⟩ := hl
  obtain ⟨u, rest', head', rfl, hu, hrest'⟩ := hr
  refine ⟨f, rest ++ t :: u :: rest', head, rfl, hf, fun level us e vs hn hs hi he => ?_⟩
  rw [← rightLevel_eq] at hi
  -- the right operand stops where an operator of its level would have to follow
  obtain ⟨first, ws, hfirst, hright⟩ := hrest' (rightLevel op) us r us (Nat.le_refl _) hs
    (hi.isInfix_mono (innerLevel_le _)) (Rule.reads_climb_stop hi)
  have hstep := Rule.reads_climb_step ht hn hu hfirst hright he
  have hinfix : t.isInfix (innerLevel m) = false := by
    rw [Bool.eq_false_iff, Ne, Token.isInfix_iff]
    rintro ⟨op', ho, hle⟩
    rw [ht] at ho
    cases ho
    omega
  have := hrest level _ e vs (by omega) (Entry.Lacks.cons_ok.mpr (Token.isSuffix_of_infix ht))
    (Entry.Lacks.cons_ok.mpr hinfix) hstep
  simpa using this

theorem bracketed_tuple {es : List (Expr Span)} {trailing : Bool} {span : Span}
    (h : es.length ≠ 1 ∨ trailing = true) :
    bracketed .round ⟨es, trailing, span⟩ = .tuple span es := by
  match es, h with
  | [], _ => rfl
  | [e], .inr h => simp [bracketed, h]
  | _ :: _ :: _, _ => rfl

/-- What ends an item of a list does not continue an expression. -/
theorem ends_of_itemEnd {b : Bracket} {opening : Span} {comma : Bool} {us vs : List Entry}
    (h : (itemEnd b opening).ReadsBy Rule.Reads us comma vs) : Entry.Ends us := by
  obtain ⟨-, c, rfl, hc⟩ | ⟨-, -, t, ws, rfl, ht⟩ := readsBy_itemEnd.mp h
  · exact Entry.ends_of_isStop (Token.isStop_iff.mpr (.inl hc))
  · obtain ⟨b', hb⟩ := Option.isSome_iff_exists.mp ht
    exact Entry.ends_of_isStop (Token.isStop_of_closing (Token.closes?_eq_some.mp hb))

/-- From the first token on, a layer is read as an expression where nothing continues it. -/
theorem LayerRead.expressionFrom {ts : List Token} {e : Expr Span}
    (h : LayerRead BinaryOp.loosest ts e) : ∃ t rest head, ts = t :: rest ∧ t.head? = some head ∧
      ∀ us, Entry.Ends us → (expressionFrom head).ReadsBy Rule.Reads (rest.map .ok ++ us) e us := by
  obtain ⟨f, rest, head, rfl, hf, hrest⟩ := h
  refine ⟨f, rest, head, rfl, hf, fun us hends => ?_⟩
  exact hrest BinaryOp.loosest us e us (Nat.le_refl _) hends.1 hends.2
    (Rule.reads_climb_stop hends.2)

mutual

theorem Operand.reads : ∀ {ts : List Token} {e : Expr Span}, Operand spanOf ts e → OperandRead ts e
  | _, _, @Operand.name _ _ t text ht =>
      ⟨t, [], _, rfl, Token.head?_of_name ht, fun us r vs h => Rule.reads_iff.mpr h⟩
  | _, _, @Operand.number _ _ t text ht =>
      ⟨t, [], _, rfl, Token.head?_of_number ht, fun us r vs h => Rule.reads_iff.mpr h⟩
  | _, _, @Operand.string _ _ t value ht =>
      ⟨t, [], _, rfl, Token.head?_of_string ht, fun us r vs h => Rule.reads_iff.mpr h⟩
  | _, _, @Operand.group _ _ o c ts e ho h hc => by
      refine ⟨o, ts ++ [c], _, rfl, Token.head?_of_opening (b := .round) ho, fun us r vs hr => ?_⟩
      have hi := h.reads .round o.span c us hc
      refine Rule.reads_iff.mpr ⟨_, us, by simpa using hi, ?_⟩
      simpa [bracketed, spanOf_enclosed] using hr
  | _, _, @Operand.tuple _ _ o c ts es trailing ho h hc hne => by
      refine ⟨o, ts ++ [c], _, rfl, Token.head?_of_opening (b := .round) ho, fun us r vs hr => ?_⟩
      have hi := h.reads .round o.span c us hc
      refine Rule.reads_iff.mpr ⟨_, us, by simpa using hi, ?_⟩
      rw [spanOf_enclosed] at hr
      simp only [bracketed_tuple hne]
      exact hr
  | _, _, @Operand.list _ _ o c ts es trailing ho h hc => by
      refine ⟨o, ts ++ [c], _, rfl, Token.head?_of_opening (b := .square) ho, fun us r vs hr => ?_⟩
      have hi := h.reads .square o.span c us hc
      refine Rule.reads_iff.mpr ⟨_, us, by simpa using hi, ?_⟩
      simpa [bracketed, spanOf_enclosed] using hr
  | _, _, @Operand.suffix _ _ t ts e op h ht => by
      obtain ⟨f, rest, head, rfl, hf, hrest⟩ := h.reads
      refine ⟨f, rest ++ [t], head, rfl, hf, fun us r vs hr => ?_⟩
      rw [spanOf_append h.ne_nil (by simp), ← h.note_eq] at hr
      simpa using hrest _ r vs (Rule.reads_suffixes_op ht hr)
  | _, _, @Operand.call _ _ o c ts us callee args trailing h ho ha hc => by
      obtain ⟨f, rest, head, rfl, hf, hrest⟩ := h.reads
      refine ⟨f, rest ++ o :: (us ++ [c]), head, rfl, hf, fun vs r ws hr => ?_⟩
      rw [spanOf_append h.ne_nil (by simp), ← h.note_eq, spanOf_enclosed] at hr
      have := hrest _ r ws (Rule.reads_suffixes_call ho (ha.reads .round o.span c vs hc) hr)
      simpa using this
  | _, _, @Operand.index _ _ o c ts us base i trailing h ho hi hc => by
      obtain ⟨f, rest, head, rfl, hf, hrest⟩ := h.reads
      refine ⟨f, rest ++ o :: (us ++ [c]), head, rfl, hf, fun vs r ws hr => ?_⟩
      rw [spanOf_append h.ne_nil (by simp), ← h.note_eq, spanOf_enclosed] at hr
      have := hrest _ r ws (Rule.reads_suffixes_index ho (hi.reads .square o.span c vs hc) rfl hr)
      simpa using this

theorem Factor.reads : ∀ {ts : List Token} {e : Expr Span}, Factor spanOf ts e → FactorRead ts e
  | _, e, .operand h => by
      obtain ⟨f, rest, head, rfl, hf, hrest⟩ := h.reads
      exact ⟨f, rest, head, rfl, hf, fun us hl => hrest us e us (Rule.reads_suffixes_stop hl)⟩
  | _, _, @Factor.prefixed _ _ t ts e op ht h => by
      obtain ⟨f, rest, head, rfl, hf, hrest⟩ := h.reads
      refine ⟨t, f :: rest, _, rfl, Token.head?_of_prefix ht, fun us hl => ?_⟩
      rw [spanOf_cons t (by simp), ← h.note_eq]
      exact Rule.reads_iff.mpr ⟨head, _, readsBy_operand.mpr ⟨f, rfl, hf⟩, _, us, hrest us hl,
        Rule.reads_suffixes_stop hl⟩

theorem Layer.reads : ∀ {n : Nat} {ts : List Token} {e : Expr Span}, Layer spanOf n ts e →
    LayerRead n ts e
  | _, _, e, .factor h => by
      obtain ⟨f, rest, head, rfl, hf, hrest⟩ := h.reads
      exact ⟨f, rest, head, rfl, hf, fun level us r vs _ hl _ hr => ⟨e, us, hrest us hl, hr⟩⟩
  | _, _, _, @Layer.tighter _ _ n ts e h => by
      obtain ⟨f, rest, head, rfl, hf, hrest⟩ := h.reads
      refine ⟨f, rest, head, rfl, hf, fun level us r vs hn hl hi hr => ?_⟩
      exact hrest level us r vs (by omega) hl (hi.isInfix_mono (innerLevel_mono (Nat.le_succ n))) hr
  | _, _, _, @Layer.left _ _ n ls rs t op l r hn hl ht hop hr => by
      have hright : rightLevel op = n := by
        rw [rightLevel_eq, hop, innerLevel, if_neg (by omega)]
        rfl
      have hspan : spanOf (ls ++ t :: rs) = l.note.join r.note := by
        rw [spanOf_append_cons t hl.ne_nil hr.ne_nil, hl.note_eq, hr.note_eq]
      rw [hspan, ← hop]
      exact layerRead_binary ht hl.reads (by omega)
        (by rw [← hop, ← rightLevel_eq, hright, hop]; omega) (hright ▸ hr.reads)
  | _, _, _, @Layer.right _ _ n ls rs t op l r hn hl ht hop hr => by
      have hright : rightLevel op = n + 1 := by
        rw [rightLevel_eq, hop, innerLevel, if_pos hn]
      have hspan : spanOf (ls ++ t :: rs) = l.note.join r.note := by
        rw [spanOf_append_cons t hl.ne_nil hr.ne_nil, hl.note_eq, hr.note_eq]
      rw [hspan, ← hop]
      exact layerRead_binary ht hl.reads (by omega)
        (by rw [innerLevel, if_neg (by omega)]; omega) (hright ▸ hr.reads)

theorem Items.reads : ∀ {ts : List Token} {es : List (Expr Span)} {trailing : Bool},
    Items spanOf ts es trailing → ItemsRead ts es trailing
  | _, _, _, .none => fun b opening c us hc => Rule.reads_items_close hc
  | _, _, _, .plain h => by
      intro b opening c us hc
      have hclose : Token.isClosing c = true := by
        simp [Token.isClosing, Token.closes?_eq_some.mpr hc]
      exact h.reads b opening false false _ _ _ us
        (readsBy_itemEnd.mpr (.inr ⟨rfl, rfl, c, us, rfl, hclose⟩)) (Rule.reads_items_close hc) rfl
  | _, _, _, @Items.trailing _ _ k ts es h hk => by
      intro b opening c us hc
      have := h.reads b opening false true (.ok k :: .ok c :: us) _ _ us
        (readsBy_itemEnd.mpr (.inl ⟨rfl, k, rfl, hk⟩)) (Rule.reads_items_close hc) rfl
      simpa using this

theorem ItemSeq.reads : ∀ {ts : List Token} {es : List (Expr Span)}, ItemSeq spanOf ts es →
    SeqRead ts es
  | _, _, @ItemSeq.one _ _ ts e h => by
      intro b opening trailing comma us vs l ws hend hl hnil
      obtain ⟨f, rest, head, rfl, hf, hrest⟩ := h.reads.expressionFrom
      have := Rule.reads_items_step trailing hf (hrest us (ends_of_itemEnd hend)) hend hl
      rwa [hnil] at this
  | _, _, @ItemSeq.more _ _ ts ts' k e es h hk hs => by
      intro b opening trailing comma us vs l ws hend hl hnil
      obtain ⟨f, rest, head, rfl, hf, hrest⟩ := h.reads.expressionFrom
      have htail := hs.reads b opening true comma us vs l ws hend hl hnil
      have hcomma : (itemEnd b opening).ReadsBy Rule.Reads (.ok k :: (ts'.map .ok ++ us)) true
          (ts'.map .ok ++ us) := readsBy_itemEnd.mpr (.inl ⟨rfl, k, rfl, hk⟩)
      have := Rule.reads_items_step trailing hf (hrest _ (ends_of_itemEnd hcomma)) hcomma
        htail
      simpa using this

end

/-- Behind anything that asks for it, an expression is read where nothing continues it. -/
theorem Layer.wanted {ts : List Token} {e : Expr Span} (h : IsExpr spanOf ts e) (want : Want)
    {us : List Entry} (hends : Entry.Ends us) :
    (wanted want).ReadsBy Rule.Reads (ts.map .ok ++ us) e us := by
  obtain ⟨t, rest, head, rfl, ht, hrest⟩ := h.reads.expressionFrom
  exact ⟨head, _, readsBy_operand.mpr ⟨t, rfl, ht⟩, hrest us hends⟩

/-! ### Types -/

/-- A type is read where no bracket follows that could hold its arguments. -/
def TypeRead (ts : List Token) (t : TypeExpr Span) : Prop :=
  ∀ context keyword us, Entry.Lacks (Token.isSymbol .lbracket) us →
    (Rule.typeExpr context keyword).Reads (ts.map .ok ++ us) t us

/-- Types are read up to the closing bracket. -/
def TypeListRead (ts : List Token) (types : List (TypeExpr Span)) : Prop :=
  ∀ b context keyword c us, c.kind = .symbol b.closing →
    (typeList b context keyword).ReadsBy Rule.Reads (ts.map .ok ++ .ok c :: us) (types, c.span) us

/-- Types are read up to the closing bracket, one at least. -/
def TypeSeqRead (ts : List Token) (types : List (TypeExpr Span)) : Prop :=
  ∀ b context keyword c us, c.kind = .symbol b.closing →
    (Rule.types b context keyword).Reads (ts.map .ok ++ .ok c :: us) (types, c.span) us

theorem IsType.lacks_closing {ts : List Token} {t : TypeExpr Span} (h : IsType spanOf ts t)
    (b : Bracket) (us : List Entry) : Entry.Lacks (Token.isSymbol b.closing) (ts.map .ok ++ us) := by
  cases h with
  | named hn | applied hn _ _ _ =>
      obtain ⟨hk, -⟩ := Token.name?_eq_some hn
      simp [Entry.Lacks, Entry.front, Token.isSymbol, hk]
  | tuple ho _ _ => cases b <;> simp [Entry.Lacks, Entry.front, Token.isSymbol, ho, Bracket.closing]

theorem TypeSeq.lacks_closing {ts : List Token} {types : List (TypeExpr Span)}
    (h : TypeSeq spanOf ts types) (b : Bracket) (us : List Entry) :
    Entry.Lacks (Token.isSymbol b.closing) (ts.map .ok ++ us) := by
  cases h with
  | one h => exact h.lacks_closing b us
  | more h _ _ => simpa using h.lacks_closing b _

theorem lacks_lbracket_of_separator {b : Bracket} {c : Token} {us : List Entry}
    (hc : isSeparator b c = true) : Entry.Lacks (Token.isSymbol .lbracket) (.ok c :: us) := by
  rw [Entry.Lacks.cons_ok]
  obtain hc | hc := isSeparator_iff.mp hc
  · simp [Token.isSymbol, hc]
  · cases b <;> simp [Token.isSymbol, hc, Bracket.closing]

mutual

theorem IsType.reads : ∀ {ts : List Token} {t : TypeExpr Span}, IsType spanOf ts t → TypeRead ts t
  | _, _, @IsType.named _ _ n text hn => by
      intro context keyword us hus
      refine Rule.reads_iff.mpr (readsBy_next_bind_cons.mpr ?_)
      simp only [hn]
      exact readsBy_nextIf_bind.mpr (.inl ⟨hus, rfl, rfl⟩)
  | _, _, @IsType.applied _ _ n o c text ts args hn ho ht hc => by
      intro context keyword us _
      have hargs := ht.reads .square context keyword c us hc
      refine Rule.reads_iff.mpr (readsBy_next_bind_cons.mpr ?_)
      simp only [hn]
      refine readsBy_nextIf_bind.mpr (.inr ⟨o, _, rfl, Token.isSymbol_iff.mpr ho, (args, c.span), us,
        by simpa using hargs, ?_⟩)
      rw [← List.cons_append, spanOf_enclosed]
      exact ⟨rfl, rfl⟩
  | _, _, @IsType.tuple _ _ o c ts elems ho ht hc => by
      intro context keyword us _
      have helems := ht.reads .round context keyword c us hc
      refine Rule.reads_iff.mpr (readsBy_next_bind_cons.mpr ?_)
      have hname : o.kind.name? = none := by rw [ho]; rfl
      simp only [hname, Token.isSymbol_iff.mpr ho, if_true]
      refine ⟨(elems, c.span), us, by simpa using helems, ?_⟩
      rw [spanOf_enclosed]
      exact ⟨rfl, rfl⟩

theorem Types.reads : ∀ {ts : List Token} {types : List (TypeExpr Span)}, Types spanOf ts types →
    TypeListRead ts types
  | _, _, .none => fun _ _ _ c us hc =>
      readsBy_nextIf_bind.mpr (.inr ⟨c, us, rfl, Token.isSymbol_iff.mpr hc, rfl, rfl⟩)
  | _, _, .some h => fun b context keyword c us hc =>
      readsBy_nextIf_bind.mpr (.inl ⟨h.lacks_closing b _, h.reads b context keyword c us hc⟩)

theorem TypeSeq.reads : ∀ {ts : List Token} {types : List (TypeExpr Span)},
    TypeSeq spanOf ts types → TypeSeqRead ts types
  | _, _, @TypeSeq.one _ _ ts t h => by
      intro b context keyword c us hc
      have hsep : isSeparator b c = true := isSeparator_iff.mpr (.inr hc)
      have hcomma : c.isSymbol .comma = false := by
        cases b <;> simp [Token.isSymbol, hc, Bracket.closing]
      have ht := h.reads context keyword (.ok c :: us) (lacks_lbracket_of_separator hsep)
      refine Rule.reads_iff.mpr ⟨t, .ok c :: us, ht, c, us, readsBy_expect.mpr ⟨rfl, hsep⟩, ?_⟩
      simp only [hcomma]
      exact ⟨rfl, rfl⟩
  | _, _, @TypeSeq.more _ _ ts ts' k t types h hk hs => by
      intro b context keyword c us hc
      have hsep : isSeparator b k = true := isSeparator_iff.mpr (.inl hk)
      have ht := h.reads context keyword (.ok k :: (ts'.map .ok ++ .ok c :: us))
        (lacks_lbracket_of_separator hsep)
      refine Rule.reads_iff.mpr ⟨t, .ok k :: (ts'.map .ok ++ .ok c :: us), by simpa using ht, k, _,
        readsBy_expect.mpr ⟨rfl, hsep⟩, ?_⟩
      simp only [Token.isSymbol_iff.mpr hk, if_true]
      exact ⟨(types, c.span), us, hs.reads b context keyword c us hc, rfl, rfl⟩

end

/-- An annotation is read where nothing follows that it could begin or go on with. -/
theorem Annotation.reads {ts : List Token} {type : Option (TypeExpr Span)}
    (h : Annotation spanOf ts type) (context : Construct) (keyword : Span) (us : List Entry)
    (hcolon : Entry.Lacks (Token.isSymbol .colon) us)
    (hopen : Entry.Lacks (Token.isSymbol .lbracket) us) :
    ( annotation context keyword).ReadsBy Rule.Reads (ts.map .ok ++ us) type us := by
  cases h with
  | none => exact readsBy_nextIf_bind.mpr (.inl ⟨hcolon, rfl, rfl⟩)
  | @some c ts t hc ht =>
      exact readsBy_nextIf_bind.mpr (.inr ⟨c, _, rfl, Token.isSymbol_iff.mpr hc, t, us,
        ht.reads context keyword us hopen, rfl, rfl⟩)

/-! ### Statements -/

theorem Condition.reads {ts : List Token} {e : Expr Span} (h : Condition spanOf ts e)
    (context : Construct) (keyword : Span) (us : List Entry) :
    (condition context keyword).ReadsBy Rule.Reads (ts.map .ok ++ us) e us := by
  cases h with
  | @mk o c ts e ho h hc =>
      have hends : Entry.Ends (.ok c :: us) :=
        Entry.ends_of_isStop (Token.isStop_of_closing (b := .round) hc)
      have he := h.wanted (.construct context keyword) hends
      exact ⟨o, _, readsBy_symbol.mpr ⟨rfl, ho⟩, e, .ok c :: us, by simpa using he, c, us,
        readsBy_symbol.mpr ⟨rfl, hc⟩, rfl, rfl⟩

/-- From its first token on, a statement is read where no `else` follows that an `if` in it would take. -/
def StmtRead (ts : List Token) (s : Stmt Span) : Prop :=
  ∃ t rest, ts = t :: rest ∧ t.startsStmt = true ∧
    ∀ us, (s.endsInIf = true → Entry.Lacks (Token.isKeyword .elseWord) us) →
      (statementFrom t).ReadsBy Rule.Reads (rest.map .ok ++ us) s us

/-- Statements are read up to the closing brace. -/
def StmtsRead (ts : List Token) (stmts : List (Stmt Span)) : Prop :=
  ∀ opening c us, c.kind = .symbol .rbrace →
    Entry.Lacks (Token.isKeyword .elseWord) (ts.map .ok ++ .ok c :: us) ∧
      (Rule.block opening).Reads (ts.map .ok ++ .ok c :: us) (stmts, opening.join c.span) us

section
variable {ts : List Token} {s : Stmt Span} {us : List Entry}

theorem StmtRead.statement (h : StmtRead ts s)
    (hus : s.endsInIf = true → Entry.Lacks (Token.isKeyword .elseWord) us) :
    Rule.statement.Reads (ts.map .ok ++ us) (some s) us := by
  obtain ⟨t, rest, rfl, -, hrest⟩ := h
  exact Rule.reads_iff.mpr (readsBy_next_bind_cons.mpr ⟨s, us, hrest us hus, rfl, rfl⟩)

theorem StmtRead.governed (h : StmtRead ts s) (context : Construct) (keyword : Span) (us : List Entry)
    (hus : s.endsInIf = true → Entry.Lacks (Token.isKeyword .elseWord) us) :
    (governed context keyword).ReadsBy Rule.Reads (ts.map .ok ++ us) s us :=
  ⟨some s, us, h.statement hus, rfl, rfl⟩

theorem StmtRead.lacks (h : StmtRead ts s) {accept : Token → Bool}
    (ha : ∀ t : Token, t.startsStmt = true → accept t = false) :
    Entry.Lacks accept (ts.map .ok ++ us) := by
  obtain ⟨t, rest, rfl, ht, -⟩ := h
  exact Entry.Lacks.cons_ok.mpr (ha t ht)

end

theorem ends_of_semicolon (us : List Entry) {c : Token} (hc : c.kind = .symbol .semicolon) :
    Entry.Ends (.ok c :: us) :=
  Entry.ends_of_isStop (Token.isStop_iff.mpr (.inr (.inl hc)))

namespace StmtRead

variable {k c : Token} {ts cs : List Token} {cond : Expr Span} {s : Stmt Span}

theorem empty (hc : c.kind = .symbol .semicolon) : StmtRead [c] (.expr (spanOf [c]) none) := by
  refine ⟨c, [], rfl, Token.startsStmt_of_symbol hc (by decide), fun us _ => ?_⟩
  rw [statementFrom]
  simp only [hc, Token.Kind.keyword?, Token.isSymbol_iff.mpr hc, if_true]
  exact ⟨rfl, rfl⟩

theorem expr {e : Expr Span} (h : IsExpr spanOf ts e) (hc : c.kind = .symbol .semicolon) :
    StmtRead (ts ++ [c]) (.expr (spanOf (ts ++ [c])) (some e)) := by
  obtain ⟨t, rest, head, rfl, ht, hrest⟩ := h.reads.expressionFrom
  refine ⟨t, rest ++ [c], rfl, Token.startsStmt_of_head? ht, fun us _ => ?_⟩
  obtain ⟨hk, hsemi, hbrace⟩ := Token.plain_of_head? ht
  rw [statementFrom, spanOf_append h.ne_nil (by simp), ← h.note_eq]
  simp only [hk, hsemi, hbrace, ht, Bool.false_eq_true, if_false]
  refine ⟨e, .ok c :: us, by simpa using hrest _ (ends_of_semicolon us hc), ?_⟩
  refine readsBy_next_bind_cons.mpr ?_
  simp only [Token.isSymbol_iff.mpr hc, if_true]
  exact ⟨rfl, rfl⟩

theorem decl {n q : Token} {text : String} {us : List Token} {type : Option (TypeExpr Span)} {e : Expr Span}
    (hk : k.kind.keyword? = some .letWord) (hn : n.kind.name? = some text) (ht : Annotation spanOf ts type)
    (hq : q.kind = .symbol .eq) (he : IsExpr spanOf us e) (hc : c.kind = .symbol .semicolon) :
    StmtRead (k :: n :: (ts ++ q :: (us ++ [c])))
      (.decl (spanOf (k :: n :: (ts ++ q :: (us ++ [c])))) ⟨text, spanOf [n]⟩ type e) := by
  refine ⟨k, _, rfl, Token.startsStmt_of_keyword hk (by decide), fun vs _ => ?_⟩
  rw [statementFrom, show n :: (ts ++ q :: (us ++ [c])) = (n :: (ts ++ q :: us)) ++ [c] by simp,
    spanOf_enclosed]
  simp only [hk]
  have htype := ht.reads .letDeclaration k.span (.ok q :: (us.map .ok ++ .ok c :: vs))
    (by simp [Token.isSymbol, hq]) (by simp [Token.isSymbol, hq])
  have hvalue := he.wanted (.construct .letDeclaration k.span) (ends_of_semicolon vs hc)
  exact ⟨⟨text, n.span⟩, _, readsBy_name.mpr ⟨n, text, rfl, hn, rfl⟩, type, _,
    by simpa using htype, q, _, readsBy_symbol.mpr ⟨rfl, hq⟩, e, _, hvalue, c, vs,
    readsBy_symbol.mpr ⟨rfl, hc⟩, rfl, rfl⟩

theorem jump (context : Construct) {stmt : Span → Stmt Span} (hk : k.startsStmt = true)
    (hbody : statementFrom k = do
      let semi ← symbol context k.span .semicolon .semicolon
      return stmt (k.span.join semi.span))
    (hc : c.kind = .symbol .semicolon) : StmtRead [k, c] (stmt (spanOf [k, c])) := by
  refine ⟨k, [c], rfl, hk, fun us _ => ?_⟩
  rw [hbody]
  exact ⟨c, us, readsBy_symbol.mpr ⟨rfl, hc⟩, rfl, rfl⟩

theorem breakStmt (hk : k.kind.keyword? = some .breakWord) (hc : c.kind = .symbol .semicolon) :
    StmtRead [k, c] (.breakStmt (spanOf [k, c])) := by
  apply jump .breakStatement (Token.startsStmt_of_keyword hk (by decide)) _ hc
  simp only [statementFrom, hk]

theorem continueStmt (hk : k.kind.keyword? = some .continueWord) (hc : c.kind = .symbol .semicolon) :
    StmtRead [k, c] (.continueStmt (spanOf [k, c])) := by
  apply jump .continueStatement (Token.startsStmt_of_keyword hk (by decide)) _ hc
  simp only [statementFrom, hk]

theorem returnNone (hk : k.kind.keyword? = some .returnWord) (hc : c.kind = .symbol .semicolon) :
    StmtRead [k, c] (.returnStmt (spanOf [k, c]) none) := by
  refine ⟨k, [c], rfl, Token.startsStmt_of_keyword hk (by decide), fun us _ => ?_⟩
  rw [statementFrom]
  simp only [hk]
  exact readsBy_nextIf_bind.mpr (.inr ⟨c, us, rfl, Token.isSymbol_iff.mpr hc, rfl, rfl⟩)

theorem returnSome {e : Expr Span} (hk : k.kind.keyword? = some .returnWord) (he : IsExpr spanOf ts e)
    (hc : c.kind = .symbol .semicolon) :
    StmtRead (k :: (ts ++ [c])) (.returnStmt (spanOf (k :: (ts ++ [c]))) (some e)) := by
  refine ⟨k, _, rfl, Token.startsStmt_of_keyword hk (by decide), fun us _ => ?_⟩
  rw [statementFrom, spanOf_enclosed]
  simp only [hk]
  have hvalue := he.wanted (.construct .returnStatement k.span) (ends_of_semicolon us hc)
  have hsemi : Entry.Lacks (Token.isSymbol .semicolon) (ts.map .ok ++ .ok c :: us) := by
    obtain ⟨t, rest, head, rfl, ht, -⟩ := he.reads.expressionFrom
    exact Entry.Lacks.cons_ok.mpr (Token.plain_of_head? ht).2.1
  exact readsBy_nextIf_bind.mpr (.inl ⟨by simpa using hsemi, e, _, by simpa using hvalue, c, us,
    readsBy_symbol.mpr ⟨rfl, hc⟩, rfl, rfl⟩)

theorem block {o : Token} {stmts : List (Stmt Span)} (ho : o.kind = .symbol .lbrace)
    (hr : StmtsRead ts stmts) (hc : c.kind = .symbol .rbrace) :
    StmtRead (o :: (ts ++ [c])) (.block (spanOf (o :: (ts ++ [c]))) stmts) := by
  refine ⟨o, _, rfl, Token.startsStmt_of_symbol ho (by decide), fun us _ => ?_⟩
  have hsemi : o.isSymbol .semicolon = false := by simp [Token.isSymbol, ho]
  have hk : o.kind.keyword? = none := by rw [ho]; rfl
  rw [statementFrom, spanOf_enclosed]
  simp only [hk, hsemi, Token.isSymbol_iff.mpr ho, Bool.false_eq_true, if_false, if_true]
  have hblock := (hr o.span c us hc).2
  exact ⟨(stmts, o.span.join c.span), us, by simpa using hblock, rfl, rfl⟩

theorem whileStmt (hk : k.kind.keyword? = some .whileWord) (hc : Condition spanOf cs cond)
    (hs : IsStmt spanOf ts s) (hr : StmtRead ts s) :
    StmtRead (k :: (cs ++ ts)) (.whileStmt (spanOf (k :: (cs ++ ts))) cond s) := by
  refine ⟨k, _, rfl, Token.startsStmt_of_keyword hk (by decide), fun us hus => ?_⟩
  rw [statementFrom, spanOf_cons_append k hs.ne_nil, ← hs.note_eq]
  simp only [hk]
  simp only [Stmt.endsInIf] at hus
  have hcond := hc.reads .whileLoop k.span (ts.map .ok ++ us)
  have hbody := hr.governed .whileLoop k.span us hus
  rw [List.map_append, List.append_assoc]
  exact ⟨cond, _, hcond, s, us, hbody, rfl, rfl⟩

theorem ifThen (hk : k.kind.keyword? = some .ifWord) (hc : Condition spanOf cs cond)
    (hs : IsStmt spanOf ts s) (hr : StmtRead ts s) :
    StmtRead (k :: (cs ++ ts)) (.ifThen (spanOf (k :: (cs ++ ts))) cond s) := by
  refine ⟨k, _, rfl, Token.startsStmt_of_keyword hk (by decide), fun us hus => ?_⟩
  rw [statementFrom, spanOf_cons_append k hs.ne_nil, ← hs.note_eq]
  simp only [hk]
  simp only [Stmt.endsInIf, forall_const] at hus
  have hcond := hc.reads .ifStatement k.span (ts.map .ok ++ us)
  have hyes := hr.governed .ifStatement k.span us (fun _ => hus)
  rw [List.map_append, List.append_assoc]
  exact ⟨cond, _, hcond, s, us, hyes, readsBy_nextIf_bind.mpr (.inl ⟨hus, rfl, rfl⟩)⟩

/-- Behind the first statement stands its `else`, so no `if` at the end of it may be open. -/
theorem ifElse {l : Token} {us : List Token} {no : Stmt Span} (hk : k.kind.keyword? = some .ifWord)
    (hc : Condition spanOf cs cond) (hr : StmtRead ts s) (hclosed : s.endsInIf = false)
    (hl : l.kind.keyword? = some .elseWord) (hn : IsStmt spanOf us no) (hrn : StmtRead us no) :
    StmtRead (k :: (cs ++ (ts ++ l :: us))) (.ifElse (spanOf (k :: (cs ++ (ts ++ l :: us)))) cond s no) := by
  refine ⟨k, _, rfl, Token.startsStmt_of_keyword hk (by decide), fun vs hvs => ?_⟩
  have hspan : spanOf (k :: (cs ++ (ts ++ l :: us))) = k.span.join no.note := by
    rw [show cs ++ (ts ++ l :: us) = (cs ++ (ts ++ [l])) ++ us by simp,
      spanOf_cons_append k hn.ne_nil, hn.note_eq]
  rw [statementFrom, hspan]
  simp only [hk]
  simp only [Stmt.endsInIf] at hvs
  have hcond := hc.reads .ifStatement k.span (ts.map .ok ++ .ok l :: (us.map .ok ++ vs))
  have hyes := hr.governed .ifStatement k.span (.ok l :: (us.map .ok ++ vs))
    (fun h => by rw [hclosed] at h; cases h)
  exact ⟨cond, _, by simpa using hcond, s, _, hyes, readsBy_nextIf_bind.mpr (.inr
    ⟨l, _, rfl, Token.isKeyword_iff.mpr hl, no, vs, hrn.governed .ifStatement k.span vs hvs, rfl, rfl⟩)⟩

end StmtRead

mutual

theorem IsStmt.reads : ∀ {ts : List Token} {s : Stmt Span}, IsStmt spanOf ts s → StmtRead ts s
  | _, _, .empty hc => .empty hc
  | _, _, .expr h hc => .expr h hc
  | _, _, .decl hk hn ht hq he hc => .decl hk hn ht hq he hc
  | _, _, .breakStmt hk hc => .breakStmt hk hc
  | _, _, .continueStmt hk hc => .continueStmt hk hc
  | _, _, .returnNone hk hc => .returnNone hk hc
  | _, _, .returnSome hk he hc => .returnSome hk he hc
  | _, _, .block ho h hc => .block ho (Stmts.reads h) hc
  | _, _, .whileStmt hk hc hb => .whileStmt hk hc hb (IsStmt.reads hb)
  | _, _, .ifThen hk hc hy => .ifThen hk hc hy (IsStmt.reads hy)
  | _, _, .ifElse hk hc hy hclosed hl hn => .ifElse hk hc (IsStmt.reads hy) hclosed hl hn (IsStmt.reads hn)

theorem Stmts.reads : ∀ {ts : List Token} {stmts : List (Stmt Span)}, Stmts spanOf ts stmts →
    StmtsRead ts stmts
  | _, _, .nil => fun _ c us hc =>
      ⟨by simp [Token.isKeyword, hc, Token.Kind.keyword?], Rule.reads_iff.mpr
        (readsBy_nextIf_bind.mpr (.inr ⟨c, us, rfl, Token.isSymbol_iff.mpr hc, rfl, rfl⟩))⟩
  | _, _, @Stmts.cons _ _ ts ts' s stmts h hs => by
      intro opening c us hc
      obtain ⟨hfollow, hblock⟩ := hs.reads opening c us hc
      have hbrace : Entry.Lacks (Token.isSymbol .rbrace) (ts.map .ok ++ (ts'.map .ok ++ .ok c :: us)) :=
        h.reads.lacks fun t ht => Token.isSymbol_rbrace_of_startsStmt ht
      have helse : Entry.Lacks (Token.isKeyword .elseWord)
          (ts.map .ok ++ (ts'.map .ok ++ .ok c :: us)) :=
        h.reads.lacks fun t ht => (Token.isKeyword_of_startsStmt ht).1
      have hstmt := h.reads.statement fun _ => hfollow
      refine ⟨by simpa using helse, Rule.reads_iff.mpr (readsBy_nextIf_bind.mpr (.inl ⟨by simpa using hbrace, ?_⟩))⟩
      exact ⟨some s, _, by simpa using hstmt, (stmts, opening.join c.span), us, hblock, rfl, rfl⟩

end

/-! ### Definitions and items -/

/-- Parameters are read up to the closing bracket, one at least. -/
def ParamSeqRead (ts : List Token) (params : List (Param Span)) : Prop :=
  ∀ keyword c us, c.kind = .symbol .rparen →
    (Rule.params keyword).Reads (ts.map .ok ++ .ok c :: us) params us

theorem lacks_colon_of_separator {b : Bracket} {c : Token} {us : List Entry}
    (hc : isSeparator b c = true) : Entry.Lacks (Token.isSymbol .colon) (.ok c :: us) := by
  rw [Entry.Lacks.cons_ok]
  obtain hc | hc := isSeparator_iff.mp hc
  · simp [Token.isSymbol, hc]
  · cases b <;> simp [Token.isSymbol, hc, Bracket.closing]

/-- A parameter in front of a separator, and what is read behind it. -/
theorem IsParam.reads {ts : List Token} {p : Param Span} (h : IsParam spanOf ts p) (keyword : Span)
    {c : Token} {us vs : List Entry} {params : List (Param Span)}
    (hc : isSeparator .round c = true)
    (hr : (if c.isSymbol .comma then do return p :: (← call (.params keyword)) else return [p] :
      Parse Rule (List (Param Span))).ReadsBy Rule.Reads us params vs) :
    (Rule.params keyword).Reads (ts.map .ok ++ .ok c :: us) params vs := by
  cases h with
  | @mk n text ts type hn ht =>
      have hspan : spanOf (n :: ts) = (type.map fun t => n.span.join t.note).getD n.span := by
        cases ht with
        | none => rfl
        | @some k us t hk ht =>
            rw [show n :: k :: us = n :: ([k] ++ us) from rfl, spanOf_cons_append n ht.ne_nil,
              ← ht.note_eq]
            rfl
      rw [hspan] at hr
      have htype := ht.reads .definition keyword (.ok c :: us) (lacks_colon_of_separator hc)
        (lacks_lbracket_of_separator hc)
      exact Rule.reads_iff.mpr ⟨⟨text, n.span⟩, _, readsBy_name.mpr ⟨n, text, rfl, hn, rfl⟩, type, _,
        htype, c, us, readsBy_expect.mpr ⟨rfl, hc⟩, hr⟩

theorem ParamSeq.reads {ts : List Token} {params : List (Param Span)} (h : ParamSeq spanOf ts params) :
    ParamSeqRead ts params := by
  induction h with
  | one h =>
      intro keyword c us hc
      refine h.reads keyword (isSeparator_iff.mpr (.inr hc)) ?_
      rw [if_neg (by simp [hc])]
      exact ⟨rfl, rfl⟩
  | @more ts ts' k p params h hk hs ih =>
      intro keyword c us hc
      rw [List.map_append, List.append_assoc]
      refine h.reads keyword (isSeparator_iff.mpr (.inl hk)) ?_
      rw [if_pos (Token.isSymbol_iff.mpr hk)]
      exact ⟨params, us, ih keyword c us hc, rfl, rfl⟩

theorem ParamSeq.lacks_closing {ts : List Token} {params : List (Param Span)}
    (h : ParamSeq spanOf ts params) (us : List Entry) :
    Entry.Lacks (Token.isSymbol .rparen) (ts.map .ok ++ us) := by
  have first {ts : List Token} {p : Param Span} (h : IsParam spanOf ts p) (us : List Entry) :
      Entry.Lacks (Token.isSymbol .rparen) (ts.map .ok ++ us) := by
    cases h with
    | mk hn _ =>
        obtain ⟨hk, -⟩ := Token.name?_eq_some hn
        simp [Entry.Lacks, Entry.front, Token.isSymbol, hk]
  cases h with
  | one h => exact first h us
  | more h _ _ => simpa using first h _

theorem IsBody.reads {ts : List Token} {body : Body Span} (h : IsBody spanOf ts body) (keyword : Span)
    (us : List Entry) : ∃ stop : Span, stop.stop = (spanOf ts).stop ∧
      (definitionBody keyword).ReadsBy Rule.Reads (ts.map .ok ++ us) (body, stop) us := by
  cases h with
  | @value q c ts e hq he hc =>
      have hvalue := he.wanted (.construct .definition keyword) (ends_of_semicolon us hc)
      refine ⟨c.span, by rw [spanOf_enclosed]; rfl, readsBy_next_bind_cons.mpr ?_⟩
      simp only [Token.isSymbol_iff.mpr hq, if_true]
      exact ⟨e, _, by simpa using hvalue, c, us, readsBy_symbol.mpr ⟨rfl, hc⟩, rfl, rfl⟩
  | @block o c ts stmts ho hs hc =>
      have hblock := (hs.reads o.span c us hc).2
      have heq : o.isSymbol .eq = false := by simp [Token.isSymbol, ho]
      refine ⟨o.span.join c.span, by rw [spanOf_enclosed], readsBy_next_bind_cons.mpr ?_⟩
      simp only [heq, Token.isSymbol_iff.mpr ho, Bool.false_eq_true, if_false, if_true]
      exact ⟨(stmts, o.span.join c.span), us, by simpa using hblock, rfl, rfl⟩

theorem IsBody.lacks {ts : List Token} {body : Body Span} (h : IsBody spanOf ts body) {s : Symbol}
    (hs : s ≠ .eq ∧ s ≠ .lbrace) (us : List Entry) :
    Entry.Lacks (Token.isSymbol s) (ts.map .ok ++ us) := by
  cases h with
  | value hq _ _ => simp [Entry.Lacks, Entry.front, Token.isSymbol, hq, hs.1.symm]
  | block ho _ _ => simp [Entry.Lacks, Entry.front, Token.isSymbol, ho, hs.2.symm]

theorem IsDefinition.reads {ts : List Token} {d : Definition Span} (h : IsDefinition spanOf ts d)
    (us : List Entry) : ∃ k rest, ts = k :: rest ∧ k.isKeyword .defWord = true ∧
      (definition k.span).ReadsBy Rule.Reads (rest.map .ok ++ us) d us := by
  cases h with
  | @mk k n o c text ps rs bs params result body hk hn ho hp hc hr hb =>
      refine ⟨k, _, rfl, Token.isKeyword_iff.mpr hk, ?_⟩
      obtain ⟨stop, hstop, hbody⟩ := hb.reads k.span us
      have hspan : spanOf (k :: n :: o :: (ps ++ c :: (rs ++ bs))) = k.span.join stop := by
        rw [show n :: o :: (ps ++ c :: (rs ++ bs)) = (n :: o :: (ps ++ c :: rs)) ++ bs by simp,
          spanOf_cons_append k hb.ne_nil, Span.join, ← hstop]
        rfl
      have hresult := hr.reads .definition k.span _ (hb.lacks (s := .colon) (by decide) us)
        (hb.lacks (s := .lbracket) (by decide) us)
      rw [hspan]
      simp only [List.map_cons, List.map_append, List.cons_append, List.append_assoc]
      refine ⟨⟨text, n.span⟩, _, readsBy_name.mpr ⟨n, text, rfl, hn, rfl⟩, o, _,
        readsBy_symbol.mpr ⟨rfl, ho⟩, params, rs.map .ok ++ (bs.map .ok ++ us), ?_, result, _, hresult,
        (body, stop), us, hbody, rfl, rfl⟩
      cases hp with
      | none =>
          exact readsBy_nextIf_bind.mpr (.inr ⟨c, _, rfl, Token.isSymbol_iff.mpr hc, rfl, rfl⟩)
      | some hp =>
          exact readsBy_nextIf_bind.mpr (.inl ⟨hp.lacks_closing _, hp.reads k.span c _ hc⟩)

/-- An item is read where no `else` follows that an `if` in it would take. -/
theorem IsItem.reads {ts : List Token} {i : Item Span} (h : IsItem spanOf ts i) {us : List Entry}
    (hus : i.endsInIf = true → Entry.Lacks (Token.isKeyword .elseWord) us) :
    outcome item (ts.map .ok ++ us) = .ok (some i) us := by
  rw [outcome_eq_ok_iff]
  cases h with
  | @stmt s h =>
      have hdef : Entry.Lacks (Token.isKeyword .defWord) (ts.map .ok ++ us) :=
        h.reads.lacks fun t ht => (Token.isKeyword_of_startsStmt ht).2
      exact readsBy_nextIf_bind.mpr (.inl ⟨hdef, some s, us, h.reads.statement hus, rfl, rfl⟩)
  | @definition d h =>
      obtain ⟨k, rest, rfl, hk, hd⟩ := h.reads us
      exact readsBy_nextIf_bind.mpr (.inr ⟨k, _, rfl, hk, d, us, hd, rfl, rfl⟩)

end Phrase

end SoundLang
