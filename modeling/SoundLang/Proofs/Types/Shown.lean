import Mathlib.Data.List.Chain
import SoundLang.Proofs.Parse.Spans
import SoundLang.Proofs.Types.Written

/-! # Shown types as annotations

A type without functions that is shown where a declaration has its annotation is read and lowered to the id it was
shown for, but for tuples of one element: they are shown with a comma behind the element, which no annotation can have
(`Interner.Reachable.shown_in_declaration`). -/

namespace SoundLang

open Phrase

/-- Nowhere in the list, nor where it is put between others, does a comma stand before a closing parenthesis. -/
structure Token.Kind.Tidy (ks : List Token.Kind) : Prop where
  head : .symbol .rparen ∉ ks.head?
  last : .symbol .comma ∉ ks.getLast?
  chain : ks.IsChain fun a b => a = .symbol .comma → b ≠ .symbol .rparen

namespace Token.Kind.Tidy

variable {ks ls : List Token.Kind} {k l : Token.Kind}

theorem nil : Tidy [] where
  head := by simp
  last := by simp
  chain := by simp

theorem cons (h : Tidy ks) (hr : k ≠ .symbol .rparen) (hc : k ≠ .symbol .comma) :
    Tidy (k :: ks) where
  head := by simpa using hr
  last := by
    rw [List.getLast?_cons]
    cases hl : ks.getLast? with
    | none => simpa using hc
    | some l => simpa [hl] using h.last
  chain := List.isChain_cons.mpr ⟨fun _ _ h => absurd h hc, h.chain⟩

theorem concat (h : Tidy ks) (hne : ks ≠ []) (hc : l ≠ .symbol .comma) :
    Tidy (ks ++ [l]) where
  head := by
    rw [List.head?_append_of_ne_nil _ hne]
    exact h.head
  last := by simpa using hc
  chain := List.isChain_append.mpr ⟨h.chain, List.isChain_singleton l, fun a ha _ _ h' =>
    absurd (h' ▸ ha) h.last⟩

theorem append_comma (h : Tidy ks) (hne : ks ≠ []) (hs : Tidy ls) (hne' : ls ≠ []) :
    Tidy (ks ++ .symbol .comma :: ls) where
  head := by
    rw [List.head?_append_of_ne_nil _ hne]
    exact h.head
  last := by
    rw [List.getLast?_append_of_ne_nil _ (by simp), List.getLast?_cons_of_ne_nil hne']
    exact hs.last
  chain := by
    refine List.isChain_append.mpr ⟨h.chain, List.isChain_cons.mpr ⟨fun b hb _ hr => ?_, hs.chain⟩,
      fun a ha _ _ h' => absurd (h' ▸ ha) h.last⟩
    exact hs.head (hr ▸ hb)

end Token.Kind.Tidy

theorem Phrase.TypeSeq.ne_nil {ts : List Token} {types : List (TypeExpr Span)} (h : TypeSeq spanOf ts types) :
    ts ≠ [] := by
  cases h with
  | one h => exact h.ne_nil
  | more h _ _ => simp [h.ne_nil]

/-! ### Annotations are tidy -/

section
open Token.Kind

mutual

theorem Phrase.IsType.tidy : ∀ {ts : List Token} {type : TypeExpr Span}, IsType spanOf ts type →
    Tidy (ts.map (·.kind))
  | _, _, .named hn => by
      have hword := (Token.name?_eq_some hn).1
      exact Tidy.nil.cons (by simp [hword]) (by simp [hword])
  | _, _, @IsType.applied _ _ n o c text ts args hn ho ht hc => by
      have hword := (Token.name?_eq_some hn).1
      have hinner : Tidy (n.kind :: o.kind :: ts.map (·.kind)) :=
        (ht.tidy.cons (by simp [ho]) (by simp [ho])).cons (by simp [hword]) (by simp [hword])
      simpa using hinner.concat (l := c.kind) (by simp) (by simp [hc])
  | _, _, @IsType.tuple _ _ o c ts elems ho ht hc => by
      have hinner : Tidy (o.kind :: ts.map (·.kind)) :=
        ht.tidy.cons (by simp [ho]) (by simp [ho])
      simpa using hinner.concat (l := c.kind) (by simp) (by simp [hc])

theorem Phrase.Types.tidy : ∀ {ts : List Token} {types : List (TypeExpr Span)}, Types spanOf ts types →
    Tidy (ts.map (·.kind))
  | _, _, .none => Tidy.nil
  | _, _, .some h => h.tidy

theorem Phrase.TypeSeq.tidy : ∀ {ts : List Token} {types : List (TypeExpr Span)}, TypeSeq spanOf ts types →
    Tidy (ts.map (·.kind))
  | _, _, .one h => h.tidy
  | _, _, @TypeSeq.more _ _ ts us c t types h hc hs => by
      simpa [hc] using h.tidy.append_comma (by simp [h.ne_nil]) hs.tidy (by simp [hs.ne_nil])

end

end

namespace Ty

/-! ### Tuples of one element are not -/

mutual

theorem Written.not_tidy {t : Ty} {ks : List Token.Kind} (h : Written t ks) (hsingle : t.hasSingle = true) :
    ¬ ks.IsChain fun a b => a = .symbol .comma → b ≠ .symbol .rparen := by
  intro hchain
  cases h with
  | primitive p => cases hsingle
  | @sound t ks h =>
      exact h.not_tidy hsingle hchain.tail.tail.left_of_append
  | unit => cases hsingle
  | @single t ks h =>
      -- the comma behind the element stands before the closing parenthesis
      rw [← List.cons_append] at hchain
      exact (List.isChain_append_cons_cons.mp hchain).2.1 rfl rfl
  | @tuple t u ts ks h =>
      exact h.not_tidy hsingle hchain.tail.left_of_append

theorem WrittenSeq.not_tidy {ts : List Ty} {ks : List Token.Kind} (h : WrittenSeq ts ks)
    (hsingle : hasSingleAny ts = true) : ¬ ks.IsChain fun a b => a = .symbol .comma → b ≠ .symbol .rparen := by
  intro hchain
  cases h with
  | one h => exact h.not_tidy (by simpa [hasSingleAny] using hsingle) hchain
  | @more t u ts ks ls h hs =>
      rw [hasSingleAny, Bool.or_eq_true] at hsingle
      obtain hsingle | hsingle := hsingle
      · exact h.not_tidy hsingle hchain.left_of_append
      · exact hs.not_tidy hsingle hchain.right_of_append.tail

end

/-! ### No type is written with an equals sign -/

mutual

theorem Written.eq_notMem {t : Ty} {ks : List Token.Kind} (h : Written t ks) : .symbol .eq ∉ ks := by
  cases h with
  | primitive p => simp
  | sound h => simpa using h.eq_notMem
  | unit => simp
  | single h => simpa using h.eq_notMem
  | tuple h => simpa using h.eq_notMem

theorem WrittenSeq.eq_notMem {ts : List Ty} {ks : List Token.Kind} (h : WrittenSeq ts ks) : .symbol .eq ∉ ks := by
  cases h with
  | one h => exact h.eq_notMem
  | more h hs => simpa using ⟨h.eq_notMem, hs.eq_notMem⟩

end

end Ty

/-! ### Declarations -/

theorem Phrase.Factor.isExpr {ts : List Token} {e : Expr Span} (h : Factor spanOf ts e) : IsExpr spanOf ts e := by
  have hlayer (n : Nat) : Layer spanOf n ts e := by
    induction n with
    | zero => exact .factor h
    | succ n ih => exact .tighter ih
  exact hlayer _

/-- A statement whose first token is the word `let` is a declaration. -/
theorem Phrase.IsStmt.annotation_of_let {k : Token} {ts : List Token} {s : Stmt Span}
    (h : IsStmt spanOf (k :: ts) s) (hk : k.kind = .word "let") :
    ∃ n us type q vs, ts = n :: (us ++ q :: vs) ∧ Annotation spanOf us type ∧ q.kind = .symbol .eq := by
  have hlet : k.kind.keyword? = some .letWord := by rw [hk]; rfl
  generalize hts : k :: ts = ws at h
  cases h with
  | @decl _ n q c _ us vs _ _ _ _ ht hq _ _ =>
      obtain ⟨rfl, rfl⟩ := List.cons.inj hts
      exact ⟨n, us, _, q, vs ++ [c], rfl, ht, hq⟩
  | expr he _ =>
      obtain ⟨t, rest, head, rfl, hhead, -⟩ := he.reads.expressionFrom
      obtain ⟨rfl, -⟩ := List.cons.inj hts
      rw [(Token.plain_of_head? hhead).1] at hlet
      cases hlet
  | empty h | block h =>
      obtain ⟨rfl, -⟩ := List.cons.inj hts
      rw [h] at hk
      cases hk
  | breakStmt h | continueStmt h | returnNone h | returnSome h | whileStmt h | ifThen h | ifElse h =>
      obtain ⟨rfl, -⟩ := List.cons.inj hts
      rw [h] at hlet
      cases hlet

namespace Ty

variable {t : Ty} {ks : List Token.Kind}

/-- The kinds of the tokens of a declaration with an annotation. -/
def declared (ks : List Token.Kind) : List Token.Kind :=
  .word "let" :: .word "x" :: .symbol .colon :: (ks ++ [.symbol .eq, .number "0", .symbol .semicolon])

theorem Written.spells_declaration (h : Written t ks) :
    Lexer.SpellsAll ("let x: " ++ t.render ++ " = 0;").toList (declared ks) := by
  -- from the end, since each token is the longest match only with what stands behind it
  have hend : Lexer.SpellsAll [';'] [.symbol .semicolon] := Lexer.spellsAll_nil.separator (by decide) rfl
  have hzero : Lexeme.longest? ['0', ';'] = some ⟨['0'], .number⟩ := by decide
  have hsign : Lexeme.longest? ['=', ' ', '0', ';'] = some ⟨['='], .symbol .eq⟩ := by decide
  have hvalue : Lexer.SpellsAll ['0', ';'] [.number "0", .symbol .semicolon] :=
    Lexer.SpellsAll.token (w := []) hzero (fun _ => rfl) rfl (by decide) (by decide) hend
  have heq : Lexer.SpellsAll ['=', ' ', '0', ';'] [.symbol .eq, .number "0", .symbol .semicolon] :=
    Lexer.SpellsAll.token (w := []) hsign (fun _ => rfl) rfl (by decide) (by decide)
      hvalue.blank
  have htype := (h.spells (fun d hd => by cases hd; rfl) heq.blank).blank
  have hcolon : Lexer.SpellsAll (':' :: _) (.symbol .colon :: _) := htype.separator (by decide) rfl
  have hname := hcolon.word (w := "x") (by decide) fun d hd => by cases hd; rfl
  have hlet := hname.blank.word (w := "let") (by decide) fun d hd => by cases hd; rfl
  simpa [declared] using hlet

/-- Without a tuple of one element the declaration is a sentence. -/
theorem Written.sentence (h : Written t ks) (hsingle : t.hasSingle = false) {ts : List Token}
    (hts : ts.map (·.kind) = declared ks) : ∃ span name value type, Denotes type t ∧
      Sentence spanOf ts [.stmt (.decl span ⟨"x", name⟩ (some type) (.number value "0"))] := by
  obtain ⟨k, ts, rfl, hk, hts⟩ := List.map_eq_cons_iff.mp hts
  obtain ⟨n, ts, rfl, hn, hts⟩ := List.map_eq_cons_iff.mp hts
  obtain ⟨c, ts, rfl, hc, hts⟩ := List.map_eq_cons_iff.mp hts
  obtain ⟨us, vs, rfl, rfl, hvs⟩ := List.map_eq_append_iff.mp hts
  obtain ⟨q, vs, rfl, hq, hvs⟩ := List.map_eq_cons_iff.mp hvs
  obtain ⟨v, vs, rfl, hv, hvs⟩ := List.map_eq_cons_iff.mp hvs
  obtain ⟨e, vs, rfl, he, hvs⟩ := List.map_eq_cons_iff.mp hvs
  obtain rfl := List.map_eq_nil_iff.mp hvs
  obtain ⟨type, htype, hd⟩ := h.isType hsingle
  have hlet : k.kind.keyword? = some .letWord := by rw [hk]; rfl
  have hname : n.kind.name? = some "x" := by rw [hn]; rfl
  have hvalue : IsExpr spanOf [v] (.number (spanOf [v]) "0") := Factor.isExpr (.operand (.number hv))
  have hs := Sentence.cons (.stmt (.decl hlet hname (.some hc htype) hq hvalue he)) .nil
  simp only [List.cons_append, List.nil_append, List.append_nil] at hs
  exact ⟨_, _, _, type, hd, hs⟩

/-- With a tuple of one element it is none. -/
theorem Written.not_sentence (h : Written t ks) (hsingle : t.hasSingle = true) {ts : List Token}
    (hts : ts.map (·.kind) = declared ks) {items : List (Item Span)} : ¬ Sentence spanOf ts items := by
  intro hs
  cases hs with
  | nil => cases hts
  | @cons xs ys i items hi hs =>
      obtain ⟨k, xs, rfl⟩ := List.exists_cons_of_ne_nil hi.ne_nil
      obtain ⟨hk, hts⟩ := List.cons.inj (show k.kind :: ((xs ++ ys).map (·.kind)) = _ from hts)
      cases hi with
      | definition hd =>
          cases hd with
          | mk hdef _ _ _ _ _ _ =>
              rw [hk] at hdef
              cases hdef
      | stmt h' =>
          obtain ⟨n, us, type, q, vs, rfl, ht, hq⟩ := h'.annotation_of_let hk
          simp only [List.cons_append, List.append_assoc, List.map_cons, List.map_append, List.cons.injEq, hq] at hts
          cases ht with
          | none => simp at hts
          | @some c us type hc ht =>
              -- both annotations go up to the equals sign
              have hrest := (List.cons.inj hts.2).2
              have hks := ((List.append_cons_inj_of_notMem h.eq_notMem (by simp)).mp hrest.symm).1
              exact h.not_tidy hsingle (hks ▸ ht.tidy.chain)

end Ty

/-- A type without functions, shown as the annotation of a declaration.  If no tuple of one element is in it, the
declaration is read without an error and its annotation is lowered to the id, with nothing stored.  Otherwise it is
not read. -/
theorem Interner.Reachable.shown_in_declaration {t : Interner} (h : t.Reachable) {id : TypeId} {ty : Ty}
    (hty : t.expand? id = some ty) (hfree : ty.functionFree = true) :
    t.render? id = some ty.render ∧
    (ty.hasSingle = false →
      (Program.parse ("let x: " ++ ty.render ++ " = 0;")).error = none ∧
      ∃ span name value type, (Lowering.type type).run.run t = (.ok id, t) ∧
        (Program.parse ("let x: " ++ ty.render ++ " = 0;")).items =
          [.stmt (.decl span ⟨"x", name⟩ (some type) (.number value "0"))]) ∧
    (ty.hasSingle = true → (Program.parse ("let x: " ++ ty.render ++ " = 0;")).error ≠ none) := by
  obtain ⟨ks, hks⟩ := Ty.written_of_functionFree ty hfree
  have hlast : ("let x: " ++ ty.render ++ " = 0;").toList.getLast? ≠ some '\r' := by
    rw [String.toList_append, List.getLast?_append_of_ne_nil _ (by decide)]
    decide
  obtain ⟨ts, hts, hrest⟩ := hks.spells_declaration.rest_fresh hlast
  have hlen : ts.length < TokenSource.pending (ts.map .ok : List SoundLang.Entry) := by simp [TokenSource.pending]
  rw [Program.error_eq, Program.items_eq, hrest, Grammar.readAll]
  refine ⟨by rw [Interner.render?, hty, Option.map_some], fun hsingle => ?_, fun hsingle herror => ?_⟩
  · obtain ⟨span, name, value, type, hd, hs⟩ := hks.sentence hsingle hts
    rw [Grammar.readItems_complete hs hlen]
    exact ⟨rfl, span, name, value, type, hd.run_type h.lawful hty, rfl⟩
  · have hlen' : (ts.map .ok : List SoundLang.Entry).length <
        TokenSource.pending (ts.map .ok : List SoundLang.Entry) := by
      simpa using hlen
    obtain ⟨ts', us, hes, hs, hend⟩ := Grammar.readItems_sound hlen'
    -- without an error all tokens have been read, and they are no sentence
    obtain ⟨rfl, -⟩ := hend herror
    rw [List.append_nil] at hes
    obtain rfl := (List.map_inj_right fun _ _ h => Except.ok.inj h).mp hes
    exact hks.not_sentence hsingle hts hs

namespace Interner

/-- The tuple of an `int` and a `bool`. -/
theorem pair_in_declaration :
    (initial.after [.intern (.tuple [Primitive.integer.id, Primitive.boolean.id])]).render? (.ofParts .tuple 1) =
      some (Ty.tuple [.primitive .integer, .primitive .boolean]).render ∧
    (Program.parse ("let x: " ++ (Ty.tuple [.primitive .integer, .primitive .boolean]).render ++ " = 0;")).error =
      none := by
  have hty : (initial.after [.intern (.tuple [Primitive.integer.id, Primitive.boolean.id])]).expand?
      (.ofParts .tuple 1) = some (.tuple [.primitive .integer, .primitive .boolean]) := rfl
  obtain ⟨hrender, hread, -⟩ := Reachable.shown_in_declaration ⟨_, rfl⟩ hty rfl
  exact ⟨hrender, (hread rfl).1⟩

/-- The tuple of one `float` is shown as `(float,)`, which is no annotation. -/
theorem single_not_in_declaration :
    (initial.after [.intern (.tuple [Primitive.float.id])]).get? (.ofParts .tuple 1) =
      some (.tuple [Primitive.float.id]) ∧
    (initial.after [.intern (.tuple [Primitive.float.id])]).render? (.ofParts .tuple 1) = some "(float,)" ∧
    (Program.parse "let x: (float,) = 0;").error =
      some (.unexpected .letDeclaration (.onLine 0 0 3) .typeExpr ⟨.symbol .rparen, .onLine 0 14 15⟩) :=
  ⟨by decide, by decide +kernel, by decide +kernel⟩

end Interner

end SoundLang
