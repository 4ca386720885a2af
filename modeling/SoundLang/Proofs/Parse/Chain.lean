import Mathlib.Data.List.MinMax
import SoundLang.Proofs.Parse.Sentence

/-! # Chains of operators

A chain is a sequence of factors with binary operators between them.  Its tree can be told without any climbing:
split the chain at one operator, and do the same with both sides (`Chain.tree`).  A chain with an assignment is split
at the first one, any other at the last of its operators of the greatest level (`Chain.pivot`).

This is the layered grammar read from the outside in (`Phrase.Chain.layer`): what stands before the pivot is a phrase of
the pivot's layer and what stands behind it one of a tighter layer, or the other way round at an assignment.  So
climbing reads a chain to its end and gives this tree (`Grammar.read_chain`). -/

namespace SoundLang

namespace Phrase

/-! ### The tree of a chain -/

namespace Chain

variable {α : Type}

/-- The place of the operator at which a chain is split: the first assignment, or else the last operator of the
greatest level. -/
def pivot (links : List (BinaryOp × α)) : Nat :=
  if links.any (·.1.isRightAssoc) then links.findIdx (·.1.isRightAssoc)
  else links.length - 1 - links.reverse.findIdx fun l => links.all (·.1.level ≤ l.1.level)

/-- The tree of a chain, from its first factor and the other factors behind their operators. -/
def tree (first : Expr Unit) (links : List (BinaryOp × Expr Unit)) : Expr Unit :=
  match _h : links.drop (pivot links) with
  | [] => first
  | (op, next) :: later => .binary () op (tree first (links.take (pivot links))) (tree next later)
termination_by links.length
decreasing_by
  all_goals
    have := congrArg List.length _h
    simp only [List.length_drop, List.length_cons, List.length_take] at this ⊢
    omega

theorem findIdx_of_any {β : Type} {p : β → Bool} {xs : List β} (h : xs.any p = true) :
    ∃ before x after, xs = before ++ x :: after ∧ xs.findIdx p = before.length ∧ p x = true ∧
      ∀ y ∈ before, p y = false := by
  induction xs with
  | nil => simp at h
  | cons x xs ih =>
      cases hx : p x with
      | true => exact ⟨[], x, xs, rfl, by simp [List.findIdx_cons, hx], hx, by simp⟩
      | false =>
          obtain ⟨before, y, after, rfl, hidx, hy, hbefore⟩ := ih (by simpa [hx] using h)
          exact ⟨x :: before, y, after, rfl, by simpa [List.findIdx_cons, hx] using hidx, hy,
            by simpa [hx] using hbefore⟩

/-- What stands before and behind the pivot. -/
theorem pivot_spec {links : List (BinaryOp × α)} (h : links ≠ []) :
    ∃ earlier l later, links = earlier ++ l :: later ∧ pivot links = earlier.length ∧
      ((l.1.isRightAssoc = true ∧ ∀ a ∈ earlier, a.1.isRightAssoc = false) ∨
        (l.1.isRightAssoc = false ∧ (∀ a ∈ earlier, a.1.level ≤ l.1.level) ∧ ∀ a ∈ later, a.1.level < l.1.level)) := by
  unfold pivot
  cases hany : links.any (·.1.isRightAssoc) with
  | true =>
      obtain ⟨earlier, l, later, rfl, hidx, hl, hearlier⟩ := findIdx_of_any hany
      exact ⟨earlier, l, later, rfl, hidx, .inl ⟨hl, hearlier⟩⟩
  | false =>
      have hnone : ∀ a ∈ links, a.1.isRightAssoc = false := by simpa using hany
      obtain ⟨m, hm⟩ : ∃ m, m ∈ links.argmax fun a => a.1.level :=
        Option.ne_none_iff_exists'.mp (by simpa [List.argmax_eq_none] using h)
      have hmax : links.reverse.any (fun l => links.all (·.1.level ≤ l.1.level)) = true := by
        refine List.any_eq_true.mpr ⟨m, List.mem_reverse.mpr (List.argmax_mem hm), List.all_eq_true.mpr fun a ha => ?_⟩
        exact decide_eq_true (List.le_of_mem_argmax (f := fun a => a.1.level) ha hm)
      obtain ⟨behind, l, before, hrev, hidx, hl, hbehind⟩ := findIdx_of_any hmax
      have hlinks : links = before.reverse ++ l :: behind.reverse := by
        rw [← List.reverse_reverse links, hrev]
        simp
      have hl' : ∀ a ∈ links, a.1.level ≤ l.1.level := by simpa using hl
      refine ⟨before.reverse, l, behind.reverse, hlinks, ?_, .inr ⟨?_, fun a ha => ?_, fun a ha => ?_⟩⟩
      · have := congrArg List.length hrev
        simp only [List.length_reverse, List.length_append, List.length_cons] at this
        simp only [hidx, Bool.false_eq_true, if_false, List.length_reverse]
        omega
      · exact hnone l (by simp [hlinks])
      · exact hl' a (by simp_all)
      · -- an operator behind the last one of the greatest level is below some level
        obtain ⟨b, hb, hlt⟩ : ∃ b ∈ links, a.1.level < b.1.level := by
          simpa using hbehind a (List.mem_reverse.mp ha)
        exact Nat.lt_of_lt_of_le hlt (hl' b hb)

@[simp] theorem tree_nil (first : Expr Unit) : tree first [] = first := by
  rw [tree]
  rfl

/-- The tree of a chain is the operator at the pivot between the trees of both sides. -/
theorem tree_eq {first : Expr Unit} {earlier later : List (BinaryOp × Expr Unit)} {op : BinaryOp} {next : Expr Unit}
    (h : pivot (earlier ++ (op, next) :: later) = earlier.length) :
    tree first (earlier ++ (op, next) :: later) = .binary () op (tree first earlier) (tree next later) := by
  rw [tree]
  split
  · next hdrop => simp [h] at hdrop
  · next op' next' later' hdrop =>
      simp only [h, List.drop_left, List.cons.injEq, Prod.mk.injEq] at hdrop
      obtain ⟨⟨rfl, rfl⟩, rfl⟩ := hdrop
      rw [h, List.take_left]

end Chain

/-! ### Chains are phrases -/

/-- The tokens of a factor, and of further factors behind their operators. -/
inductive Chain : List Token → Expr Unit → List (BinaryOp × Expr Unit) → Prop
  | factor {ts : List Token} {e : Expr Unit} (h : Factor (fun _ => ()) ts e) : Chain ts e []
  | link {ts us : List Token} {t : Token} {op : BinaryOp} {e next : Expr Unit}
      {links : List (BinaryOp × Expr Unit)} (h : Factor (fun _ => ()) ts e) (ht : t.kind.infixOp? = some op)
      (hs : Chain us next links) : Chain (ts ++ t :: us) e ((op, next) :: links)

namespace Chain

/-- Each side of an operator is a chain. -/
theorem split {next : Expr Unit} {op : BinaryOp} {earlier later : List (BinaryOp × Expr Unit)} :
    ∀ {ts : List Token} {e : Expr Unit}, Chain ts e (earlier ++ (op, next) :: later) →
      ∃ ls t rs, ts = ls ++ t :: rs ∧ Chain ls e earlier ∧ t.kind.infixOp? = some op ∧ Chain rs next later := by
  induction earlier with
  | nil =>
      intro ts e h
      cases h with
      | link h ht hs => exact ⟨_, _, _, rfl, .factor h, ht, hs⟩
  | cons l earlier ih =>
      intro ts e h
      cases h with
      | @link fs us t op e next links h ht hs =>
          obtain ⟨ls, u, rs, rfl, hl, hu, hr⟩ := ih hs
          exact ⟨fs ++ t :: ls, u, rs, by simp, .link h ht hl, hu, hr⟩

/-- A chain whose operators have at most a level is a phrase of the layer of this level. -/
theorem layer {links : List (BinaryOp × Expr Unit)} {ts : List Token} {e : Expr Unit} {n : Nat}
    (h : Chain ts e links) (hn : ∀ l ∈ links, l.1.level ≤ n) :
    Layer (fun _ => ()) n ts (tree e links) := by
  induction hlen : links.length using Nat.strong_induction_on generalizing links ts e n with | _ len ih
  subst hlen
  by_cases hnil : links = []
  · subst hnil
    cases h with
    | factor h =>
        rw [tree_nil]
        exact (Layer.factor h).mono (Nat.zero_le n)
  · obtain ⟨earlier, ⟨op, next⟩, later, rfl, hpivot, hcases⟩ := pivot_spec hnil
    obtain ⟨ls, t, rs, rfl, hl, ht, hr⟩ := h.split
    rw [tree_eq hpivot]
    have layerLeft := fun {m} => @ih earlier.length (by simp) earlier ls e m hl
    have layerRight := fun {m} => @ih later.length (by simp; omega) later rs next m hr
    have hop : op.level ≤ n := hn (op, next) (by simp)
    obtain ⟨hassign, hbefore⟩ | ⟨hother, hbefore, hbehind⟩ := hcases
    · have hlevel : op.level = BinaryOp.loosest := by simpa [BinaryOp.isRightAssoc] using hassign
      have hleft : ∀ l ∈ earlier, l.1.level ≤ 10 := fun l hl => by
        have hne : l.1.level ≠ BinaryOp.loosest := by simpa [BinaryOp.isRightAssoc] using hbefore l hl
        have := l.1.level_le_loosest
        unfold BinaryOp.loosest at hne this
        omega
      have hright : ∀ l ∈ later, l.1.level ≤ 11 := fun l _ => l.1.level_le_loosest
      exact (Layer.right rfl (layerLeft hleft rfl) ht hlevel (layerRight hright rfl)).mono (hlevel.symm.trans_le hop)
    · have hlevel : op.level ≠ BinaryOp.loosest := by simpa [BinaryOp.isRightAssoc] using hother
      obtain ⟨m, hm⟩ : ∃ m, op.level = m + 1 := Nat.exists_eq_add_one.mpr op.one_le_level
      have hlt : m + 1 < BinaryOp.loosest := hm ▸ lt_of_le_of_ne op.level_le_loosest hlevel
      have hleft : ∀ l ∈ earlier, l.1.level ≤ m + 1 := fun l hl => (hbefore l hl).trans_eq hm
      have hright : ∀ l ∈ later, l.1.level ≤ m := fun l hl => Nat.le_of_lt_succ ((hbehind l hl).trans_eq hm)
      exact (Layer.left hlt (layerLeft hleft rfl) ht hm (layerRight hright rfl)).mono (hm.symm.trans_le hop)

end Chain

end Phrase

/-! ### Chains are read -/

namespace Grammar

open Parse Phrase

/-- An expression is read to its end where nothing that follows continues it. -/
theorem read_of_isExpr {ts : List Token} {e : Expr Span} (h : IsExpr spanOf ts e) {us : List Entry}
    (hends : Entry.Ends us) : read expression (ts.map .ok ++ us : List Entry) = (.ok (some e), us) := by
  obtain ⟨t, rest, head, rfl, ht, hrest⟩ := h.reads.expressionFrom
  have hreads : expression.ReadsBy Rule.Reads ((t :: rest).map .ok ++ us) (some e) us := by
    refine readsBy_next_bind_cons.mpr ?_
    simp only [ht]
    exact ⟨e, us, hrest us hends, rfl, rfl⟩
  have hrun : expression.run (runRule Rule.body (depth (TokenSource.pending ((t :: rest).map .ok ++ us : List Entry))))
      ((t :: rest).map .ok ++ us) = .ok (some e) us := by
    rw [run_eq_outcome expression (by simp only [depth, TokenSource.pending]; omega)]
    exact (outcome_eq_ok_iff expression).mpr hreads
  simp only [read, readWithin, hrun]

/-- A chain of factors is read to its end where nothing that follows continues it, and its tree is the one that
splitting it at its pivots gives. -/
theorem read_chain {ts : List Token} {first : Expr Unit} {links : List (BinaryOp × Expr Unit)}
    (h : Chain ts first links) {us : List Entry} (hends : Entry.Ends us) :
    ∃ e, read expression (ts.map .ok ++ us : List Entry) = (.ok (some e), us) ∧
      e.map (fun _ => ()) = Chain.tree first links := by
  have hlayer : Layer ((fun _ => ()) ∘ spanOf) BinaryOp.loosest ts (Chain.tree first links) :=
    h.layer fun l _ => l.1.level_le_loosest
  obtain ⟨e, he, hmap⟩ := hlayer.lift
  exact ⟨e, read_of_isExpr he hends, hmap⟩

/-- The tokens of `a = b - c * d - e += f`. -/
def assignments : List Token :=
  [⟨.word "a", .onLine 0 0 1⟩, ⟨.symbol .eq, .onLine 0 2 3⟩, ⟨.word "b", .onLine 0 4 5⟩,
    ⟨.symbol .minus, .onLine 0 6 7⟩, ⟨.word "c", .onLine 0 8 9⟩, ⟨.symbol .star, .onLine 0 10 11⟩,
    ⟨.word "d", .onLine 0 12 13⟩, ⟨.symbol .minus, .onLine 0 14 15⟩, ⟨.word "e", .onLine 0 16 17⟩,
    ⟨.symbol .plusEq, .onLine 0 18 20⟩, ⟨.word "f", .onLine 0 21 22⟩]

theorem chain_assignments : Chain assignments (.name () "a") [(.assign, .name () "b"), (.sub, .name () "c"),
    (.mul, .name () "d"), (.sub, .name () "e"), (.addAssign, .name () "f")] :=
  @Chain.link [_] _ _ _ _ _ _ (.operand (.name rfl)) rfl <| @Chain.link [_] _ _ _ _ _ _ (.operand (.name rfl)) rfl <|
    @Chain.link [_] _ _ _ _ _ _ (.operand (.name rfl)) rfl <| @Chain.link [_] _ _ _ _ _ _ (.operand (.name rfl)) rfl <|
      @Chain.link [_] _ _ _ _ _ _ (.operand (.name rfl)) rfl (.factor (.operand (.name rfl)))

theorem read_chain_assignments :
    Chain assignments (.name () "a") [(.assign, .name () "b"), (.sub, .name () "c"), (.mul, .name () "d"),
      (.sub, .name () "e"), (.addAssign, .name () "f")] ∧
    Entry.Ends [.ok ⟨.symbol .semicolon, .onLine 0 22 23⟩] ∧
    ∃ e, read expression (assignments.map .ok ++ [.ok ⟨.symbol .semicolon, .onLine 0 22 23⟩] : List Entry) =
        (.ok (some e), [.ok ⟨.symbol .semicolon, .onLine 0 22 23⟩]) ∧
      e.map (fun _ => ()) = .binary () .assign (.name () "a") (.binary () .addAssign
        (.binary () .sub (.binary () .sub (.name () "b") (.binary () .mul (.name () "c") (.name () "d")))
          (.name () "e")) (.name () "f")) := by
  have hends : Entry.Ends [.ok ⟨.symbol .semicolon, .onLine 0 22 23⟩] := Entry.ends_of_isStop rfl
  obtain ⟨e, he, hmap⟩ := read_chain chain_assignments hends
  refine ⟨chain_assignments, hends, e, he, hmap.trans ?_⟩
  cbv

end Grammar

end SoundLang
