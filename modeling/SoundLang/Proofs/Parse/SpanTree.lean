import SoundLang.Proofs.Parse.Notes
import SoundLang.Proofs.Source.Place

/-! # Trees of spans

A `SpanTree` has a span at each node, and the parts of a node as its children.  It is built from tokens (`Built`) when
its span goes from the first of them to the last, and its children are built from parts of the tokens, one behind the
other (`Parts`).

Where tokens stand in reading order (`Ordered`), what is built from them is nested: children lie inside their parents,
and each child ends before the next one starts (`SpanTree.Built.nested`). -/

namespace SoundLang

/-- The spans of a tree. -/
inductive SpanTree where
  | node (span : Span) (children : List SpanTree)

namespace SpanTree

/-- The span at the root. -/
def span : SpanTree → Span
  | node span _ => span

mutual

/-- The span is that of the tokens, and the children are built from parts of them. -/
inductive Built : List Token → SpanTree → Prop
  | node {ts : List Token} {children : List SpanTree} (hne : ts ≠ []) (h : Parts ts children) :
      Built ts (node (spanOf ts) children)

/-- The trees are built from parts of the tokens, one behind the other. -/
inductive Parts : List Token → List SpanTree → Prop
  | nil : Parts [] []
  | skip {t : Token} {ts : List Token} {trees : List SpanTree} (h : Parts ts trees) : Parts (t :: ts) trees
  | part {ts us : List Token} {tree : SpanTree} {trees : List SpanTree} (h : Built ts tree)
      (hs : Parts us trees) : Parts (ts ++ us) (tree :: trees)

end

/-- One tree ends before the other starts. -/
def Before (a b : SpanTree) : Prop := a.span.stop ≤ b.span.start

/-- The span goes forward, the children lie inside it, each ends before the next one starts, and so it is inside
them. -/
inductive Nested : SpanTree → Prop
  | node {span : Span} {children : List SpanTree} (hle : span.start ≤ span.stop)
      (hinside : ∀ c ∈ children, span.start ≤ c.span.start ∧ c.span.stop ≤ span.stop)
      (hapart : children.Pairwise Before) (hnested : ∀ c ∈ children, Nested c) :
      Nested (node span children)

end SpanTree

/-! ### Tokens in reading order -/

/-- The tokens stand in reading order and do not overlap. -/
structure Ordered (ts : List Token) : Prop where
  le : ∀ t ∈ ts, t.span.start ≤ t.span.stop
  pairwise : ts.Pairwise fun t u => t.span.stop ≤ u.span.start

namespace Ordered

variable {ts us : List Token}

theorem sublist (h : Ordered ts) (hs : us.Sublist ts) : Ordered us where
  le := fun t ht => h.le t (hs.subset ht)
  pairwise := h.pairwise.sublist hs

theorem left (h : Ordered (ts ++ us)) : Ordered ts := h.sublist (List.sublist_append_left ts us)

theorem right (h : Ordered (ts ++ us)) : Ordered us := h.sublist (List.sublist_append_right ts us)

theorem exists_start (hne : ts ≠ []) : ∃ t ∈ ts, (spanOf ts).start = t.span.start := by
  cases ts with
  | nil => exact absurd rfl hne
  | cons t ts => exact ⟨t, List.mem_cons_self, rfl⟩

theorem exists_stop (hne : ts ≠ []) : ∃ t ∈ ts, (spanOf ts).stop = t.span.stop := by
  refine ⟨ts.getLast hne, List.getLast_mem hne, ?_⟩
  simp [spanOf, List.getLast?_eq_some_getLast hne]

theorem start_le (h : Ordered ts) {t : Token} (ht : t ∈ ts) : (spanOf ts).start ≤ t.span.start := by
  cases ts with
  | nil => cases ht
  | cons u ts =>
      rw [spanOf_cons_start]
      obtain rfl | ht := List.mem_cons.mp ht
      · exact Pos.le_refl _
      · exact Pos.le_trans (h.le u List.mem_cons_self) ((List.pairwise_cons.mp h.pairwise).1 t ht)

theorem le_stop (h : Ordered ts) {t : Token} (ht : t ∈ ts) : t.span.stop ≤ (spanOf ts).stop := by
  induction ts with
  | nil => cases ht
  | cons u ts ih =>
      by_cases hts : ts = []
      · subst hts
        rw [List.mem_singleton.mp ht]
        exact Pos.le_refl _
      · rw [spanOf_cons_stop u hts]
        have htail : Ordered ts := h.sublist (List.sublist_cons_self u ts)
        obtain rfl | ht := List.mem_cons.mp ht
        · obtain ⟨v, hv, hstop⟩ := exists_stop hts
          rw [hstop]
          exact Pos.le_trans ((List.pairwise_cons.mp h.pairwise).1 v hv) (htail.le v hv)
        · exact ih htail ht

theorem spanOf_le (h : Ordered ts) (hne : ts ≠ []) : (spanOf ts).start ≤ (spanOf ts).stop := by
  obtain ⟨t, ht, hstart⟩ := exists_start hne
  rw [hstart]
  exact Pos.le_trans (h.le t ht) (h.le_stop ht)

/-- Part of the tokens spans part of what all of them span. -/
theorem spanOf_sublist (h : Ordered ts) (hs : us.Sublist ts) (hne : us ≠ []) :
    (spanOf ts).start ≤ (spanOf us).start ∧ (spanOf us).stop ≤ (spanOf ts).stop := by
  obtain ⟨t, ht, hstart⟩ := exists_start hne
  obtain ⟨u, hu, hstop⟩ := exists_stop hne
  rw [hstart, hstop]
  exact ⟨h.start_le (hs.subset ht), h.le_stop (hs.subset hu)⟩

theorem spanOf_before (h : Ordered (ts ++ us)) (ht : ts ≠ []) (hu : us ≠ []) :
    (spanOf ts).stop ≤ (spanOf us).start := by
  obtain ⟨t, ht, hstop⟩ := exists_stop ht
  obtain ⟨u, hu, hstart⟩ := exists_start hu
  rw [hstop, hstart]
  exact (List.pairwise_append.mp h.pairwise).2.2 t ht u hu

end Ordered

namespace SpanTree

/-! ### Trees that are built from tokens -/

theorem Built.ne_nil {ts : List Token} {tree : SpanTree} (h : Built ts tree) : ts ≠ [] := by
  cases h with
  | node hne _ => exact hne

theorem Built.span_eq {ts : List Token} {tree : SpanTree} (h : Built ts tree) : tree.span = spanOf ts := by
  cases h
  rfl

/-- Each of the trees is built from part of the tokens. -/
theorem Parts.built_of_mem {tree : SpanTree} : ∀ {ts : List Token} {trees : List SpanTree}, Parts ts trees →
    tree ∈ trees → ∃ us : List Token, us.Sublist ts ∧ Built us tree
  | _, _, .nil, hm => by cases hm
  | _, _, @Parts.skip t ts trees h, hm => by
      obtain ⟨us, hsub, hb⟩ := built_of_mem h hm
      exact ⟨us, hsub.cons t, hb⟩
  | _, _, @Parts.part ts us first trees h hs, hm => by
      obtain rfl | hm := List.mem_cons.mp hm
      · exact ⟨ts, List.sublist_append_left ts us, h⟩
      · obtain ⟨vs, hsub, hb⟩ := built_of_mem hs hm
        exact ⟨vs, hsub.trans (List.sublist_append_right ts us), hb⟩

theorem Parts.pairwise : ∀ {ts : List Token} {trees : List SpanTree}, Parts ts trees → Ordered ts →
    trees.Pairwise Before
  | _, _, .nil, _ => .nil
  | _, _, @Parts.skip t ts trees h, ho => pairwise h (ho.sublist (List.sublist_cons_self t ts))
  | _, _, @Parts.part ts us first trees h hs, ho => by
      refine .cons (fun tree hm => ?_) (pairwise hs ho.right)
      obtain ⟨vs, hsub, hb⟩ := hs.built_of_mem hm
      have hcut : Ordered (ts ++ vs) := ho.sublist ((List.Sublist.refl ts).append hsub)
      rw [Before, h.span_eq, hb.span_eq]
      exact hcut.spanOf_before h.ne_nil hb.ne_nil

mutual

theorem Built.nested : ∀ {ts : List Token} {tree : SpanTree}, Built ts tree → Ordered ts → Nested tree
  | _, _, @Built.node ts children hne h, ho => by
      refine .node (ho.spanOf_le hne) ?_ (h.pairwise ho) (Parts.nested h ho)
      intro c hc
      obtain ⟨us, hsub, hb⟩ := h.built_of_mem hc
      rw [hb.span_eq]
      exact ho.spanOf_sublist hsub hb.ne_nil

theorem Parts.nested : ∀ {ts : List Token} {trees : List SpanTree}, Parts ts trees → Ordered ts →
    ∀ c ∈ trees, Nested c
  | _, _, .nil, _ => fun c hc => by cases hc
  | _, _, @Parts.skip t ts trees h, ho => Parts.nested h (ho.sublist (List.sublist_cons_self t ts))
  | _, _, @Parts.part ts us first trees h hs, ho => by
      intro c hc
      obtain heq | hc := List.mem_cons.mp hc
      · rw [heq]
        exact Built.nested h ho.left
      · exact Parts.nested hs ho.right c hc

end

/-! ### Parts of lists of tokens -/

section parts
variable {t c : Token} {ts us : List Token} {tree : SpanTree} {a b : List SpanTree}

theorem Parts.append : ∀ {ts : List Token} {a : List SpanTree}, Parts ts a → Parts us b → Parts (ts ++ us) (a ++ b)
  | _, _, .nil, hb => hb
  | _, _, .skip h, hb => .skip (append h hb)
  | _, _, @Parts.part ts vs first trees h hs, hb => by
      rw [List.append_assoc]
      exact .part h (append hs hb)

theorem Parts.whole (h : Built ts tree) : Parts ts [tree] := by
  have := Parts.part h .nil
  rwa [List.append_nil] at this

theorem Parts.token (t : Token) : Parts [t] [] := .skip .nil

/-- A token by itself. -/
theorem Built.token (t : Token) : Built [t] (.node (spanOf [t]) []) := .node (by simp) (.token t)

theorem Parts.named (h : Parts ts a) : Parts (t :: ts) (.node (spanOf [t]) [] :: a) := .part (.token t) h

/-- What stands between two tokens. -/
theorem Parts.enclosed (h : Parts ts a) : Parts (t :: (ts ++ [c])) a := by
  have := h.append (.token c)
  rw [List.append_nil] at this
  exact .skip this

theorem Parts.ended (h : Parts ts a) : Parts (ts ++ [c]) a := by
  have := h.append (.token c)
  rwa [List.append_nil] at this

/-- What stands on both sides of a token. -/
theorem Parts.around (ha : Parts ts a) (hb : Parts us b) : Parts (ts ++ c :: us) (a ++ b) := ha.append (.skip hb)

end parts

end SpanTree

end SoundLang
