import SoundLang.Proofs.Lexer.Serve
import SoundLang.Proofs.Source.Lines

/-! # Tokens stand where their spans say

A lexer started on a text (`fresh`) keeps every line of it in its log (`source_after`, `ended_after`), and all that
it serves is found on the lines of the log (`reached_fresh`).  So each token it has served stands in the log: the
log shows, for its span, a spelling of it (`Stands`), from the call that served it on.  At the end the entries served
are the layout of the whole log, and nothing but blanks, comments and what an error takes away is outside the tokens
(`token_places_lossless`). -/

namespace SoundLang

/-! ### Lines without line feeds -/

theorem Log.mem_of_mem_dropLast {c d : Char} {cs : List Char} (h : c ∈ Log.dropLast d cs) : c ∈ cs := by
  unfold dropLast at h
  split at h
  · exact List.dropLast_subset cs h
  · exact h

theorem Log.newline_not_mem_chomp {text : String} (h : '\n' ∉ text.toList) :
    '\n' ∉ (Log.chomp text).toList := by
  unfold chomp
  rw [String.toList_ofList]
  intro hm
  exact h (mem_of_mem_dropLast (mem_of_mem_dropLast hm))

namespace Input

/-- The lines that a log keeps of the answers of a reader. -/
def logged : Input → List String
  | .line text :: rest => Log.chomp text :: logged rest
  | [] | .failed _ :: _ => []

theorem mem_ofText {text : String} {r : Read} (h : r ∈ ofText text none) :
    ∃ p ∈ Log.pieces text.toList, r = .line (String.ofList p) := by
  obtain ⟨before, last, hpieces⟩ := Log.exists_pieces_eq text.toList
  rw [ofText_eq hpieces] at h
  obtain ⟨p, hp, rfl⟩ := List.mem_map.mp h
  exact ⟨p, Log.mem_pieces_of_line hpieces hp, rfl⟩

theorem line_of_mem_ofText {text : String} {r : Read} (h : r ∈ ofText text none) :
    ∃ line, r = .line line ∧ '\n' ∉ (Log.chomp line).toList := by
  obtain ⟨p, hp, rfl⟩ := mem_ofText h
  refine ⟨_, rfl, Log.newline_not_mem_chomp ?_⟩
  rw [String.toList_ofList]
  exact Log.newline_not_mem_pieces hp

end Input

namespace Lexer

/-! ### Every line of the text is logged -/

/-- The lines that the log has, and those that it will have. -/
def source (lx : Lexer) : List String :=
  lx.log.lines.toList ++ if lx.ended then [] else lx.unread.logged

theorem source_fillFrom (unread : Input) (lx : Lexer) (h : lx.ended = false) :
    (fillFrom unread lx).source = lx.log.lines.toList ++ unread.logged := by
  induction unread generalizing lx with
  | nil => simp [fillFrom, finish, source, Input.logged]
  | cons r unread ih =>
      rw [fillFrom]
      cases r with
      | failed message => simp [accept, source, Input.logged]
      | line text =>
          have hlog : ({ lx.prompt with unread }.accept (.line text)).log.lines.toList =
              lx.log.lines.toList ++ [Log.chomp text] := by simp [accept]
          have hended : ({ lx.prompt with unread }.accept (.line text)).ended = false := by
            simpa [accept] using h
          rw [Input.logged, List.append_cons, ← hlog]
          split
          · exact ih _ hended
          · rw [source, hended]
            rfl

theorem source_fill (lx : Lexer) : lx.fill.source = lx.source := by
  unfold fill
  split
  · next h =>
      simp only [Bool.and_eq_true, List.isEmpty_iff, Bool.not_eq_true'] at h
      rw [source_fillFrom _ _ h.2, source, h.2]
      rfl
  · rfl

theorem source_after (n : Nat) (lx : Lexer) : (lx.after n).source = lx.source := by
  induction n with
  | zero => rfl
  | succ n ih =>
      rw [after_succ, ← ih]
      exact (lx.after n).source_fill

/-- When nothing is to come, to ask for more ends the reader. -/
theorem ended_next {lx : Lexer} (h : lx.rest = []) : lx.next.2.ended = true ∧ lx.next.2.queue = [] := by
  have hq : lx.fill.queue = [] := by
    rw [← lx.rest_fill] at h
    exact (List.append_eq_nil_iff.mp h).1
  refine ⟨lx.fill_filled hq, ?_⟩
  change lx.fill.queue.tail = []
  rw [hq]
  rfl

theorem ended_after {lx : Lexer} {n : Nat} (h : lx.rest.length < n) :
    (lx.after n).ended = true ∧ (lx.after n).queue = [] := by
  cases n with
  | zero => omega
  | succ n =>
      rw [after_succ]
      apply ended_next
      rw [rest_after]
      exact List.drop_eq_nil_of_le (by omega)

/-! ### What is served stands in the log -/

/-- The token stands in the log where its span says. -/
structure Stands (log : Log) (t : Token) : Prop where
  le : t.span.start ≤ t.span.stop
  ne : t.span.start ≠ t.span.stop
  start : log.Boundary t.span.start
  stop : log.Boundary t.span.stop
  spells : Spells t.kind (log.excerpt t.span).toList

theorem Reached.stands {taken : List Entry} {lx : Lexer} {t : Token} (h : Reached taken lx)
    (ht : .ok t ∈ taken) : Stands lx.log t := by
  obtain ⟨es, hes, hlayout, -⟩ := h.layout
  obtain ⟨pre, mid, post, htext, hne, hspells, hspan⟩ := hlayout.token_at (hes.subset ht)
  have hlines : lx.log.lines.toList ≠ [] := by
    intro hnil
    simp [Log.text, hnil, hne] at htext
  have hstop : lx.log.text = (pre ++ mid) ++ post := by rw [htext, List.append_assoc]
  constructor <;> rw [hspan]
  · simp only
    rw [Pos.advance_append]
    exact Pos.le_advance _ mid
  · simp only
    rw [Pos.advance_append]
    exact (Pos.advance_ne _ hne).symm
  · exact Log.boundary_of_text h.free hlines htext
  · exact Log.boundary_of_text h.free hlines hstop
  · rw [Log.excerpt_of_text h.free htext, String.toList_ofList]
    exact hspells

/-- A lexer that is started on a text. -/
def fresh (text : String) : Lexer := { unread := .ofText text none }

theorem length_rest_fresh_lt (text : String) : (fresh text).rest.length < (fresh text).pending := by
  have := (fresh text).length_rest_le_pending
  rw [show (fresh text).ended = false from rfl, if_neg Bool.false_ne_true] at this
  exact this

/-- What the call of `next` after `n` others gives. -/
def answer (text : String) (n : Nat) : Except LexError (Option Token) := ((fresh text).after n).next.1

theorem reached_fresh (text : String) : Reached [] (fresh text) where
  free := by
    intro l hl
    cases hl
  unread := fun _ hr => Input.line_of_mem_ofText hr
  found := by rfl
  mode := fun _ => rfl

theorem answer_eq_front (text : String) (n : Nat) : answer text n = Entry.front ((fresh text).rest.drop n) :=
  (fresh text).next_after n

theorem getElem?_of_answer {text : String} {n : Nat} {t : Token} (h : answer text n = .ok (some t)) :
    (fresh text).rest[n]? = some (.ok t) := by
  rw [answer_eq_front] at h
  obtain ⟨us, hus⟩ := Entry.front_eq_some h
  rw [← List.head?_drop, hus]
  rfl

theorem stands_of_answer {text : String} {n k : Nat} {t : Token} (h : answer text n = .ok (some t))
    (hk : n < k) : Stands ((fresh text).after k).log t := by
  apply ((reached_fresh text).after k).stands
  have hget := getElem?_of_answer h
  rw [← List.getElem?_take_of_lt hk] at hget
  exact List.mem_of_getElem? hget

/-- The entries of a text are the layout of its lines. -/
theorem layout_of_ended {text : String} {k : Nat} (hk : (fresh text).rest.length < k) :
    Layout ⟨0, 0⟩ ((fresh text).after k).log.text (fresh text).rest := by
  obtain ⟨es, -, hlayout, heq⟩ := ((reached_fresh text).after k).layout
  have hend := ended_after hk
  have htaken := heq hend.1 hend.2
  rw [List.take_of_length_le (by omega)] at htaken
  rwa [htaken]

theorem before_of_answers {text : String} {m n : Nat} {t u : Token} (hmn : m < n)
    (ht : answer text m = .ok (some t)) (hu : answer text n = .ok (some u)) : t.span.stop ≤ u.span.start := by
  have hpair := (layout_of_ended (Nat.lt_succ_self (fresh text).rest.length)).pairwise
  obtain ⟨hm, hgetm⟩ := List.getElem?_eq_some_iff.mp (getElem?_of_answer ht)
  obtain ⟨hn, hgetn⟩ := List.getElem?_eq_some_iff.mp (getElem?_of_answer hu)
  exact List.pairwise_iff_getElem.mp hpair m n hm hn hmn t u hgetm hgetn

theorem logged_of_ended {text : String} {k : Nat} (hk : (fresh text).rest.length < k) :
    ((fresh text).after k).log.lines.toList = (Input.ofText text none).logged := by
  have hsource := source_after k (fresh text)
  rw [source, (ended_after hk).1, if_pos rfl, List.append_nil] at hsource
  exact hsource

/-- The calls of `next` give the entries of a text in order.  Each token given stands in the log from then on, and
behind all the tokens before it.  When all are given the log has every line of the text, and what is outside the
tokens is blanks, comments, and text that an error takes away. -/
theorem token_places_lossless (text : String) :
    (∀ n, answer text n = Entry.front ((TokenSource.entries (fresh text)).drop n)) ∧
    (∀ n t, answer text n = .ok (some t) → ∀ k > n, Stands ((fresh text).after k).log t) ∧
    (∀ m n t u, m < n → answer text m = .ok (some t) → answer text n = .ok (some u) →
      t.span.stop ≤ u.span.start) ∧
    ∀ k > (TokenSource.entries (fresh text)).length,
      ((fresh text).after k).log.lines.toList = (Input.ofText text none).logged ∧
      Layout ⟨0, 0⟩ ((fresh text).after k).log.text (TokenSource.entries (fresh text)) := by
  rw [entries_eq_rest]
  refine ⟨answer_eq_front text, ?_, ?_, ?_⟩
  · intro n t ht k hk
    exact stands_of_answer ht hk
  · intro m n t u hmn ht hu
    exact before_of_answers hmn ht hu
  · intro k hk
    exact ⟨logged_of_ended hk, layout_of_ended hk⟩

end Lexer

end SoundLang
