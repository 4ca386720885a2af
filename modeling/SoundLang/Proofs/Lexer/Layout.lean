import SoundLang.Proofs.Lexer.WholeText

/-! # The layout of a text

`Layout p text entries` says what each part of a text is, from the place `p` on: a token with its spelling, a
blank, a comment, the rest of a line from an error on, or all the rest from the opener of a comment or a string
that is never closed.  The spans of the tokens are the places before and behind their spellings.

What is read from a text in one pass is its layout (`layout_lex`).  So each token stands where its span says
(`Layout.token_at`), and each starts behind the one before it (`Layout.pairwise`). -/

namespace SoundLang

namespace Lexer

/-! ### Parts of a text -/

/-- The characters between the quotes of a string, and what they stand for. -/
inductive Inside : List Char → List Char → Prop
  | nil : Inside [] []
  | plain {c : Char} {cs value : List Char} (hq : c ≠ '"') (hb : c ≠ '\\') (h : Inside cs value) :
      Inside (c :: cs) (c :: value)
  | escape {c : Char} {cs value : List Char} (h : Inside cs value) :
      Inside ('\\' :: c :: cs) (unescape c :: value)

/-- The text is a spelling of the token. -/
def Spells : Token.Kind → List Char → Prop
  | .word text, cs => cs = text.toList
  | .number text, cs => cs = text.toList
  | .symbol s, cs => cs = s.chars
  | .string value, cs => ∃ inside, cs = '"' :: (inside ++ ['"']) ∧ Inside inside value.toList

/-- The text goes on inside `n` comments, and ends where the last of them is closed. -/
inductive InComments : Nat → List Char → Prop
  | done : InComments 0 []
  | enter {n : Nat} {cs : List Char} (h : InComments (n + 2) cs) : InComments (n + 1) ('/' :: '*' :: cs)
  | leave {n : Nat} {cs : List Char} (h : InComments n cs) : InComments (n + 1) ('*' :: '/' :: cs)
  | other {n : Nat} {c : Char} {cs : List Char} (ho : ∀ tail, c = '/' → cs = '*' :: tail → False)
      (hc : ∀ tail, c = '*' → cs = '/' :: tail → False) (h : InComments (n + 1) cs) :
      InComments (n + 1) (c :: cs)

/-- Behind a line stands the end of the text or a line feed. -/
def AtLineEnd (rest : List Char) : Prop := rest = [] ∨ ∃ tail, rest = '\n' :: tail

/-- What the parts of a text are, from the place `p` on. -/
inductive Layout : Pos → List Char → List Entry → Prop
  | done {p : Pos} : Layout p [] []
  | blank {p : Pos} {c : Char} {rest : List Char} {es : List Entry} (hc : isBlank c = true)
      (h : Layout (p.past c) rest es) : Layout p (c :: rest) es
  | lineComment {p : Pos} {body rest : List Char} {es : List Entry} (hb : '\n' ∉ body)
      (hr : AtLineEnd rest) (h : Layout (p.advance ('/' :: '/' :: body)) rest es) :
      Layout p ('/' :: '/' :: (body ++ rest)) es
  | comment {p : Pos} {body rest : List Char} {es : List Entry} (hb : InComments 1 body)
      (h : Layout (p.advance ('/' :: '*' :: body)) rest es) : Layout p ('/' :: '*' :: (body ++ rest)) es
  | token {p : Pos} {kind : Token.Kind} {text rest : List Char} {es : List Entry} (hne : text ≠ [])
      (hs : Spells kind text) (h : Layout (p.advance text) rest es) :
      Layout p (text ++ rest) (.ok ⟨kind, ⟨p, p.advance text⟩⟩ :: es)
  /-- The rest of a line, from an error at its start on. -/
  | error {p : Pos} {e : LexError} {text rest : List Char} {es : List Entry} (hne : text ≠ [])
      (ht : '\n' ∉ text) (hr : AtLineEnd rest) (he : e.span?.map Span.start = some p)
      (h : Layout (p.advance text) rest es) : Layout p (text ++ rest) (.error e :: es)
  /-- The outermost of the comments that stay open starts here. -/
  | openComment {p start : Pos} {enclosing : List Pos} {rest : List Char}
      (hp : (enclosing ++ [start]).head? = some p) :
      Layout p ('/' :: '*' :: rest) [.error (.unterminatedComment start enclosing)]
  | openString {p : Pos} {rest : List Char} : Layout p ('"' :: rest) [.error (.unterminatedString p)]

/-! ### What is read is the layout -/

/-- What is read inside comments: they are closed, or the text ends in them. -/
def CommentRead (p : Pos) (opener : Pos) (outer : List Pos) (cs : List Char) : Prop :=
  (∃ body rest, cs = body ++ rest ∧ InComments (outer.length + 1) body ∧
      Layout (p.advance body) rest (lex p (.comment opener outer) cs)) ∨
    ∃ start enclosing, (enclosing ++ [start]).head? = (opener :: outer).getLast? ∧
      lex p (.comment opener outer) cs = [.error (.unterminatedComment start enclosing)]

/-- What is read inside a string: its value and what is behind it, or the text ends in it. -/
def StringRead (p : Pos) (start : Pos) (value : String) (cs : List Char) : Prop :=
  (∃ inside decoded rest es, cs = inside ++ '"' :: rest ∧ Inside inside decoded ∧
      Layout (p.advance (inside ++ ['"'])) rest es ∧
      lex p (.string start value) cs =
        .ok ⟨.string (value ++ String.ofList decoded), ⟨start, p.advance (inside ++ ['"'])⟩⟩ :: es) ∨
    lex p (.string start value) cs = [.error (.unterminatedString start)]

/-- What is read in a mode. -/
def ModeRead (p : Pos) : Mode → List Char → Prop
  | .code, cs => Layout p cs (lex p .code cs)
  | .comment opener outer, cs => CommentRead p opener outer cs
  | .string start value, cs => StringRead p start value cs

theorem lineOf_append_afterLine (cs : List Char) : lineOf cs ++ afterLine cs = cs :=
  List.takeWhile_append_dropWhile

theorem newline_not_mem_lineOf (cs : List Char) : '\n' ∉ lineOf cs := by
  have hall : (lineOf cs).all (· != '\n') = true := List.all_takeWhile
  intro h
  have := List.all_eq_true.mp hall _ h
  simp at this

theorem atLineEnd_afterLine (cs : List Char) : AtLineEnd (afterLine cs) := by
  unfold afterLine
  induction cs with
  | nil => exact .inl rfl
  | cons c cs ih =>
      rw [List.dropWhile_cons]
      by_cases hc : c = '\n'
      · subst hc
        exact .inr ⟨cs, rfl⟩
      · rw [if_pos (bne_iff_ne.mpr hc)]
        exact ih

theorem spells_of_entryOf {cs : List Char} {m : Lexeme} {span : Span} {t : Token}
    (hm : Lexeme.longest? cs = some m) (h : entryOf m span = .ok t) :
    ∃ kind, t = ⟨kind, span⟩ ∧ Spells kind m.text := by
  unfold entryOf at h
  split at h
  · cases h
    exact ⟨_, rfl, by simp [Spells]⟩
  · cases h
    exact ⟨_, rfl, by simp [Spells]⟩
  · next s hs =>
      cases h
      exact ⟨_, rfl, Lexeme.text_of_symbol hm hs⟩
  · cases h
  · cases h

theorem span?_of_entryOf {m : Lexeme} {span : Span} {e : LexError} (h : entryOf m span = .error e) :
    e.span? = some span := by
  unfold entryOf at h
  split at h <;> cases h <;> rfl

theorem push_append (value : String) (c : Char) (cs : List Char) :
    value.push c ++ String.ofList cs = value ++ String.ofList (c :: cs) := by
  rw [← String.toList_inj]
  simp

section comment
variable {p opener : Pos} {outer : List Pos} {cs : List Char}

theorem commentRead_nil : CommentRead p opener outer [] := by
  refine .inr ⟨opener, outer.reverse, ?_, by rw [lex]⟩
  rw [← List.reverse_cons, List.head?_reverse]

theorem commentRead_enter (h : CommentRead (p.advance ['/', '*']) p (opener :: outer) cs) :
    CommentRead p opener outer ('/' :: '*' :: cs) := by
  unfold CommentRead
  rw [lex]
  obtain ⟨body, rest, rfl, hb, hl⟩ | ⟨start, enclosing, hp, hl⟩ := h
  · exact .inl ⟨'/' :: '*' :: body, rest, rfl, .enter hb, hl⟩
  · exact .inr ⟨start, enclosing, by rw [hp, List.getLast?_cons_cons], hl⟩

theorem commentRead_leave (h : ModeRead (p.advance ['*', '/']) (.afterComment outer) cs) :
    CommentRead p opener outer ('*' :: '/' :: cs) := by
  unfold CommentRead
  rw [lex]
  cases outer with
  | nil => exact .inl ⟨['*', '/'], cs, rfl, .leave .done, h⟩
  | cons opener' outer =>
      obtain ⟨body, rest, rfl, hb, hl⟩ | ⟨start, enclosing, hp, hl⟩ := h
      · exact .inl ⟨'*' :: '/' :: body, rest, rfl, .leave hb, hl⟩
      · exact .inr ⟨start, enclosing, by rw [hp, List.getLast?_cons_cons], hl⟩

theorem commentRead_other {c : Char} (ho : ∀ tail, c = '/' → cs = '*' :: tail → False)
    (hc : ∀ tail, c = '*' → cs = '/' :: tail → False) (h : CommentRead (p.past c) opener outer cs) :
    CommentRead p opener outer (c :: cs) := by
  have hlex : lex p (.comment opener outer) (c :: cs) = lex (p.past c) (.comment opener outer) cs := by
    rw [lex]
    · exact ho
    · exact hc
  unfold CommentRead
  rw [hlex]
  obtain ⟨body, rest, rfl, hb, hl⟩ | ⟨start, enclosing, hp, hl⟩ := h
  · refine .inl ⟨c :: body, rest, rfl, .other ?_ ?_ hb, hl⟩
    · exact fun tail h1 h2 => ho (tail ++ rest) h1 (by rw [h2]; rfl)
    · exact fun tail h1 h2 => hc (tail ++ rest) h1 (by rw [h2]; rfl)
  · exact .inr ⟨start, enclosing, hp, hl⟩

end comment

section string
variable {p start : Pos} {value : String} {cs : List Char}

theorem stringRead_close (h : Layout (p.past '"') cs (lex (p.past '"') .code cs)) :
    StringRead p start value ('"' :: cs) := by
  refine .inl ⟨[], [], cs, _, rfl, .nil, h, ?_⟩
  rw [lex]
  simp

theorem stringRead_escape {c : Char}
    (h : StringRead (p.advance ['\\', c]) start (value.push (unescape c)) cs) :
    StringRead p start value ('\\' :: c :: cs) := by
  unfold StringRead
  rw [lex]
  obtain ⟨inside, decoded, rest, es, rfl, hi, hl, hlex⟩ | hlex := h
  · refine .inl ⟨'\\' :: c :: inside, unescape c :: decoded, rest, es, rfl, .escape hi, hl, ?_⟩
    rw [hlex, push_append]
    rfl
  · exact .inr hlex

theorem stringRead_other {c : Char} (hq : c ≠ '"') (hb : ∀ d tail, c = '\\' → cs = d :: tail → False)
    (h : StringRead (p.past c) start (value.push c) cs) : StringRead p start value (c :: cs) := by
  have hlex : lex p (.string start value) (c :: cs) = lex (p.past c) (.string start (value.push c)) cs := by
    rw [lex]
    · exact hq
    · exact hb
  unfold StringRead
  rw [hlex]
  obtain ⟨inside, decoded, rest, es, rfl, hi, hl, hlex⟩ | hlex := h
  · have hback : c ≠ '\\' := by
      intro hc
      cases inside with
      | nil => exact hb '"' rest hc rfl
      | cons d inside => exact hb d (inside ++ '"' :: rest) hc rfl
    refine .inl ⟨c :: inside, c :: decoded, rest, es, rfl, .plain hq hback hi, hl, ?_⟩
    rw [hlex, push_append]
    rfl
  · exact .inr hlex

end string

section code
variable {p : Pos} {c : Char} {cs : List Char}

theorem ne_newline_of_not_blank (hb : isBlank c = false) : c ≠ '\n' := by
  rintro rfl
  cases hb

/-- The rest of a line from an error on, and the lines behind it. -/
theorem layout_error {e : LexError} {span : Span} {es : List Entry} (hb : isBlank c = false)
    (he : e.span? = some span) (hp : span.start = p)
    (h : Layout (p.advance (c :: lineOf cs)) (afterLine cs) es) : Layout p (c :: cs) (.error e :: es) := by
  have hline : '\n' ∉ c :: lineOf cs := by
    rw [List.mem_cons, not_or]
    exact ⟨(ne_newline_of_not_blank hb).symm, newline_not_mem_lineOf cs⟩
  have := Layout.error (by simp) hline (atLineEnd_afterLine cs) (by rw [he, ← hp]; rfl) h
  rwa [List.cons_append, lineOf_append_afterLine] at this

/-- The text behind a match. -/
theorem text_append_drop {m : Lexeme} (hm : Lexeme.longest? (c :: cs) = some m) :
    m.text ++ cs.drop (m.text.length - 1) = c :: cs := by
  obtain ⟨hne, rest, hrest⟩ := Lexeme.append_of_longest? hm
  cases htext : m.text with
  | nil => exact absurd htext hne
  | cons d text =>
      rw [htext, List.cons_append, List.cons.injEq] at hrest
      obtain ⟨rfl, rfl⟩ := hrest
      simp

end code

theorem modeRead (p : Pos) (mode : Mode) (cs : List Char) : ModeRead p mode cs := by
  induction p, mode, cs using lex.induct with
  | case1 p =>
      rw [ModeRead, lex]
      exact .done
  | case2 p cs ih =>
      have := Layout.lineComment (newline_not_mem_lineOf cs) (atLineEnd_afterLine cs) ih
      rw [lineOf_append_afterLine] at this
      rwa [ModeRead, lex]
  | case3 p cs ih =>
      rw [ModeRead, lex]
      obtain ⟨body, rest, rfl, hb, hl⟩ | ⟨start, enclosing, hp, hl⟩ := ih
      · exact .comment hb hl
      · rw [hl]
        exact .openComment hp
  | case4 p cs ih =>
      rw [ModeRead, lex]
      obtain ⟨inside, decoded, rest, es, rfl, hi, hl, hlex⟩ | hlex := ih
      · have hs : Spells (.string ("" ++ String.ofList decoded)) ('"' :: (inside ++ ['"'])) :=
          ⟨inside, rfl, by simpa using hi⟩
        have := Layout.token (p := p) (by simp) hs hl
        rw [hlex]
        simpa using this
      · rw [hlex]
        exact .openString
  | case5 p c cs h1 h2 h3 hb ih =>
      rw [ModeRead, lex_blank ⟨h1, h2, h3⟩ p hb]
      exact .blank hb ih
  | case6 p c cs h1 h2 h3 hb hm ih =>
      rw [Bool.not_eq_true] at hb
      rw [ModeRead, lex_unexpected ⟨h1, h2, h3⟩ p hb hm]
      exact layout_error hb rfl rfl ih
  | case7 p c cs h1 h2 h3 hb m hm e he ih =>
      rw [Bool.not_eq_true] at hb
      rw [ModeRead, lex_malformed ⟨h1, h2, h3⟩ p hb hm he]
      exact layout_error hb (span?_of_entryOf he) rfl ih
  | case8 p c cs h1 h2 h3 hb m hm t ht ih =>
      rw [Bool.not_eq_true] at hb
      rw [ModeRead, lex_token ⟨h1, h2, h3⟩ p hb hm ht]
      obtain ⟨kind, rfl, hs⟩ := spells_of_entryOf hm ht
      have := Layout.token (Lexeme.append_of_longest? hm).1 hs ih
      rwa [text_append_drop hm] at this
  | case9 p opener outer => exact commentRead_nil
  | case10 p opener outer cs ih => exact commentRead_enter ih
  | case11 p opener outer cs ih => exact commentRead_leave ih
  | case12 p opener outer c cs h1 h2 ih => exact commentRead_other h1 h2 ih
  | case13 p start value => exact .inr (by rw [lex])
  | case14 p start value cs ih => exact stringRead_close ih
  | case15 p start value c cs ih => exact stringRead_escape ih
  | case16 p start value c cs h1 h2 ih => exact stringRead_other h1 h2 ih

/-- What is read from a text in one pass is its layout. -/
theorem layout_lex (p : Pos) (cs : List Char) : Layout p cs (lex p .code cs) := modeRead p .code cs

/-! ### Tokens in the layout -/

namespace Layout

variable {p : Pos} {cs : List Char} {es : List Entry} {t : Token}

theorem token_behind (text : List Char) {rest : List Char}
    (h : ∃ pre mid post, rest = pre ++ (mid ++ post) ∧ mid ≠ [] ∧ Spells t.kind mid ∧
      t.span = ⟨(p.advance text).advance pre, (p.advance text).advance (pre ++ mid)⟩) :
    ∃ pre mid post, text ++ rest = pre ++ (mid ++ post) ∧ mid ≠ [] ∧ Spells t.kind mid ∧
      t.span = ⟨p.advance pre, p.advance (pre ++ mid)⟩ := by
  obtain ⟨pre, mid, post, rfl, hne, hs, hspan⟩ := h
  refine ⟨text ++ pre, mid, post, by simp, hne, hs, ?_⟩
  rw [hspan, List.append_assoc, ← Pos.advance_append, ← Pos.advance_append]

/-- A token of a layout is spelled in the text between the places of its span. -/
theorem token_at (h : Layout p cs es) (ht : .ok t ∈ es) :
    ∃ pre mid post, cs = pre ++ (mid ++ post) ∧ mid ≠ [] ∧ Spells t.kind mid ∧
      t.span = ⟨p.advance pre, p.advance (pre ++ mid)⟩ := by
  induction h with
  | done => cases ht
  | @blank p c rest es hc h ih => exact token_behind [c] (ih ht)
  | @lineComment p body rest es hb hr h ih => exact token_behind ('/' :: '/' :: body) (ih ht)
  | @comment p body rest es hb h ih => exact token_behind ('/' :: '*' :: body) (ih ht)
  | @token p kind text rest es hne hs h ih =>
      obtain heq | ht := List.mem_cons.mp ht
      · cases heq
        exact ⟨[], text, rest, rfl, hne, hs, rfl⟩
      · exact token_behind text (ih ht)
  | @error p e text rest es hne htext hr he h ih =>
      obtain heq | ht := List.mem_cons.mp ht
      · cases heq
      · exact token_behind text (ih ht)
  | openComment hp => simp at ht
  | openString => simp at ht

/-- One token is behind another. -/
def Before (a b : Entry) : Prop := ∀ t u : Token, a = .ok t → b = .ok u → t.span.stop ≤ u.span.start

theorem le_start (h : Layout p cs es) (ht : .ok t ∈ es) : p ≤ t.span.start := by
  obtain ⟨pre, mid, post, -, -, -, hspan⟩ := h.token_at ht
  rw [hspan]
  exact p.le_advance pre

/-- The tokens of a layout stand in reading order and do not overlap. -/
theorem pairwise (h : Layout p cs es) : es.Pairwise Before := by
  induction h with
  | done => exact .nil
  | blank _ _ ih | lineComment _ _ _ ih | comment _ _ ih => exact ih
  | token _ _ h ih =>
      refine .cons (fun b hb t u ht hu => ?_) ih
      cases ht
      exact h.le_start (hu ▸ hb)
  | error _ _ _ _ _ ih => exact .cons (fun _ _ _ _ ht => by cases ht) ih
  | openComment _ | openString => exact List.pairwise_singleton _ _

end Layout

end Lexer

end SoundLang
