import SoundLang.Proofs.Lexer.Forms
import SoundLang.Proofs.Lexer.Text

/-! # Tokens joined by separators

A text that is put together from spellings of tokens, with separators between them, is read as just these tokens
(`tokens_of_joined`).  A separator starts with a blank, so nothing of it can go on a token, and what else it holds is
skipped: blanks, comments up to the end of their line, and comments that are closed (`Trivia.lex`). -/

namespace SoundLang

namespace Lexer

open Log

/-- Blanks, comments that a line feed ends, and comments that are closed, one behind the other. -/
inductive Trivia : List Char → Prop
  | nil : Trivia []
  | blank {c : Char} {cs : List Char} (hc : isBlank c = true) (h : Trivia cs) : Trivia (c :: cs)
  | lineComment {body cs : List Char} (hb : '\n' ∉ body) (h : Trivia cs) :
      Trivia ('/' :: '/' :: (body ++ '\n' :: cs))
  | comment {body cs : List Char} (hb : InComments 1 body) (h : Trivia cs) : Trivia ('/' :: '*' :: (body ++ cs))

/-- The text is the source of the token. -/
def Spelled : Token.Kind → List Char → Prop
  | .word text, cs => cs = text.toList ∧ Lexeme.isWord cs = true
  | .number text, cs => cs = text.toList ∧ Lexeme.IsNumber cs
  | .symbol s, cs => cs = s.chars
  | .string value, cs => ∃ inside, cs = '"' :: (inside ++ ['"']) ∧ Inside inside value.toList ∧ '\r' ∉ inside

/-- The text is that of the tokens, with a blank and what may follow it between each two of them. -/
inductive Joined : List Token.Kind → List Char → Prop
  | nil : Joined [] []
  | one {k : Token.Kind} {cs : List Char} (h : Spelled k cs) : Joined [k] cs
  | more {k l : Token.Kind} {ks : List Token.Kind} {cs gap rest : List Char} {b : Char} (h : Spelled k cs)
      (hb : isBlank b = true) (hgap : Trivia gap) (hs : Joined (l :: ks) rest) :
      Joined (k :: l :: ks) (cs ++ b :: (gap ++ rest))

/-! ### What stands between tokens -/

theorem unmarked_of_ne {c : Char} (hslash : c ≠ '/') (hquote : c ≠ '"') (cs : List Char) : Unmarked c cs :=
  ⟨fun _ h => absurd h hslash, fun _ h => absurd h hslash, hquote⟩

theorem unmarked_of_isBlank {c : Char} (hc : isBlank c = true) (cs : List Char) : Unmarked c cs :=
  unmarked_of_ne (Lexeme.ne_of_test hc rfl) (Lexeme.ne_of_test hc rfl) cs

theorem lex_trimmed_blank {c : Char} (hc : isBlank c = true) (cs : List Char) (p : Pos) :
    ∃ p', lex p .code (trimmed (c :: cs)) = lex p' .code (trimmed cs) := by
  rw [trimmed]
  split
  · exact ⟨p, rfl⟩
  · exact ⟨p.past c, lex_blank (unmarked_of_isBlank hc _) p hc⟩

/-- A line keeps to itself when its carriage return is taken away. -/
theorem trimmed_line {body : List Char} (h : '\n' ∉ body) (rest : List Char) :
    ∃ line, '\n' ∉ line ∧ trimmed (body ++ '\n' :: rest) = line ++ '\n' :: trimmed rest := by
  induction body with
  | nil => exact ⟨[], List.not_mem_nil, trimmed_cons (by decide) rest⟩
  | cons c body ih =>
      rw [List.mem_cons, not_or] at h
      obtain ⟨line, hline, htrimmed⟩ := ih h.2
      rw [List.cons_append, trimmed, htrimmed]
      split
      · exact ⟨line, hline, rfl⟩
      · refine ⟨c :: line, ?_, rfl⟩
        rw [List.mem_cons, not_or]
        exact ⟨h.1, hline⟩

theorem InComments.ne_nil {n : Nat} {cs : List Char} (h : InComments (n + 1) cs) : cs ≠ [] := by
  cases h <;> exact List.cons_ne_nil _ _

/-- Comments are read up to where the last of them is closed. -/
theorem InComments.lex {n : Nat} {body : List Char} (h : InComments n body) (rest : List Char) :
    ∀ (opened : List Pos) (p : Pos), opened.length = n →
      ∃ p', lex p (.afterComment opened) (trimmed (body ++ rest)) = lex p' .code (trimmed rest) := by
  induction h with
  | done =>
      intro opened p hlen
      obtain rfl := List.length_eq_zero_iff.mp hlen
      exact ⟨p, rfl⟩
  | enter h ih =>
      intro opened p hlen
      obtain ⟨opener, outer, rfl⟩ := List.exists_cons_of_length_eq_add_one hlen
      rw [List.cons_append, List.cons_append, trimmed_cons (by decide), trimmed_cons (by decide), Mode.afterComment,
        Lexer.lex]
      exact ih (p :: opener :: outer) _ (congrArg (· + 1) hlen)
  | leave h ih =>
      intro opened p hlen
      obtain ⟨opener, outer, rfl⟩ := List.exists_cons_of_length_eq_add_one hlen
      rw [List.cons_append, List.cons_append, trimmed_cons (by decide), trimmed_cons (by decide), Mode.afterComment,
        Lexer.lex]
      exact ih outer _ (Nat.succ.inj hlen)
  | @other n c cs ho hc h ih =>
      intro opened p hlen
      rw [List.cons_append, trimmed]
      split
      · exact ih opened p hlen
      · obtain ⟨opener, outer, rfl⟩ := List.exists_cons_of_length_eq_add_one hlen
        obtain ⟨d, ds, rfl⟩ := List.exists_cons_of_ne_nil h.ne_nil
        -- what stands behind the character is what stood there, or a line feed
        have hnext {e : Char} (he : e ≠ '\n') {tail : List Char} (htail : trimmed (d :: ds ++ rest) = e :: tail) :
            d = e := by
          have := head?_trimmed (d :: ds ++ rest) e (by rw [htail]; rfl)
          simpa [he] using this
        rw [Mode.afterComment, Lexer.lex]
        · exact ih (opener :: outer) _ hlen
        · exact fun tail hslash htail => ho ds hslash (by rw [hnext (by decide) htail])
        · exact fun tail hstar htail => hc ds hstar (by rw [hnext (by decide) htail])

/-- What stands between tokens is skipped. -/
theorem Trivia.lex {gap : List Char} (h : Trivia gap) (rest : List Char) :
    ∀ p : Pos, ∃ p', lex p .code (trimmed (gap ++ rest)) = lex p' .code (trimmed rest) := by
  induction h with
  | nil => exact fun p => ⟨p, rfl⟩
  | @blank c cs hc h ih =>
      intro p
      obtain ⟨p', hp'⟩ := lex_trimmed_blank hc (cs ++ rest) p
      obtain ⟨p'', hp''⟩ := ih p'
      exact ⟨p'', hp'.trans hp''⟩
  | @lineComment body cs hb h ih =>
      intro p
      obtain ⟨line, hline, htrimmed⟩ := trimmed_line hb (cs ++ rest)
      obtain ⟨p', hp'⟩ := ih ((p.advance ('/' :: '/' :: line)).past '\n')
      refine ⟨p', ?_⟩
      have hskip : afterLine (line ++ '\n' :: trimmed (cs ++ rest)) = '\n' :: trimmed (cs ++ rest) :=
        (lineEnd_newline 0 _).afterLine_append hline
      have hbody : lineOf (line ++ '\n' :: trimmed (cs ++ rest)) = line :=
        (lineEnd_newline 0 _).lineOf_append hline
      rw [List.cons_append, List.cons_append, trimmed_cons (by decide), trimmed_cons (by decide), List.append_assoc,
        List.cons_append, htrimmed, Lexer.lex, hskip, hbody, lex_blank (unmarked_of_isBlank rfl _) _ rfl]
      exact hp'
  | @comment body cs hb h ih =>
      intro p
      obtain ⟨p', hp'⟩ := hb.lex (cs ++ rest) [p] (p.advance ['/', '*']) rfl
      obtain ⟨p'', hp''⟩ := ih p'
      refine ⟨p'', ?_⟩
      rw [List.cons_append, List.cons_append, trimmed_cons (by decide), trimmed_cons (by decide), Lexer.lex,
        List.append_assoc]
      exact hp'.trans hp''

/-! ### Tokens -/

/-- A blank, or the end of the text, is what follows a token. -/
def BlankAhead (rest : List Char) : Prop := ∀ c ∈ rest.head?, isBlank c = true

theorem BlankAhead.trimmed {rest : List Char} (h : BlankAhead rest) : BlankAhead (trimmed rest) := by
  intro c hc
  obtain rfl | hc := head?_trimmed rest c hc
  · rfl
  · exact h c hc

theorem longest?_of_blankAhead {cs rest : List Char} (h : BlankAhead rest) :
    Lexeme.longest? (cs ++ rest) = Lexeme.longest? cs := by
  cases rest with
  | nil => rw [List.append_nil]
  | cons b rest => exact Lexeme.longest?_append (h b rfl) rest cs

end Lexer

namespace Lexeme

open Lexer

variable {c : Char} {w : List Char} {form : Form}

/-- A token other than a string starts with no quote, and a slash in it starts no comment. -/
theorem Alone.mark (h : Alone (c :: w) form) : c ≠ '"' ∧ (c = '/' → w = [] ∨ w = ['=']) := by
  generalize hcs : c :: w = cs at h
  cases h with
  | word h =>
      subst hcs
      have hc := (Bool.and_eq_true_iff.mp h).1
      exact ⟨ne_of_test hc rfl, fun hslash => absurd hslash (ne_of_test hc rfl)⟩
  | number h =>
      subst hcs
      obtain ⟨_, _, heq, hc⟩ := h.numeral.exists_cons
      cases heq
      obtain hc | rfl := hc
      · exact ⟨ne_of_test hc rfl, fun hslash => absurd hslash (ne_of_test hc rfl)⟩
      · exact ⟨by decide, fun hslash => absurd hslash (by decide)⟩
  | symbol s =>
      have hall : ∀ s ∈ Symbol.all, s.chars.head? ≠ some '"' ∧
          (s.chars.head? = some '/' → s.chars.tail = [] ∨ s.chars.tail = ['=']) := by decide
      have := hall s s.mem_all
      rw [← hcs] at this
      simpa using this

theorem Alone.unmarked {rest : List Char} (h : Alone (c :: w) form) (hrest : BlankAhead rest) :
    Unmarked c (w ++ rest) := by
  obtain ⟨hquote, hslash⟩ := h.mark
  have hnot {d : Char} (hd : isBlank d = false) (hne : d ≠ '=') (tail : List Char) (hc : c = '/')
      (heq : w ++ rest = d :: tail) : False := by
    obtain rfl | rfl := hslash hc
    · rw [hrest d (by rw [← List.nil_append rest, heq]; rfl)] at hd
      cases hd
    · exact hne (List.cons.inj heq).1.symm
  exact ⟨hnot rfl (by decide), hnot rfl (by decide), hquote⟩

theorem Alone.isBlank_eq_false (h : Alone (c :: w) form) : isBlank c = false := by
  by_contra hc
  have hnone := longest?_append (Bool.not_eq_false _ ▸ hc) w []
  rw [List.nil_append, longest?_alone h] at hnone
  cases hnone

end Lexeme

namespace Lexer

open Log

theorem lex_alone {cs rest : List Char} {form : Lexeme.Form} {k : Token.Kind} (h : Lexeme.Alone cs form)
    (hk : ∀ span, entryOf ⟨cs, form⟩ span = .ok ⟨k, span⟩) (hrest : BlankAhead rest) (p : Pos) :
    ∃ t p', t.kind = k ∧ lex p .code (trimmed (cs ++ rest)) = .ok t :: lex p' .code (trimmed rest) := by
  have hm := Lexeme.longest?_alone h
  have hreturn : '\r' ∉ cs := Lexeme.blank_not_mem rfl hm
  obtain ⟨c, w, rfl⟩ := List.exists_cons_of_ne_nil (Lexeme.append_of_longest? hm).1
  have hahead : Lexeme.longest? (c :: (w ++ trimmed rest)) = some ⟨c :: w, form⟩ :=
    (longest?_of_blankAhead hrest.trimmed).trans hm
  refine ⟨⟨k, p, p.advance (c :: w)⟩, p.advance (c :: w), rfl, ?_⟩
  rw [trimmed_append hreturn, List.cons_append, lex_token (h.unmarked hrest.trimmed) p h.isBlank_eq_false hahead (hk _)]
  simp

theorem lex_inside {inside value : List Char} (h : Inside inside value) (rest : List Char) :
    ∀ (p start : Pos) (before : String), ∃ p', lex p (.string start before) (inside ++ '"' :: rest) =
      .ok ⟨.string (before ++ String.ofList value), ⟨start, p'⟩⟩ :: lex p' .code rest := by
  induction h with
  | nil =>
      intro p start before
      refine ⟨p.past '"', ?_⟩
      rw [List.nil_append, lex]
      simp
  | plain hq hb h ih =>
      intro p start before
      rw [List.cons_append, lex, ← push_append]
      · exact ih _ start _
      · exact hq
      · exact fun _ _ hc _ => hb hc
  | escape h ih =>
      intro p start before
      rw [List.cons_append, List.cons_append, lex, ← push_append]
      exact ih _ start _

/-- The source of a token with a blank behind it is read as the token. -/
theorem Spelled.lex {k : Token.Kind} {cs rest : List Char} (h : Spelled k cs) (hrest : BlankAhead rest) (p : Pos) :
    ∃ t p', t.kind = k ∧ lex p .code (trimmed (cs ++ rest)) = .ok t :: lex p' .code (trimmed rest) := by
  cases k with
  | word text =>
      obtain ⟨rfl, hword⟩ := h
      exact lex_alone (.word hword) (fun _ => by simp [entryOf]) hrest p
  | number text =>
      obtain ⟨rfl, hnumber⟩ := h
      exact lex_alone (.number hnumber) (fun _ => by simp [entryOf]) hrest p
  | symbol s =>
      subst h
      exact lex_alone (.symbol s) (fun _ => rfl) hrest p
  | string value =>
      obtain ⟨inside, rfl, hinside, hreturn⟩ := h
      have hfree : '\r' ∉ '"' :: (inside ++ ['"']) := by simpa using hreturn
      obtain ⟨p', hp'⟩ := lex_inside hinside (trimmed rest) (p.past '"') p ""
      rw [String.empty_append, String.ofList_toList] at hp'
      refine ⟨⟨.string value, ⟨p, p'⟩⟩, p', rfl, ?_⟩
      rw [trimmed_append hfree, List.cons_append, List.append_assoc, List.singleton_append, Lexer.lex, hp']

theorem Joined.lex {ks : List Token.Kind} {cs : List Char} (h : Joined ks cs) :
    ∀ p : Pos, ∃ ts : List Token, ts.map (·.kind) = ks ∧ lex p .code (trimmed cs) = ts.map .ok := by
  induction h with
  | nil => exact fun p => ⟨[], rfl, by rw [trimmed, Lexer.lex]; rfl⟩
  | one h =>
      intro p
      have hend : BlankAhead [] := by
        intro c hc
        cases hc
      obtain ⟨t, p', ht, hp'⟩ := h.lex hend p
      rw [List.append_nil, trimmed, Lexer.lex] at hp'
      exact ⟨[t], by rw [List.map_singleton, ht], hp'⟩
  | @more k l ks cs gap rest b h hb hgap hs ih =>
      intro p
      have hahead : BlankAhead (b :: (gap ++ rest)) := fun c hc => by
        cases hc
        exact hb
      obtain ⟨t, p', ht, hp'⟩ := h.lex hahead p
      obtain ⟨p'', hp''⟩ := (Trivia.blank hb hgap).lex rest p'
      obtain ⟨ts, hts, hlex⟩ := ih p''
      refine ⟨t :: ts, by rw [List.map_cons, ht, hts], ?_⟩
      rw [hp', ← List.cons_append, hp'', hlex, List.map_cons]

/-- The source of a token is read as this token and nothing else. -/
theorem Spelled.exists_token {k : Token.Kind} {text : String} (h : Spelled k text.toList) :
    ∃ t, tokens text = .ok [t] ∧ t.kind = k := by
  obtain ⟨ts, hkinds, hlex⟩ := (Joined.one h).lex ⟨0, 0⟩
  obtain ⟨t, rfl, hkind⟩ := List.map_eq_singleton_iff.mp hkinds
  refine ⟨t, ?_, hkind⟩
  rw [tokens_eq, Lexer.rest_fresh, hlex, Entry.upToError_tokens]

end Lexer

/-- A text of tokens with separators between them is read as just these tokens. -/
theorem tokens_of_joined {text : String} {ks : List Token.Kind} (h : Lexer.Joined ks text.toList) :
    ∃ ts, tokens text = .ok ts ∧ ts.map (·.kind) = ks := by
  obtain ⟨ts, hts, hlex⟩ := h.lex ⟨0, 0⟩
  refine ⟨ts, ?_, hts⟩
  rw [tokens_eq, Lexer.rest_fresh, hlex, Entry.upToError_tokens]

/-- A token of each kind, with comments between them. -/
theorem joined_of_each_kind :
    Lexer.Joined [.word "let", .number "0x1F", .string "q\"\n", .symbol .tripleGtEq]
      "let /*a/*b*/*/0x1F\n//c\n\"q\\\"\n\"\t>>>=".toList ∧
    ∃ ts, tokens "let /*a/*b*/*/0x1F\n//c\n\"q\\\"\n\"\t>>>=" = .ok ts ∧
      ts.map (·.kind) = [.word "let", .number "0x1F", .string "q\"\n", .symbol .tripleGtEq] := by
  have hword : Lexer.Spelled (.word "let") "let".toList := ⟨rfl, rfl⟩
  have hnumber : Lexer.Spelled (.number "0x1F") "0x1F".toList :=
    ⟨rfl, @Lexeme.IsNumber.radix 'x' 16 ['1', 'F'] rfl (by decide) (List.all_eq_true.mp rfl)⟩
  have hstring : Lexer.Spelled (.string "q\"\n") "\"q\\\"\n\"".toList :=
    ⟨['q', '\\', '"', '\n'], rfl, .plain (by decide) (by decide) (.escape (.plain (by decide) (by decide) .nil)),
      by decide⟩
  have hsymbol : Lexer.Spelled (.symbol .tripleGtEq) ">>>=".toList := rfl
  have hnested : Lexer.InComments 1 "a/*b*/*/".toList :=
    .other nofun nofun (.enter (.other nofun nofun (.leave (.leave .done))))
  have hcomment : Lexer.Trivia "/*a/*b*/*/".toList := .comment hnested .nil
  have hline : Lexer.Trivia "//c\n".toList := @Lexer.Trivia.lineComment ['c'] [] (by decide) .nil
  have hjoined : Lexer.Joined [.word "let", .number "0x1F", .string "q\"\n", .symbol .tripleGtEq]
      "let /*a/*b*/*/0x1F\n//c\n\"q\\\"\n\"\t>>>=".toList :=
    .more (b := ' ') hword rfl hcomment
      (.more (b := '\n') hnumber rfl hline (.more (b := '\t') hstring rfl .nil (.one hsymbol)))
  exact ⟨hjoined, tokens_of_joined hjoined⟩

end SoundLang
