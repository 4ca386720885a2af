import SoundLang.Proofs.Lexer.Joined
import SoundLang.Proofs.Lexer.Lazy
import SoundLang.Proofs.Lexer.Longest
import SoundLang.Proofs.Text.Quoted

/-! # Tokens that are written down

A token is written down as it could stand in a source.  What is written for a word, a number or a symbol is a source of
it (`Scanned.spelled_render`).  What is written for a string is a source of a string, but not always of the same one: a
letter behind a backslash gives its character back, while the number of a character is read as the text that it is
(`reread`).  So a string is read again just when none of its characters is shown by its number
(`rendered_read_again`). -/

namespace SoundLang

namespace Text

/-- A quoted text shows the character by its number. -/
def IsShownByNumber (c : Char) : Prop := quoteChar c = '\\' :: numberOf c

instance (c : Char) : Decidable (IsShownByNumber c) := inferInstanceAs (Decidable (quoteChar c = '\\' :: numberOf c))

end Text

namespace Lexer

open Text

/-! ### What strings are read as -/

/-- What a string is read to hold where a character of it is shown. -/
def reread (c : Char) : List Char := if IsShownByNumber c then numberOf c else [c]

section
variable {cs ds value more : List Char}

theorem Inside.append (h : Inside cs value) (h' : Inside ds more) : Inside (cs ++ ds) (value ++ more) := by
  induction h with
  | nil => exact h'
  | plain hq hb _ ih => exact .plain hq hb ih
  | escape _ ih => exact .escape ih

/-- Without quotes and backslashes a string holds what stands in it. -/
theorem inside_self (h : ∀ c ∈ cs, c ≠ '"' ∧ c ≠ '\\') : Inside cs cs := by
  induction cs with
  | nil => exact .nil
  | cons c cs ih =>
      rw [List.forall_mem_cons] at h
      exact .plain h.1.1 h.1.2 (ih h.2)

end

theorem inside_numberOf (c : Char) : Inside ('\\' :: numberOf c) (numberOf c) := by
  refine .escape (inside_self fun d hd => ?_)
  have hall : ('\x7b' :: (smallDigits ++ ['\x7d'])).all (fun d => d ≠ '"' ∧ d ≠ '\\') = true := by decide
  refine of_decide_eq_true (List.all_eq_true.mp hall d ?_)
  obtain rfl | hd := List.mem_cons.mp hd
  · exact List.mem_cons_self
  · obtain hd | hd := List.mem_append.mp hd
    · exact List.mem_cons_of_mem _ (List.mem_append_left _ (mem_smallDigits _ _ hd))
    · exact List.mem_cons_of_mem _ (List.mem_append_right _ hd)

theorem inside_quoteChar (c : Char) : Inside (quoteChar c) (reread c) := by
  have h := shownAs_quoteChar c
  have hread : reread c = if quoteChar c = '\\' :: numberOf c then numberOf c else [c] := rfl
  rw [hread]
  generalize quoteChar c = shown at h
  cases h with
  | itself hc =>
      rw [if_neg (by simp [numberOf])]
      exact inside_self (by simp_all)
  | @letter d hletter hd =>
      rw [if_neg (by simp_all [numberOf]), ← hletter]
      exact .escape .nil
  | number =>
      rw [if_pos rfl]
      exact inside_numberOf c

/-- Each character that a quoted text shows is read by itself. -/
theorem inside_quoted (cs : List Char) : Inside (cs.flatMap quoteChar) (cs.flatMap reread) := by
  induction cs with
  | nil => exact .nil
  | cons c cs ih => exact (inside_quoteChar c).append ih

theorem length_le_reread (cs : List Char) : cs.length ≤ (cs.flatMap reread).length := by
  induction cs with
  | nil => exact Nat.le_refl 0
  | cons c cs ih =>
      have hc : 1 ≤ (reread c).length := by
        unfold reread
        split <;> simp [numberOf]
      rw [List.flatMap_cons, List.length_append, List.length_cons]
      omega

/-- A text is read again just when none of its characters is shown by its number, as a number is longer than its
character. -/
theorem flatMap_reread_eq_iff {cs : List Char} : cs.flatMap reread = cs ↔ ∀ c ∈ cs, ¬ IsShownByNumber c := by
  induction cs with
  | nil => simp
  | cons c cs ih =>
      rw [List.flatMap_cons, List.forall_mem_cons, ← ih]
      by_cases hc : IsShownByNumber c
      · have hlength := length_le_reread cs
        refine iff_of_false (fun h => ?_) fun h => h.1 hc
        have := congrArg List.length h
        simp only [reread, if_pos hc, numberOf, List.length_append, List.length_cons] at this
        omega
      · simp [reread, hc]

/-- What is written for a string is read as one string. -/
theorem spelled_quoted (v : String) :
    Spelled (.string (String.ofList (v.toList.flatMap reread))) (Token.Kind.render (.string v)).toList := by
  refine ⟨v.toList.flatMap quoteChar, toList_quote v, ?_, return_notMem_shown v.toList⟩
  rw [String.toList_ofList]
  exact inside_quoted v.toList

/-! ### Tokens other than strings -/

/-- What is written for a word, a number or a symbol that was found on a line is a source of it. -/
theorem Scanned.spelled_render {line : Nat} {t : Token} (h : Scanned line (.ok t)) (hstring : ∀ v, t.kind ≠ .string v) :
    Spelled t.kind t.kind.render.toList := by
  generalize he : Except.ok t = e at h
  cases h with
  | @longest _ m hm =>
      have hkind := (entryOf_eq_ok_iff.mp he.symm).1
      have hform := Lexeme.matches_iff.mpr (Lexeme.ofForm_of_longest? hm)
      obtain ⟨kind, span⟩ := t
      obtain ⟨w, form⟩ := m
      cases form with
      | word =>
          cases hkind
          exact ⟨rfl, by simpa [Token.Kind.render] using Lexeme.matches_word.mp hform⟩
      | number =>
          cases hkind
          exact ⟨rfl, by simpa [Token.Kind.render] using Lexeme.matches_number.mp hform⟩
      | symbol s =>
          cases hkind
          exact String.toList_ofList
      | incompleteExponent | emptyRadix => cases hkind
  | unexpected => cases he
  | string value =>
      cases he
      exact absurd rfl (hstring value)

/-- Every string in quotes is read as one string, and as the same string just when none of its characters is shown by
its number.  Every other token that is served is read again from what is written for it. -/
theorem rendered_read_again :
    (∀ v : String, ∃ t w, tokens (Token.Kind.render (.string v)) = .ok [t] ∧ t.kind = .string w ∧
      (w = v ↔ ∀ c ∈ v.toList, ¬ IsShownByNumber c)) ∧
    ∀ (input : Input) (prompting : Prompting) (cs : List Call) (t : Token),
      .ok (some t) ∈ served cs (opened input prompting) → (∀ v, t.kind ≠ .string v) →
        ∃ u, tokens t.kind.render = .ok [u] ∧ u.kind = t.kind := by
  constructor
  · intro v
    obtain ⟨t, ht, hkind⟩ := (spelled_quoted v).exists_token
    refine ⟨t, _, ht, hkind, ?_⟩
    rw [← flatMap_reread_eq_iff, ← String.toList_inj, String.toList_ofList]
  · intro input prompting cs t ht hstring
    obtain ⟨line, hscanned⟩ := (tokensScanned_opened input prompting).served ht
    exact (hscanned.spelled_render hstring).exists_token

/-- All that is shown by a letter, an accent that is shown by its number, and the longest symbol. -/
theorem rendered_read_again_ofAccent :
    ((∀ c ∈ "\"\\\n\t\r\x00é".toList, ¬ IsShownByNumber c) ∧
      ∃ t, tokens (Token.Kind.render (.string "\"\\\n\t\r\x00é")) = .ok [t] ∧ t.kind = .string "\"\\\n\t\r\x00é") ∧
    (IsShownByNumber '\u0301' ∧
      ∃ t w, tokens (Token.Kind.render (.string "e\u0301")) = .ok [t] ∧ t.kind = .string w ∧ w ≠ "e\u0301") ∧
    (.ok (some ⟨.symbol .tripleGtEq, .onLine 0 1 5⟩) ∈ served [.next, .next] (opened [.line "a>>>="] .off) ∧
      ∃ u, tokens (Token.Kind.render (.symbol .tripleGtEq)) = .ok [u] ∧ u.kind = .symbol .tripleGtEq) := by
  have hall : "\"\\\n\t\r\x00é".toList.all (fun c => ¬ IsShownByNumber c) = true := by decide +kernel
  have hletters : ∀ c ∈ "\"\\\n\t\r\x00é".toList, ¬ IsShownByNumber c := fun c hc =>
    of_decide_eq_true (List.all_eq_true.mp hall c hc)
  have haccent : IsShownByNumber '\u0301' := by decide +kernel
  have hserved : .ok (some ⟨.symbol .tripleGtEq, .onLine 0 1 5⟩) ∈
      served [.next, .next] (opened [.line "a>>>="] .off) := by
    decide +kernel
  obtain ⟨t, w, ht, hkind, hsame⟩ := rendered_read_again.1 "\"\\\n\t\r\x00é"
  obtain ⟨t', w', ht', hkind', hsame'⟩ := rendered_read_again.1 "e\u0301"
  refine ⟨⟨hletters, t, ht, ?_⟩, ⟨haccent, t', w', ht', hkind', ?_⟩, hserved, ?_⟩
  · rw [hkind, hsame.mpr hletters]
  · intro h
    exact hsame'.mp h _ (by decide) haccent
  · have hagain := rendered_read_again.2 _ _ _ _ hserved nofun
    exact hagain

end Lexer

end SoundLang
