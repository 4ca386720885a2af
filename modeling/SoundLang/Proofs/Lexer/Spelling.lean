import SoundLang.Proofs.Lexer.Text

/-! # Texts that spell tokens

A text on one line, put together from words, separators and blanks, is scanned as the tokens that it is put together
from, wherever it stands (`Lexer.SpellsAll`).  A word ends where no character follows that it could go on with, a
separator wherever it stands. -/

namespace SoundLang

namespace Lexeme

/-- The text has the form of a word. -/
def isWord : List Char → Bool
  | [] => false
  | c :: cs => isWordStart c && cs.all isWordPart

/-- A word with nothing behind it that it could go on with is the longest match. -/
theorem longest?_word {c : Char} {cs rest : List Char} (hc : isWordStart c = true)
    (hcs : cs.all isWordPart = true) (hrest : ∀ d ∈ rest.head?, isWordPart d = false) :
    longest? (c :: (cs ++ rest)) = some ⟨c :: cs, .word⟩ := by
  have hstop : rest.takeWhile isWordPart = [] := by
    cases rest with
    | nil => rfl
    | cons d rest => simp [hrest d rfl]
  have hword : word? (c :: (cs ++ rest)) = some ⟨c :: cs, .word⟩ := by
    rw [word?, if_pos hc, List.takeWhile_append_of_pos (List.all_eq_true.mp hcs), hstop, List.append_nil]
  rw [longest?, hword, Option.some_or]

theorem number?_of_not_digit {c : Char} (hc : c.isDigit = false) (hdot : c ≠ '.') (cs : List Char) :
    number? (c :: cs) = none := by
  have hdecimal : decimal? (c :: cs) = none := by
    simp only [decimal?, mantissa, List.takeWhile_cons, List.dropWhile_cons, hc, Bool.false_eq_true, if_false]
    split
    · next h => exact absurd (List.cons.inj h).1 hdot
    · rfl
  unfold number?
  split
  · next h =>
      obtain ⟨rfl, -⟩ := List.cons.inj h
      cases hc
  · exact hdecimal

/-- Symbols of one character with which no other symbol starts. -/
def separators : List Symbol := [.lparen, .rparen, .lbracket, .rbracket, .comma, .colon, .semicolon]

theorem ofChars?_separator {s : Symbol} (hs : s ∈ separators) {c : Char} (hc : s.chars = [c]) (cs : List Char) :
    Symbol.ofChars? (c :: cs) = if cs = [] then some s else none := by
  split
  · next h => rw [h, ← hc, Symbol.ofChars?_chars]
  · next h =>
      cases ho : Symbol.ofChars? (c :: cs) with
      | none => rfl
      | some o =>
          have hchars := chars_of_ofChars? ho
          have halone : ∀ s ∈ separators, ∀ o ∈ Symbol.all, o.chars.head? = s.chars.head? → o.chars = s.chars := by
            decide
          have := halone s hs o o.mem_all (by rw [hchars, hc]; rfl)
          rw [hchars, hc] at this
          exact absurd (List.cons.inj this).2 h

/-- A separator is the longest match wherever it stands. -/
theorem longest?_separator {s : Symbol} (hs : s ∈ separators) {c : Char} (hc : s.chars = [c]) (rest : List Char) :
    longest? (c :: rest) = some ⟨s.chars, .symbol s⟩ := by
  have hall : ∀ s ∈ separators, s.chars.all fun c => !isWordStart c && !c.isDigit && c != '.' := by
    decide
  obtain ⟨⟨hword, hdigit⟩, hdot⟩ : (isWordStart c = false ∧ c.isDigit = false) ∧ c ≠ '.' := by
    simpa [hc] using hall s hs
  rw [longest?, word?, if_neg (by simp [hword]), Option.none_or, number?_of_not_digit hdigit hdot, Option.none_or,
    symbol?]
  have hfind : [4, 3, 2, 1].findSome? (fun n => Symbol.ofChars? ((c :: rest).take n)) = some s := by
    simp only [List.findSome?_cons, List.take_succ_cons, ofChars?_separator hs hc]
    cases rest <;> simp
  rw [hfind, Option.map_some]

end Lexeme

namespace Lexer

/-- Scanned from any place on, the text gives just tokens, of the kinds `ks`. -/
structure SpellsAll (cs : List Char) (ks : List Token.Kind) : Prop where
  oneLine : '\n' ∉ cs
  scans : ∀ line byte, ∃ ts : List Token, ts.map (·.kind) = ks ∧ scan line byte .code cs = (ts.map .ok, .code)

section
variable {tail : List Char} {ks : List Token.Kind}

theorem spellsAll_nil : SpellsAll [] [] where
  oneLine := by simp
  scans _ _ := ⟨[], rfl, by rw [scan]; rfl⟩

theorem SpellsAll.blank (h : SpellsAll tail ks) : SpellsAll (' ' :: tail) ks where
  oneLine := by simpa using h.oneLine
  scans line byte := by
    have hu : Unmarked ' ' tail := ⟨by simp, by simp, by simp⟩
    rw [scan_blank hu line byte rfl]
    exact h.scans line (byte + 1)

/-- The longest match stands for one token. -/
theorem SpellsAll.token {c : Char} {w : List Char} {form : Lexeme.Form} {k : Token.Kind}
    (hm : Lexeme.longest? (c :: (w ++ tail)) = some ⟨c :: w, form⟩)
    (hk : ∀ span, entryOf ⟨c :: w, form⟩ span = .ok ⟨k, span⟩) (hb : isBlank c = false)
    (hslash : c ≠ '/') (hquote : c ≠ '"') (h : SpellsAll tail ks) : SpellsAll (c :: w ++ tail) (k :: ks) where
  oneLine := by
    have := Lexeme.newline_not_mem hm
    simp only [List.mem_append, not_or]
    exact ⟨this, h.oneLine⟩
  scans line byte := by
    have hu : Unmarked c (w ++ tail) := ⟨fun _ h _ => hslash h, fun _ h _ => hslash h, hquote⟩
    obtain ⟨ts, hts, hscan⟩ := h.scans line (byte + Text.size (c :: w))
    refine ⟨⟨k, .onLine line byte (byte + Text.size (c :: w))⟩ :: ts, by simp [hts], ?_⟩
    have hdrop : (w ++ tail).drop ((c :: w).length - 1) = tail := by simp
    rw [List.cons_append, scan_token hu line byte hb hm (hk _), hdrop, hscan]
    rfl

theorem SpellsAll.separator {s : Symbol} {c : Char} (hs : s ∈ Lexeme.separators) (hc : s.chars = [c])
    (h : SpellsAll tail ks) : SpellsAll (c :: tail) (.symbol s :: ks) := by
  have hall : ∀ s ∈ Lexeme.separators, s.chars.all fun c => !isBlank c && c != '/' && c != '"' := by
    decide
  obtain ⟨⟨hb, hslash⟩, hquote⟩ : (isBlank c = false ∧ c ≠ '/') ∧ c ≠ '"' := by
    simpa [hc] using hall s hs
  have hm := Lexeme.longest?_separator hs hc tail
  rw [hc] at hm
  exact SpellsAll.token (w := []) hm (fun _ => rfl) hb hslash hquote h

theorem SpellsAll.word {w : String} (hword : Lexeme.isWord w.toList = true)
    (htail : ∀ d ∈ tail.head?, Lexeme.isWordPart d = false) (h : SpellsAll tail ks) :
    SpellsAll (w.toList ++ tail) (.word w :: ks) := by
  rw [← w.ofList_toList, String.toList_ofList]
  cases hcs : w.toList with
  | nil =>
      rw [hcs] at hword
      cases hword
  | cons c cs =>
      rw [hcs, Lexeme.isWord, Bool.and_eq_true] at hword
      obtain ⟨hc, hcs⟩ := hword
      have hnot {d : Char} (hd : Lexeme.isWordStart d = false) : c ≠ d := Lexeme.ne_of_test hc hd
      refine h.token (Lexeme.longest?_word hc hcs htail) (fun _ => rfl) ?_ (hnot rfl) (hnot rfl)
      simp only [isBlank, Bool.or_eq_false_iff, beq_eq_false_iff_ne]
      exact ⟨⟨⟨⟨hnot rfl, hnot rfl⟩, hnot rfl⟩, hnot rfl⟩, hnot rfl⟩

end

/-! ### A whole text -/

theorem pieces_of_oneLine {cs : List Char} (h : '\n' ∉ cs) : Log.pieces cs = [cs] := by
  induction cs with
  | nil => rfl
  | cons c cs ih =>
      rw [List.mem_cons, not_or] at h
      rw [Log.pieces_cons, if_neg (Ne.symm h.1), ih h.2]
      rfl

theorem trimmed_of_oneLine {cs : List Char} (h : '\n' ∉ cs) (hlast : cs.getLast? ≠ some '\r') :
    Log.trimmed cs = cs := by
  rw [← Log.intercalate_trimmed_pieces, pieces_of_oneLine h, List.map_singleton, Log.dropLast, if_neg hlast,
    List.intercalate_singleton]

/-- A text that spells tokens has just these tokens. -/
theorem SpellsAll.rest_fresh {text : String} {ks : List Token.Kind} (h : SpellsAll text.toList ks)
    (hlast : text.toList.getLast? ≠ some '\r') :
    ∃ ts : List Token, ts.map (·.kind) = ks ∧ (fresh text).rest = ts.map .ok := by
  obtain ⟨ts, hts, hscan⟩ := h.scans 0 0
  refine ⟨ts, hts, ?_⟩
  have hline := feedAll_eq_lex (List.forall_mem_singleton.mpr h.oneLine) 0 .code
  rw [List.intercalate_singleton] at hline
  rw [Lexer.rest_fresh, trimmed_of_oneLine h.oneLine hlast, ← hline]
  simp [feedAll, feed, hscan, Mode.ending, Mode.finish?]

end Lexer

end SoundLang
