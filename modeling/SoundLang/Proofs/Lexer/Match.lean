import SoundLang.Lexer.Mode

/-! # The longest match on a line

The longest match takes a beginning of the text that is not empty (`Lexeme.append_of_longest?`).  It never looks
behind a blank: what follows one has no part in it (`Lexeme.longest?_append`).  A line feed is a blank, so a match lies
inside its line (`Lexeme.newline_not_mem`).  The text of a symbol is its spelling (`Lexeme.text_of_symbol`). -/

namespace SoundLang

namespace Lexeme

/-! ### A match is a beginning of the text -/

theorem append_of_word? {cs : List Char} {m : Lexeme} (h : word? cs = some m) :
    m.text ≠ [] ∧ m.text <+: cs := by
  cases cs with
  | nil => cases h
  | cons c cs =>
      simp only [word?] at h
      split at h
      · cases h
        exact ⟨by simp, List.cons_prefix_cons.mpr ⟨rfl, List.takeWhile_prefix _⟩⟩
      · cases h

theorem prefix_mantissa (cs : List Char) : mantissa cs <+: cs := by
  have hcs : cs.takeWhile Char.isDigit ++ cs.dropWhile Char.isDigit = cs :=
    List.takeWhile_append_dropWhile
  simp only [mantissa]
  split
  · next rest hrest =>
      split
      · exact List.nil_prefix
      · rw [hrest] at hcs
        have hfraction : '.' :: rest.takeWhile Char.isDigit <+: '.' :: rest :=
          List.cons_prefix_cons.mpr ⟨rfl, List.takeWhile_prefix _⟩
        have := (List.prefix_append_right_inj (cs.takeWhile Char.isDigit)).mpr hfraction
        rwa [hcs] at this
  · exact List.takeWhile_prefix _

theorem prefix_sign (cs : List Char) : sign cs <+: cs := by
  unfold sign
  split
  · split
    · exact List.cons_prefix_cons.mpr ⟨rfl, List.nil_prefix⟩
    · exact List.nil_prefix
  · exact List.nil_prefix

/-- A beginning, and a beginning of what is behind it. -/
theorem append_prefix {xs ys cs : List Char} (hx : xs <+: cs) (hy : ys <+: cs.drop xs.length) :
    xs ++ ys <+: cs := by
  obtain ⟨rest, rfl⟩ := hx
  rw [List.drop_left] at hy
  exact (List.prefix_append_right_inj xs).mpr hy

theorem append_of_decimal? {cs : List Char} {m : Lexeme} (h : decimal? cs = some m) :
    m.text ≠ [] ∧ m.text <+: cs := by
  simp only [decimal?] at h
  split at h
  · cases h
  · next hne =>
      split at h
      · next mark rest hrest =>
          split at h
          · cases h
            refine ⟨by simp, ?_⟩
            have hexp : sign rest ++ (rest.drop (sign rest).length).takeWhile Char.isDigit <+: rest :=
              append_prefix (prefix_sign rest) (List.takeWhile_prefix _)
            rw [List.append_assoc]
            refine append_prefix (prefix_mantissa cs) ?_
            rw [hrest]
            exact List.cons_prefix_cons.mpr ⟨rfl, hexp⟩
          · cases h
            exact ⟨hne, prefix_mantissa cs⟩
      · cases h
        exact ⟨hne, prefix_mantissa cs⟩

theorem append_of_number? {cs : List Char} {m : Lexeme} (h : number? cs = some m) :
    m.text ≠ [] ∧ m.text <+: cs := by
  unfold number? at h
  split at h
  · split at h
    · cases h
      refine ⟨by simp, ?_⟩
      simp only [List.cons_prefix_cons, true_and]
      exact List.takeWhile_prefix _
    · exact append_of_decimal? h
  · exact append_of_decimal? h

theorem chars_of_ofChars? {cs : List Char} {s : Symbol} (h : Symbol.ofChars? cs = some s) :
    s.chars = cs := by
  have := List.find?_some h
  simpa using this

theorem append_of_symbol? {cs : List Char} {m : Lexeme} (h : symbol? cs = some m) :
    m.text ≠ [] ∧ m.text <+: cs := by
  unfold symbol? at h
  obtain ⟨s, hs, rfl⟩ := Option.map_eq_some_iff.mp h
  obtain ⟨n, -, hn⟩ := List.exists_of_findSome?_eq_some hs
  refine ⟨by cases s <;> simp [Symbol.chars], ?_⟩
  rw [chars_of_ofChars? hn]
  exact List.take_prefix n cs

theorem append_of_longest? {cs : List Char} {m : Lexeme} (h : longest? cs = some m) :
    m.text ≠ [] ∧ m.text <+: cs := by
  unfold longest? at h
  obtain h | ⟨-, h⟩ := Option.or_eq_some_iff.mp h
  · exact append_of_word? h
  · obtain h | ⟨-, h⟩ := Option.or_eq_some_iff.mp h
    · exact append_of_number? h
    · exact append_of_symbol? h

/-! ### A match ends before a blank -/

/-- The characters between tokens, one by one. -/
theorem blank_cases {b : Char} (h : Lexer.isBlank b = true) :
    b = ' ' ∨ b = '\t' ∨ b = '\n' ∨ b = '\x0c' ∨ b = '\r' := by
  simpa [Lexer.isBlank, or_assoc] using h

/-- Two characters are not the same when a test tells them apart. -/
theorem ne_of_test {p : Char → Bool} {c d : Char} (hc : p c = true) (hd : p d = false) : c ≠ d := by
  rintro rfl
  rw [hc] at hd
  cases hd

section stop
variable {p : Char → Bool} {b : Char} (hp : p b = false) (rest : List Char)
include hp

theorem takeWhile_stop (cs : List Char) : (cs ++ b :: rest).takeWhile p = cs.takeWhile p := by
  induction cs with
  | nil => simp [hp]
  | cons c cs ih =>
      rw [List.cons_append, List.takeWhile_cons, List.takeWhile_cons, ih]

theorem dropWhile_stop (cs : List Char) : (cs ++ b :: rest).dropWhile p = cs.dropWhile p ++ b :: rest := by
  induction cs with
  | nil => simp [hp]
  | cons c cs ih =>
      rw [List.cons_append, List.dropWhile_cons, List.dropWhile_cons, ih]
      split <;> rfl

end stop

section blank
variable {b : Char} (hb : Lexer.isBlank b = true) (rest : List Char)
include hb

theorem isWordPart_of_isBlank : isWordPart b = false := by
  obtain rfl | rfl | rfl | rfl | rfl := blank_cases hb <;> decide

theorem isDigit_of_isBlank : b.isDigit = false := by
  obtain rfl | rfl | rfl | rfl | rfl := blank_cases hb <;> decide

/-- No number goes on with a blank. -/
theorem number_of_isBlank : b ≠ '.' ∧ ¬ (b = 'e' ∨ b = 'E') ∧ ¬ (b = '+' ∨ b = '-') ∧ Number.radix? b = none ∧
    Number.digit? b = none := by
  obtain rfl | rfl | rfl | rfl | rfl := blank_cases hb <;> decide

theorem notMem_chars_of_isBlank (s : Symbol) : b ∉ s.chars := by
  have hall : ∀ s ∈ Symbol.all, b ∉ s.chars := by
    obtain rfl | rfl | rfl | rfl | rfl := blank_cases hb <;> decide
  exact hall s s.mem_all

theorem word?_append (cs : List Char) : word? (cs ++ b :: rest) = word? cs := by
  cases cs with
  | nil =>
      have hstart : isWordStart b = false := (Bool.or_eq_false_iff.mp (isWordPart_of_isBlank hb)).1
      simp [word?, hstart]
  | cons c cs =>
      rw [List.cons_append, word?, word?, takeWhile_stop (isWordPart_of_isBlank hb)]

theorem mantissa_append (cs : List Char) : mantissa (cs ++ b :: rest) = mantissa cs := by
  have hdigit := isDigit_of_isBlank hb
  simp only [mantissa]
  rw [takeWhile_stop hdigit, dropWhile_stop hdigit]
  cases cs.dropWhile Char.isDigit with
  | nil => simp [(number_of_isBlank hb).1]
  | cons c ds =>
      by_cases hc : c = '.'
      · subst hc
        simp only [List.cons_append]
        rw [takeWhile_stop hdigit]
      · simp [hc]

theorem sign_append (cs : List Char) : sign (cs ++ b :: rest) = sign cs := by
  cases cs with
  | nil => exact if_neg (number_of_isBlank hb).2.2.1
  | cons c cs => rfl

omit hb in
theorem drop_prefix_append {xs cs : List Char} (h : xs <+: cs) :
    (cs ++ b :: rest).drop xs.length = cs.drop xs.length ++ b :: rest :=
  List.drop_append_of_le_length h.length_le

theorem decimal?_append (cs : List Char) : decimal? (cs ++ b :: rest) = decimal? cs := by
  unfold decimal?
  simp only [mantissa_append hb, drop_prefix_append rest (prefix_mantissa cs)]
  split
  · rfl
  · cases cs.drop (mantissa cs).length with
    | nil => simp only [List.nil_append, if_neg (number_of_isBlank hb).2.1]
    | cons mark ds =>
        simp only [List.cons_append, sign_append hb, drop_prefix_append rest (prefix_sign ds),
          takeWhile_stop (isDigit_of_isBlank hb)]

theorem number?_append (cs : List Char) : number? (cs ++ b :: rest) = number? cs := by
  have hdecimal := decimal?_append hb rest cs
  match cs with
  | [] =>
      have hzero : b ≠ '0' := ne_of_test hb rfl
      simpa [number?, hzero] using hdecimal
  | [c] =>
      by_cases hc : c = '0'
      · subst hc
        simpa [number?, (number_of_isBlank hb).2.2.2.1] using hdecimal
      · simpa [number?, hc] using hdecimal
  | c :: mark :: ds =>
      by_cases hc : c = '0'
      · subst hc
        simp only [List.cons_append, number?]
        split
        · next radix _ =>
            have hradix : Number.isDigit radix b = false := by
              rw [Number.isDigit, (number_of_isBlank hb).2.2.2.2, Option.any_none]
            rw [takeWhile_stop hradix]
        · exact hdecimal
      · simpa [number?, hc] using hdecimal

theorem ofChars?_of_isBlank {cs : List Char} (h : b ∈ cs) : Symbol.ofChars? cs = none := by
  cases hs : Symbol.ofChars? cs with
  | none => rfl
  | some s =>
      rw [← chars_of_ofChars? hs] at h
      exact absurd h (notMem_chars_of_isBlank hb s)

theorem symbol?_append (cs : List Char) : symbol? (cs ++ b :: rest) = symbol? cs := by
  have hnone {cs : List Char} (h : b ∈ cs) : Symbol.ofChars? cs = none := ofChars?_of_isBlank hb h
  unfold symbol?
  congr 1
  simp only [List.findSome?]
  -- where the text before the blank is short, the lengths beyond its end find nothing that its own length does not
  match cs with
  | [] =>
      have halone : Symbol.ofChars? [] = none := rfl
      simp [halone, hnone]
  | [c] => cases halone : Symbol.ofChars? [c] <;> simp [halone, hnone]
  | [c, d] => cases halone : Symbol.ofChars? [c, d] <;> simp [halone, hnone]
  | [c, d, e] => cases halone : Symbol.ofChars? [c, d, e] <;> simp [halone, hnone]
  | c :: d :: e :: f :: ds => simp

theorem longest?_append (cs : List Char) : longest? (cs ++ b :: rest) = longest? cs := by
  unfold longest?
  rw [word?_append hb, number?_append hb, symbol?_append hb]

end blank

/-- There is no blank in a match. -/
theorem blank_not_mem {b : Char} (hb : Lexer.isBlank b = true) {cs : List Char} {m : Lexeme}
    (h : longest? cs = some m) : b ∉ m.text := by
  by_cases hcs : b ∈ cs
  · obtain ⟨before, rest, rfl, hbefore⟩ := List.eq_append_cons_of_mem hcs
    rw [longest?_append hb] at h
    exact fun hm => hbefore ((append_of_longest? h).2.mem hm)
  · exact fun hm => hcs ((append_of_longest? h).2.mem hm)

/-- A match lies inside its line. -/
theorem newline_not_mem {cs : List Char} {m : Lexeme} (h : longest? cs = some m) : '\n' ∉ m.text :=
  blank_not_mem rfl h

/-! ### The text of a symbol -/

theorem form_of_word? {cs : List Char} {m : Lexeme} (h : word? cs = some m) : m.form = .word := by
  cases cs with
  | nil => cases h
  | cons c cs =>
      simp only [word?] at h
      split at h <;> cases h
      rfl

theorem form_of_number? {cs : List Char} {m : Lexeme} (h : number? cs = some m) (s : Symbol) :
    m.form ≠ .symbol s := by
  have hdecimal {cs : List Char} (h : decimal? cs = some m) : m.form ≠ .symbol s := by
    simp only [decimal?] at h
    split at h
    · cases h
    · split at h
      · split at h
        · cases h
          simp only
          split <;> simp
        · cases h
          simp
      · cases h
        simp
  unfold number? at h
  split at h
  · split at h
    · cases h
      simp only
      split <;> simp
    · exact hdecimal h
  · exact hdecimal h

theorem text_of_symbol {cs : List Char} {m : Lexeme} {s : Symbol} (h : longest? cs = some m)
    (hs : m.form = .symbol s) : m.text = s.chars := by
  unfold longest? at h
  obtain h | ⟨-, h⟩ := Option.or_eq_some_iff.mp h
  · rw [form_of_word? h] at hs
    cases hs
  · obtain h | ⟨-, h⟩ := Option.or_eq_some_iff.mp h
    · exact absurd hs (form_of_number? h s)
    · unfold symbol? at h
      obtain ⟨s', -, rfl⟩ := Option.map_eq_some_iff.mp h
      cases hs
      rfl

end Lexeme

end SoundLang
