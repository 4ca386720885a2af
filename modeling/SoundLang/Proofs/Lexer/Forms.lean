import Mathlib.Data.List.TakeWhile
import SoundLang.Proofs.Lexer.Spelling

/-! # Words, numbers and symbols by themselves

Each text that has the form of a word, of a number (`Lexeme.IsNumber`) or of a symbol is its own longest match, of that
form (`Lexeme.longest?_alone`).  So is a number that lacks the digits of its exponent or of its base (`Lexeme.Numeral`,
`Lexeme.longest?_numeral`). -/

namespace SoundLang

namespace Lexeme

/-- Digits, with a decimal point among or around them. -/
inductive IsMantissa : List Char → Prop
  | whole {ds : List Char} (hne : ds ≠ []) (hds : ∀ c ∈ ds, c.isDigit = true) : IsMantissa ds
  | point {ds fs : List Char} (hne : ds ≠ [] ∨ fs ≠ []) (hds : ∀ c ∈ ds, c.isDigit = true)
      (hfs : ∀ c ∈ fs, c.isDigit = true) : IsMantissa (ds ++ '.' :: fs)

/-- The text has the form of a number: digits behind a radix mark, or a mantissa with or without an exponent. -/
inductive IsNumber : List Char → Prop
  | radix {mark : Char} {radix : Nat} {ds : List Char} (hmark : Number.radix? mark = some radix) (hne : ds ≠ [])
      (hds : ∀ c ∈ ds, Number.isDigit radix c = true) : IsNumber ('0' :: mark :: ds)
  | plain {m : List Char} (hm : IsMantissa m) : IsNumber m
  | scaled {m sign ds : List Char} {mark : Char} (hm : IsMantissa m) (hmark : mark = 'e' ∨ mark = 'E')
      (hsign : sign = [] ∨ sign = ['+'] ∨ sign = ['-']) (hne : ds ≠ []) (hds : ∀ c ∈ ds, c.isDigit = true) :
      IsNumber (m ++ mark :: (sign ++ ds))

/-! ### Numbers -/

section
variable {p : Char → Bool} {ds rest : List Char}

theorem takeWhile_run (hds : ∀ c ∈ ds, p c = true) (hrest : ∀ c ∈ rest.head?, p c = false) :
    (ds ++ rest).takeWhile p = ds := by
  rw [List.takeWhile_append_of_pos hds]
  cases rest with
  | nil => simp
  | cons c rest => simp [hrest c rfl]

theorem dropWhile_run (hds : ∀ c ∈ ds, p c = true) (hrest : ∀ c ∈ rest.head?, p c = false) :
    (ds ++ rest).dropWhile p = rest := by
  rw [List.dropWhile_append_of_pos hds]
  cases rest with
  | nil => rfl
  | cons c rest => simp [hrest c rfl]

end

namespace IsMantissa

variable {m rest : List Char}

theorem ne_nil (h : IsMantissa m) : m ≠ [] := by
  cases h with
  | whole hne _ => exact hne
  | point => simp

theorem of_mem (h : IsMantissa m) {c : Char} (hc : c ∈ m) : c.isDigit = true ∨ c = '.' := by
  cases h with
  | whole _ hds => exact .inl (hds c hc)
  | point _ hds hfs =>
      obtain hc | hc := List.mem_append.mp hc
      · exact .inl (hds c hc)
      · obtain rfl | hc := List.mem_cons.mp hc
        · exact .inr rfl
        · exact .inl (hfs c hc)

/-- The mantissa of a text is all that has its form. -/
theorem mantissa_append (h : IsMantissa m) (hrest : ∀ c ∈ rest.head?, c.isDigit = false ∧ c ≠ '.') :
    mantissa (m ++ rest) = m := by
  have hstop : ∀ c ∈ rest.head?, c.isDigit = false := fun c hc => (hrest c hc).1
  cases h with
  | whole _ hds =>
      simp only [mantissa, takeWhile_run hds hstop, dropWhile_run hds hstop]
      split
      · next tail => exact absurd rfl (hrest '.' rfl).2
      · rfl
  | @point ds fs hne hds hfs =>
      have hpoint : ∀ c ∈ ('.' :: (fs ++ rest)).head?, c.isDigit = false := fun c hc => by
        cases hc
        rfl
      have hwhole : ¬ (ds = [] ∧ fs = []) := by
        rintro ⟨rfl, rfl⟩
        simp at hne
      rw [List.append_assoc, List.cons_append]
      simp only [mantissa, takeWhile_run hds hpoint, dropWhile_run hds hpoint, takeWhile_run hfs hstop, if_neg hwhole]

end IsMantissa

theorem sign_append_digits {sign ds : List Char} (hsign : sign = [] ∨ sign = ['+'] ∨ sign = ['-'])
    (hds : ∀ c ∈ ds, c.isDigit = true) : Lexeme.sign (sign ++ ds) = sign := by
  obtain rfl | rfl | rfl := hsign
  · cases ds with
    | nil => rfl
    | cons d ds =>
        have hd := hds d List.mem_cons_self
        have hnot : ¬ (d = '+' ∨ d = '-') := by
          rintro (rfl | rfl) <;> cases hd
        rw [List.nil_append, Lexeme.sign, if_neg hnot]
  · rfl
  · rfl

theorem decimal?_plain {m : List Char} (hm : IsMantissa m) : decimal? m = some ⟨m, .number⟩ := by
  have hmantissa : mantissa m = m := by
    have := @IsMantissa.mantissa_append m [] hm nofun
    rwa [List.append_nil] at this
  simp only [decimal?, hmantissa, if_neg hm.ne_nil, List.drop_length]

/-- Behind the mark of an exponent its sign and its digits are taken. -/
theorem decimal?_marked {m : List Char} {mark : Char} (hm : IsMantissa m) (hmark : mark = 'e' ∨ mark = 'E')
    (rest : List Char) :
    decimal? (m ++ mark :: rest) =
      some ⟨m ++ mark :: (sign rest ++ (rest.drop (sign rest).length).takeWhile Char.isDigit),
        if (rest.drop (sign rest).length).takeWhile Char.isDigit = [] then .incompleteExponent else .number⟩ := by
  have hmantissa : mantissa (m ++ mark :: rest) = m := hm.mantissa_append fun c hc => by
    cases hc
    obtain rfl | rfl := hmark <;> decide
  simp only [decimal?, hmantissa, if_neg hm.ne_nil, List.drop_left, if_pos hmark, List.append_assoc, List.cons_append]

/-- Without a radix mark a number is a decimal one. -/
theorem number?_eq_decimal? {cs : List Char} (h : ∀ c ∈ cs, Number.radix? c = none) : number? cs = decimal? cs := by
  unfold number?
  split
  · next mark tail => rw [h mark (by simp)]
  · rfl

theorem radix?_of_isDigit {c : Char} (h : c.isDigit = true) : Number.radix? c = none := by
  unfold Number.radix?
  split
  · cases h
  · cases h
  · cases h
  · rfl

theorem IsMantissa.radix? {m : List Char} (h : IsMantissa m) {c : Char} (hc : c ∈ m) : Number.radix? c = none := by
  obtain hd | rfl := h.of_mem hc
  · exact radix?_of_isDigit hd
  · rfl

/-- The text has the form of a number that is finished, or lacks the digits of its exponent or of its base. -/
inductive Numeral : Form → List Char → Prop
  | plain {m : List Char} (hm : IsMantissa m) : Numeral .number m
  | scaled {m sign ds : List Char} {mark : Char} (hm : IsMantissa m) (hmark : mark = 'e' ∨ mark = 'E')
      (hsign : sign = [] ∨ sign = ['+'] ∨ sign = ['-']) (hds : ∀ c ∈ ds, c.isDigit = true) :
      Numeral (if ds = [] then .incompleteExponent else .number) (m ++ mark :: (sign ++ ds))
  | radix {mark : Char} {radix : Nat} {ds : List Char} (hmark : Number.radix? mark = some radix)
      (hds : ∀ c ∈ ds, Number.isDigit radix c = true) :
      Numeral (if ds = [] then .emptyRadix else .number) ('0' :: mark :: ds)

/-- No radix mark stands among the parts of a decimal number. -/
theorem radix?_of_scaled {m sign ds : List Char} {mark : Char} (hm : IsMantissa m) (hmark : mark = 'e' ∨ mark = 'E')
    (hsign : sign = [] ∨ sign = ['+'] ∨ sign = ['-']) (hds : ∀ c ∈ ds, c.isDigit = true) :
    ∀ c ∈ m ++ mark :: (sign ++ ds), Number.radix? c = none := by
  have hmarks : ∀ c ∈ mark :: sign, Number.radix? c = none := by
    obtain rfl | rfl := hmark <;> obtain rfl | rfl | rfl := hsign <;> simp [Number.radix?]
  intro c hc
  rw [← List.cons_append] at hc
  obtain hc | hc := List.mem_append.mp hc
  · exact hm.radix? hc
  · obtain hc | hc := List.mem_append.mp hc
    · exact hmarks c hc
    · exact radix?_of_isDigit (hds c hc)

/-- A number is taken as a whole, finished or not. -/
theorem number?_numeral {form : Form} {cs : List Char} (h : Numeral form cs) : number? cs = some ⟨cs, form⟩ := by
  cases h with
  | plain hm =>
      rw [number?_eq_decimal? fun c hc => hm.radix? hc]
      exact decimal?_plain hm
  | @scaled m sign ds mark hm hmark hsign hds =>
      have hexponent : ds.takeWhile Char.isDigit = ds := List.takeWhile_eq_self_iff.mpr hds
      rw [number?_eq_decimal? (radix?_of_scaled hm hmark hsign hds), decimal?_marked hm hmark,
        sign_append_digits hsign hds, List.drop_left, hexponent]
  | @radix mark radix ds hmark hds =>
      have hdigits : ds.takeWhile (Number.isDigit radix) = ds := List.takeWhile_eq_self_iff.mpr hds
      simp only [number?, hmark, hdigits]

theorem IsNumber.numeral {cs : List Char} (h : IsNumber cs) : Numeral .number cs := by
  cases h with
  | radix hmark hne hds => simpa only [if_neg hne] using Numeral.radix hmark hds
  | plain hm => exact .plain hm
  | scaled hm hmark hsign hne hds => simpa only [if_neg hne] using Numeral.scaled hm hmark hsign hds

/-- A number starts with a digit or with the decimal point. -/
theorem Numeral.exists_cons {form : Form} {cs : List Char} (h : Numeral form cs) :
    ∃ c tail, cs = c :: tail ∧ (c.isDigit = true ∨ c = '.') := by
  have hmantissa {m : List Char} (hm : IsMantissa m) (more : List Char) :
      ∃ c tail, m ++ more = c :: tail ∧ (c.isDigit = true ∨ c = '.') := by
    obtain ⟨c, m, rfl⟩ := List.exists_cons_of_ne_nil hm.ne_nil
    exact ⟨c, m ++ more, rfl, hm.of_mem List.mem_cons_self⟩
  cases h with
  | plain hm => simpa using hmantissa hm []
  | scaled hm => exact hmantissa hm _
  | radix => exact ⟨_, _, rfl, .inl rfl⟩

/-! ### The longest match -/

/-- The form that a text has by itself. -/
inductive Alone : List Char → Form → Prop
  | word {cs : List Char} (h : isWord cs = true) : Alone cs .word
  | number {cs : List Char} (h : IsNumber cs) : Alone cs .number
  | symbol (s : Symbol) : Alone s.chars (.symbol s)

theorem isWordStart_of_isDigit {c : Char} (h : c.isDigit = true) : isWordStart c = false := by
  have hdigit : c.val ≤ '9'.val := of_decide_eq_true (Bool.and_eq_true_iff.mp h).2
  have hupper : c.isUpper = false := by
    apply decide_eq_false
    rintro ⟨hle, -⟩
    exact absurd (UInt32.le_trans hle hdigit) (by decide)
  have hlower : c.isLower = false := by
    apply Bool.and_eq_false_iff.mpr
    left
    apply decide_eq_false
    intro hle
    exact absurd (UInt32.le_trans hle hdigit) (by decide)
  have halpha : c.isAlpha = false := Bool.or_eq_false_iff.mpr ⟨hupper, hlower⟩
  simp only [isWordStart, halpha, Bool.false_or, Bool.or_eq_false_iff, beq_eq_false_iff_ne]
  exact ⟨ne_of_test h rfl, ne_of_test h rfl⟩

/-- No word starts where a number does. -/
theorem Numeral.word?_append {form : Form} {cs : List Char} (h : Numeral form cs) (rest : List Char) :
    word? (cs ++ rest) = none := by
  obtain ⟨c, tail, rfl, hc⟩ := h.exists_cons
  have hstart : isWordStart c = false := by
    obtain hc | rfl := hc
    · exact isWordStart_of_isDigit hc
    · rfl
  exact if_neg (by simp [hstart])

theorem longest?_numeral {form : Form} {cs : List Char} (h : Numeral form cs) : longest? cs = some ⟨cs, form⟩ := by
  have hword := h.word?_append []
  rw [List.append_nil] at hword
  rw [longest?, hword, number?_numeral h, Option.none_or, Option.some_or]

/-- A text that is a word, a number or a symbol by itself is its own longest match. -/
theorem longest?_alone {cs : List Char} {form : Form} (h : Alone cs form) : longest? cs = some ⟨cs, form⟩ := by
  cases h with
  | word h =>
      cases cs with
      | nil => cases h
      | cons c cs =>
          rw [isWord, Bool.and_eq_true] at h
          have hend : ∀ d ∈ ([] : List Char).head?, isWordPart d = false := by
            intro d hd
            cases hd
          have hword := longest?_word h.1 h.2 hend
          rwa [List.append_nil] at hword
  | number h => exact longest?_numeral h.numeral
  | symbol s => cases s <;> rfl

end Lexeme

end SoundLang
