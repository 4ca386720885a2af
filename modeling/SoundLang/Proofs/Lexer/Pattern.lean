import Mathlib.Computability.RegularExpressions
import SoundLang.Proofs.Lexer.Forms

/-! # The patterns of words, numbers and symbols

Each form of a match is declared by regular expressions (`Lexeme.Form.patterns`).  What they match, told without them,
is `Lexeme.OfForm` (`Lexeme.matches_iff`). -/

namespace SoundLang

namespace Lexeme

open RegularExpression (char star)

/-! ### Patterns -/

namespace Pattern

/-- The characters from the first to the last. -/
def range (first last : Char) : List Char :=
  (List.range' first.toNat (last.toNat + 1 - first.toNat)).map Char.ofNat

/-- One of the characters. -/
def oneOf (cs : List Char) : RegularExpression Char := (cs.map char).sum

/-- Any number of the characters, perhaps none. -/
def anyOf (cs : List Char) : RegularExpression Char := star (oneOf cs)

/-- At least one of the characters. -/
def someOf (cs : List Char) : RegularExpression Char := oneOf cs * anyOf cs

/-- The pattern or nothing. -/
def optional (p : RegularExpression Char) : RegularExpression Char := 1 + p

/-- The characters one after the other. -/
def literal (cs : List Char) : RegularExpression Char := (cs.map char).prod

variable {w cs : List Char} {c : Char} {p q : RegularExpression Char}

theorem le_iff_toNat {a b : Char} : a ≤ b ↔ a.toNat ≤ b.toNat := by
  rw [Char.le_def, UInt32.le_iff_toNat_le]
  rfl

theorem mem_range {first last : Char} (h : last.toNat < 0xd800) : c ∈ range first last ↔ first ≤ c ∧ c ≤ last := by
  simp only [range, List.mem_map, List.mem_range'_1, le_iff_toNat]
  constructor
  · rintro ⟨n, hn, rfl⟩
    have hvalid : n.isValidChar := .inl (by omega)
    have hn' : (Char.ofNat n).toNat = n := by
      rw [Char.ofNat, dif_pos hvalid]
      rfl
    omega
  · rintro hc
    exact ⟨c.toNat, by omega, Char.ofNat_toNat c⟩

theorem mem_oneOf : w ∈ (oneOf cs).matches' ↔ ∃ c ∈ cs, w = [c] := by
  induction cs with
  | nil => exact ⟨nofun, nofun⟩
  | cons c cs ih =>
      have hsplit : w ∈ (oneOf (c :: cs)).matches' ↔ w = [c] ∨ w ∈ (oneOf cs).matches' := Iff.rfl
      rw [hsplit, ih, List.exists_mem_cons_iff]

theorem mem_anyOf : w ∈ (anyOf cs).matches' ↔ ∀ c ∈ w, c ∈ cs := by
  rw [anyOf, RegularExpression.matches'_star, Language.mem_kstar]
  constructor
  · rintro ⟨ws, rfl, hws⟩ c hc
    obtain ⟨v, hv, hc⟩ := List.mem_flatten.mp hc
    obtain ⟨d, hd, rfl⟩ := mem_oneOf.mp (hws v hv)
    rwa [List.mem_singleton.mp hc]
  · intro h
    refine ⟨w.map fun c => [c], by simp [← List.flatMap_def], ?_⟩
    simp only [List.forall_mem_map]
    exact fun c hc => mem_oneOf.mpr ⟨c, h c hc, rfl⟩

theorem mem_optional : w ∈ (optional p).matches' ↔ w = [] ∨ w ∈ p.matches' := Iff.rfl

theorem mem_mul : w ∈ (p * q).matches' ↔ ∃ u ∈ p.matches', ∃ v ∈ q.matches', u ++ v = w := Language.mem_mul

theorem mem_char_mul : w ∈ (char c * p).matches' ↔ ∃ v ∈ p.matches', w = c :: v := by
  rw [mem_mul]
  constructor
  · rintro ⟨_, rfl, v, hv, rfl⟩
    exact ⟨v, hv, rfl⟩
  · rintro ⟨v, hv, rfl⟩
    exact ⟨[c], rfl, v, hv, rfl⟩

theorem mem_oneOf_mul : w ∈ (oneOf cs * p).matches' ↔ ∃ c ∈ cs, ∃ v ∈ p.matches', w = c :: v := by
  rw [mem_mul]
  constructor
  · rintro ⟨u, hu, v, hv, rfl⟩
    obtain ⟨c, hc, rfl⟩ := mem_oneOf.mp hu
    exact ⟨c, hc, v, hv, rfl⟩
  · rintro ⟨c, hc, v, hv, rfl⟩
    exact ⟨[c], mem_oneOf.mpr ⟨c, hc, rfl⟩, v, hv, rfl⟩

theorem mem_someOf : w ∈ (someOf cs).matches' ↔ w ≠ [] ∧ ∀ c ∈ w, c ∈ cs := by
  rw [someOf, mem_oneOf_mul]
  cases w with
  | nil => simp
  | cons c w => simp [mem_anyOf]

theorem mem_literal : w ∈ (literal cs).matches' ↔ w = cs := by
  induction cs generalizing w with
  | nil => exact Iff.rfl
  | cons c cs ih =>
      have hsplit : w ∈ (literal (c :: cs)).matches' ↔ w ∈ (char c * literal cs).matches' := Iff.rfl
      simp only [hsplit, mem_char_mul, ih, exists_eq_left]

/-- Digits. -/
def digits : List Char := range '0' '9'

/-- What a word starts with. -/
def wordStart : List Char := range 'A' 'Z' ++ range 'a' 'z' ++ ['_', '$']

/-- Digits with perhaps a point behind the first of them. -/
def whole : RegularExpression Char := someOf digits * optional (char '.' * anyOf digits)

/-- Digits behind a point. -/
def fraction : RegularExpression Char := char '.' * someOf digits

/-- The mark of an exponent, with its sign. -/
def exponentMark : RegularExpression Char := oneOf ['e', 'E'] * optional (oneOf ['+', '-'])

end Pattern

open Pattern

/-- The patterns that are declared for a form. -/
def Form.patterns : Form → List (RegularExpression Char)
  | .word => [oneOf wordStart * anyOf (wordStart ++ digits)]
  | .number => [whole * optional (exponentMark * someOf digits), fraction * optional (exponentMark * someOf digits),
      char '0' * (char 'b' * someOf (range '0' '1')), char '0' * (char 'o' * someOf (range '0' '7')),
      char '0' * (char 'x' * someOf (range '0' '9' ++ range 'a' 'f' ++ range 'A' 'F'))]
  | .incompleteExponent => [whole * exponentMark, fraction * exponentMark]
  | .emptyRadix => [char '0' * oneOf ['b', 'o', 'x']]
  | .symbol s => [literal s.chars]

/-- The text matches one of the patterns of the form. -/
def Form.Matches (form : Form) (w : List Char) : Prop := ∃ p ∈ form.patterns, w ∈ p.matches'

/-! ### Classes of characters -/

section
variable {c : Char} {w : List Char}

theorem mem_digits : c ∈ digits ↔ c.isDigit = true := by
  rw [digits, mem_range (by decide), Char.isDigit, Bool.and_eq_true, decide_eq_true_iff, decide_eq_true_iff]
  rfl

theorem mem_wordStart : c ∈ wordStart ↔ isWordStart c = true := by
  have hupper : c ∈ range 'A' 'Z' ↔ c.isUpper = true := (mem_range (by decide)).trans decide_eq_true_iff.symm
  have hlower : c ∈ range 'a' 'z' ↔ c.isLower = true := by
    rw [mem_range (by decide)]
    exact (Bool.and_eq_true_iff.trans (and_congr decide_eq_true_iff decide_eq_true_iff)).symm
  have halpha : c.isAlpha = (c.isUpper || c.isLower) := rfl
  simp [wordStart, hupper, hlower, isWordStart, halpha, or_assoc]

theorem mem_wordPart : c ∈ wordStart ++ digits ↔ isWordPart c = true := by
  rw [List.mem_append, mem_wordStart, mem_digits, isWordPart, Bool.or_eq_true]

theorem isDigit_iff {radix : Nat} : Number.isDigit radix c = true ↔
    ('0' ≤ c ∧ c ≤ '9' ∧ c.toNat < 48 + radix) ∨ ('a' ≤ c ∧ c ≤ 'f' ∧ c.toNat < 87 + radix) ∨
      ('A' ≤ c ∧ c ≤ 'F' ∧ c.toNat < 55 + radix) := by
  simp only [Number.isDigit, Number.digit?, le_iff_toNat, Char.reduceToNat]
  split
  · simp only [Option.any_some, decide_eq_true_iff]
    omega
  · split
    · simp only [Option.any_some, decide_eq_true_iff]
      omega
    · split
      · simp only [Option.any_some, decide_eq_true_iff]
        omega
      · simp only [Option.any_none, Bool.false_eq_true, false_iff]
        omega

theorem mem_binary : c ∈ range '0' '1' ↔ Number.isDigit 2 c = true := by
  rw [mem_range (by decide), isDigit_iff]
  simp only [le_iff_toNat, Char.reduceToNat]
  omega

theorem mem_octal : c ∈ range '0' '7' ↔ Number.isDigit 8 c = true := by
  rw [mem_range (by decide), isDigit_iff]
  simp only [le_iff_toNat, Char.reduceToNat]
  omega

theorem mem_hexadecimal : c ∈ range '0' '9' ++ range 'a' 'f' ++ range 'A' 'F' ↔ Number.isDigit 16 c = true := by
  rw [List.mem_append, List.mem_append, mem_range (by decide), mem_range (by decide), mem_range (by decide),
    isDigit_iff]
  simp only [le_iff_toNat, Char.reduceToNat]
  omega

end

/-! ### What the patterns match -/

/-- The text has the form of a word, of a number, finished or not, or of a symbol. -/
inductive OfForm : Form → List Char → Prop
  | word {w : List Char} (h : isWord w = true) : OfForm .word w
  | numeral {form : Form} {w : List Char} (h : Numeral form w) : OfForm form w
  | symbol (s : Symbol) : OfForm (.symbol s) s.chars

variable {w : List Char}

theorem mem_word : w ∈ (oneOf wordStart * anyOf (wordStart ++ digits)).matches' ↔ isWord w = true := by
  rw [mem_oneOf_mul]
  simp only [mem_anyOf, mem_wordStart, mem_wordPart]
  constructor
  · rintro ⟨c, hc, v, hv, rfl⟩
    rw [isWord, hc, Bool.true_and, List.all_eq_true]
    exact hv
  · intro h
    cases w with
    | nil => cases h
    | cons c v =>
        rw [isWord, Bool.and_eq_true, List.all_eq_true] at h
        exact ⟨c, h.1, v, h.2, rfl⟩

theorem mem_someOf_digits : w ∈ (someOf digits).matches' ↔ w ≠ [] ∧ ∀ c ∈ w, c.isDigit = true := by
  rw [mem_someOf]
  simp only [mem_digits]

theorem mem_fraction : w ∈ fraction.matches' ↔ ∃ fs, fs ≠ [] ∧ (∀ c ∈ fs, c.isDigit = true) ∧ w = '.' :: fs := by
  rw [fraction, mem_char_mul]
  simp only [mem_someOf_digits, and_assoc]

theorem mem_whole : w ∈ whole.matches' ↔ ∃ ds, ds ≠ [] ∧ (∀ c ∈ ds, c.isDigit = true) ∧
    (w = ds ∨ ∃ fs, (∀ c ∈ fs, c.isDigit = true) ∧ w = ds ++ '.' :: fs) := by
  rw [whole, mem_mul]
  simp only [mem_someOf_digits, and_assoc]
  refine exists_congr fun ds => and_congr_right fun _ => and_congr_right fun _ => ?_
  constructor
  · rintro ⟨v, hv, rfl⟩
    obtain rfl | hv := mem_optional.mp hv
    · exact .inl (List.append_nil ds)
    · obtain ⟨fs, hfs, rfl⟩ := mem_char_mul.mp hv
      exact .inr ⟨fs, fun c hc => mem_digits.mp (mem_anyOf.mp hfs c hc), rfl⟩
  · rintro (rfl | ⟨fs, hfs, rfl⟩)
    · exact ⟨[], mem_optional.mpr (.inl rfl), List.append_nil w⟩
    · exact ⟨'.' :: fs, mem_optional.mpr (.inr (mem_char_mul.mpr
        ⟨fs, mem_anyOf.mpr fun c hc => mem_digits.mpr (hfs c hc), rfl⟩)), rfl⟩

theorem isMantissa_iff : IsMantissa w ↔ w ∈ whole.matches' ∨ w ∈ fraction.matches' := by
  rw [mem_whole, mem_fraction]
  constructor
  · rintro (⟨hne, hds⟩ | @⟨ds, fs, hne, hds, hfs⟩)
    · exact .inl ⟨w, hne, hds, .inl rfl⟩
    · by_cases hd : ds = []
      · subst hd
        exact .inr ⟨fs, by simpa using hne, hfs, rfl⟩
      · exact .inl ⟨ds, hd, hds, .inr ⟨fs, hfs, rfl⟩⟩
  · rintro (⟨ds, hne, hds, rfl | ⟨fs, hfs, rfl⟩⟩ | ⟨fs, hne, hfs, rfl⟩)
    · exact .whole hne hds
    · exact .point (.inl hne) hds hfs
    · exact @IsMantissa.point [] fs (.inr hne) nofun hfs

/-- A pattern behind both kinds of mantissas. -/
theorem mem_mantissa_mul {q : RegularExpression Char} :
    (w ∈ (whole * q).matches' ∨ w ∈ (fraction * q).matches') ↔ ∃ m, IsMantissa m ∧ ∃ v ∈ q.matches', m ++ v = w := by
  simp only [mem_mul, isMantissa_iff, or_and_right, exists_or]

theorem mem_exponentMark : w ∈ exponentMark.matches' ↔
    ∃ mark sign, (mark = 'e' ∨ mark = 'E') ∧ (sign = [] ∨ sign = ['+'] ∨ sign = ['-']) ∧ w = mark :: sign := by
  have hmark {c : Char} : c ∈ ['e', 'E'] ↔ c = 'e' ∨ c = 'E' := by simp
  have hsign {v : List Char} : (∃ c ∈ ['+', '-'], v = [c]) ↔ v = ['+'] ∨ v = ['-'] := by simp
  rw [exponentMark, mem_oneOf_mul]
  simp only [mem_optional, mem_oneOf, hmark, hsign]
  constructor
  · rintro ⟨mark, hmark, sign, hsign, rfl⟩
    exact ⟨mark, sign, hmark, hsign, rfl⟩
  · rintro ⟨mark, sign, hmark, hsign, rfl⟩
    exact ⟨mark, hmark, sign, hsign, rfl⟩

theorem mem_exponent : w ∈ (exponentMark * someOf digits).matches' ↔ ∃ mark sign ds, (mark = 'e' ∨ mark = 'E') ∧
    (sign = [] ∨ sign = ['+'] ∨ sign = ['-']) ∧ ds ≠ [] ∧ (∀ c ∈ ds, c.isDigit = true) ∧ w = mark :: (sign ++ ds) := by
  rw [mem_mul]
  constructor
  · rintro ⟨u, hu, ds, hds, rfl⟩
    obtain ⟨mark, sign, hmark, hsign, rfl⟩ := mem_exponentMark.mp hu
    obtain ⟨hne, hds⟩ := mem_someOf_digits.mp hds
    exact ⟨mark, sign, ds, hmark, hsign, hne, hds, rfl⟩
  · rintro ⟨mark, sign, ds, hmark, hsign, hne, hds, rfl⟩
    exact ⟨mark :: sign, mem_exponentMark.mpr ⟨mark, sign, hmark, hsign, rfl⟩, ds,
      mem_someOf_digits.mpr ⟨hne, hds⟩, rfl⟩

/-- Digits of a base behind its mark. -/
theorem mem_marked {mark : Char} {cs : List Char} {radix : Nat}
    (hcs : ∀ {c}, c ∈ cs ↔ Number.isDigit radix c = true) : w ∈ (char '0' * (char mark * someOf cs)).matches' ↔
      ∃ ds, ds ≠ [] ∧ (∀ c ∈ ds, Number.isDigit radix c = true) ∧ w = '0' :: mark :: ds := by
  rw [mem_char_mul]
  simp only [mem_char_mul, mem_someOf, hcs]
  constructor
  · rintro ⟨_, ⟨ds, ⟨hne, hds⟩, rfl⟩, rfl⟩
    exact ⟨ds, hne, hds, rfl⟩
  · rintro ⟨ds, hne, hds, rfl⟩
    exact ⟨mark :: ds, ⟨ds, ⟨hne, hds⟩, rfl⟩, rfl⟩

/-- The three marks. -/
theorem radix?_eq_some_iff {mark : Char} {radix : Nat} : Number.radix? mark = some radix ↔
    (mark = 'b' ∧ radix = 2) ∨ (mark = 'o' ∧ radix = 8) ∨ (mark = 'x' ∧ radix = 16) := by
  unfold Number.radix?
  split <;> simp_all [eq_comm]

theorem matches_word : Form.word.Matches w ↔ isWord w = true := by
  simp only [Form.Matches, Form.patterns, List.mem_singleton, exists_eq_left, mem_word]

theorem matches_number : Form.number.Matches w ↔ IsNumber w := by
  simp only [Form.Matches, Form.patterns, List.exists_mem_cons_iff, List.not_mem_nil, false_and, exists_false, or_false,
    mem_marked mem_binary, mem_marked mem_octal, mem_marked mem_hexadecimal]
  rw [← or_assoc, mem_mantissa_mul]
  simp only [mem_optional, mem_exponent]
  constructor
  · rintro (⟨m, hm, v, rfl | ⟨mark, sign, ds, hmark, hsign, hne, hds, rfl⟩, rfl⟩ | ⟨ds, hne, hds, rfl⟩ |
      ⟨ds, hne, hds, rfl⟩ | ⟨ds, hne, hds, rfl⟩)
    · rw [List.append_nil]
      exact .plain hm
    · exact .scaled hm hmark hsign hne hds
    · exact .radix (radix?_eq_some_iff.mpr (.inl ⟨rfl, rfl⟩)) hne hds
    · exact .radix (radix?_eq_some_iff.mpr (.inr (.inl ⟨rfl, rfl⟩))) hne hds
    · exact .radix (radix?_eq_some_iff.mpr (.inr (.inr ⟨rfl, rfl⟩))) hne hds
  · rintro (@⟨mark, radix, ds, hmark, hne, hds⟩ | ⟨hm⟩ | @⟨m, sign, ds, mark, hm, hmark, hsign, hne, hds⟩)
    · obtain ⟨rfl, rfl⟩ | ⟨rfl, rfl⟩ | ⟨rfl, rfl⟩ := radix?_eq_some_iff.mp hmark
      · exact .inr (.inl ⟨ds, hne, hds, rfl⟩)
      · exact .inr (.inr (.inl ⟨ds, hne, hds, rfl⟩))
      · exact .inr (.inr (.inr ⟨ds, hne, hds, rfl⟩))
    · exact .inl ⟨w, hm, [], .inl rfl, List.append_nil w⟩
    · exact .inl ⟨m, hm, _, .inr ⟨mark, sign, ds, hmark, hsign, hne, hds, rfl⟩, rfl⟩

theorem matches_incompleteExponent : Form.incompleteExponent.Matches w ↔ ∃ m mark sign, IsMantissa m ∧
    (mark = 'e' ∨ mark = 'E') ∧ (sign = [] ∨ sign = ['+'] ∨ sign = ['-']) ∧ w = m ++ mark :: sign := by
  simp only [Form.Matches, Form.patterns, List.exists_mem_cons_iff, List.not_mem_nil, false_and, exists_false, or_false,
    mem_mantissa_mul, mem_exponentMark]
  constructor
  · rintro ⟨m, hm, _, ⟨mark, sign, hmark, hsign, rfl⟩, rfl⟩
    exact ⟨m, mark, sign, hm, hmark, hsign, rfl⟩
  · rintro ⟨m, mark, sign, hm, hmark, hsign, rfl⟩
    exact ⟨m, hm, _, ⟨mark, sign, hmark, hsign, rfl⟩, rfl⟩

theorem matches_emptyRadix : Form.emptyRadix.Matches w ↔
    ∃ mark radix, Number.radix? mark = some radix ∧ w = ['0', mark] := by
  have hmarks {mark : Char} : mark ∈ ['b', 'o', 'x'] ↔ ∃ radix, Number.radix? mark = some radix := by
    simp [radix?_eq_some_iff, exists_or]
  simp only [Form.Matches, Form.patterns, List.mem_singleton, exists_eq_left, mem_char_mul, mem_oneOf, hmarks]
  constructor
  · rintro ⟨_, ⟨mark, ⟨radix, hradix⟩, rfl⟩, rfl⟩
    exact ⟨mark, radix, hradix, rfl⟩
  · rintro ⟨mark, radix, hradix, rfl⟩
    exact ⟨[mark], ⟨mark, ⟨radix, hradix⟩, rfl⟩, rfl⟩

/-- The patterns of a form match the texts that have it. -/
theorem matches_iff {form : Form} : form.Matches w ↔ OfForm form w := by
  constructor
  · intro h
    cases form with
    | word => exact .word (matches_word.mp h)
    | number => exact .numeral (matches_number.mp h).numeral
    | incompleteExponent =>
        obtain ⟨m, mark, sign, hm, hmark, hsign, rfl⟩ := matches_incompleteExponent.mp h
        have hnumeral := @Numeral.scaled m sign [] mark hm hmark hsign nofun
        rw [List.append_nil] at hnumeral
        exact .numeral hnumeral
    | emptyRadix =>
        obtain ⟨mark, radix, hmark, rfl⟩ := matches_emptyRadix.mp h
        exact .numeral (@Numeral.radix mark radix [] hmark nofun)
    | symbol s =>
        simp only [Form.Matches, Form.patterns, List.mem_singleton, exists_eq_left, mem_literal] at h
        exact h ▸ .symbol s
  · rintro (h | ⟨hm | ⟨hm, hmark, hsign, hds⟩ | ⟨hmark, hds⟩⟩ | s)
    · exact matches_word.mpr h
    · exact matches_number.mpr (.plain hm)
    · split
      · next hnil =>
          rw [hnil, List.append_nil]
          exact matches_incompleteExponent.mpr ⟨_, _, _, hm, hmark, hsign, rfl⟩
      · next hne => exact matches_number.mpr (.scaled hm hmark hsign hne hds)
    · split
      · next hnil =>
          rw [hnil]
          exact matches_emptyRadix.mpr ⟨_, _, hmark, rfl⟩
      · next hne => exact matches_number.mpr (.radix hmark hne hds)
    · exact ⟨_, List.mem_singleton_self _, mem_literal.mpr rfl⟩

end Lexeme
end SoundLang
