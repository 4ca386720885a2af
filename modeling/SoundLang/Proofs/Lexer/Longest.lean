import SoundLang.Proofs.Lexer.Pattern
import SoundLang.Proofs.Lexer.WholeText

/-! # The longest match is the longest

What `Lexeme.longest?` takes has a form (`Lexeme.ofForm_of_longest?`), and no beginning of the text that has one is
longer (`Lexeme.OfForm.le_longest?`).  So it takes the longest beginning that a pattern matches
(`Lexeme.longest?_eq_some_iff`), and the scanner makes one token or one error of that (`Lexer.first?_is_longest`). -/

namespace SoundLang

namespace Lexeme

/-- The longest beginning of the text that a pattern matches. -/
structure Pattern.Longest (cs w : List Char) : Prop where
  beginning : w <+: cs
  matched : ∃ form : Form, form.Matches w
  longest : ∀ (form : Form) (v : List Char), v <+: cs → form.Matches v → v.length ≤ w.length

/-! ### What is taken has a form -/

theorem isMantissa_mantissa {cs : List Char} (h : mantissa cs ≠ []) : IsMantissa (mantissa cs) := by
  have hdigits (ds : List Char) : ∀ c ∈ ds.takeWhile Char.isDigit, c.isDigit = true :=
    fun _ hc => List.mem_takeWhile_imp hc
  revert h
  simp only [mantissa]
  split
  · next rest _ =>
      split
      · exact fun h => absurd rfl h
      · next hne => exact fun _ => .point (by tauto) (hdigits cs) (hdigits rest)
  · exact fun h => .whole h (hdigits cs)

theorem sign_cases (cs : List Char) : sign cs = [] ∨ sign cs = ['+'] ∨ sign cs = ['-'] := by
  unfold sign
  split
  · split
    · next h =>
        obtain rfl | rfl := h
        · exact .inr (.inl rfl)
        · exact .inr (.inr rfl)
    · exact .inl rfl
  · exact .inl rfl

variable {cs w : List Char} {m : Lexeme} {form : Form}

theorem numeral_of_decimal? (h : decimal? cs = some m) : Numeral m.form m.text := by
  simp only [decimal?] at h
  split at h
  · cases h
  · next hne =>
      have hm := isMantissa_mantissa hne
      split at h
      · split at h
        · next hmark =>
            cases h
            rw [List.append_assoc, List.cons_append]
            exact .scaled hm hmark (sign_cases _) fun _ hc => List.mem_takeWhile_imp hc
        · cases h
          exact .plain hm
      · cases h
        exact .plain hm

/-- A number is read with its base if there is a radix mark, and else as a decimal one. -/
theorem number?_cases (cs : List Char) :
    (∃ mark radix rest, cs = '0' :: mark :: rest ∧ Number.radix? mark = some radix ∧
      number? cs = some ⟨'0' :: mark :: rest.takeWhile (Number.isDigit radix),
        if rest.takeWhile (Number.isDigit radix) = [] then .emptyRadix else .number⟩) ∨
    number? cs = decimal? cs := by
  unfold number?
  split
  · next mark rest =>
      split
      · next radix hradix => exact .inl ⟨mark, radix, rest, rfl, hradix, rfl⟩
      · exact .inr rfl
  · exact .inr rfl

theorem numeral_of_number? (h : number? cs = some m) : Numeral m.form m.text := by
  obtain ⟨mark, radix, rest, -, hradix, hnumber⟩ | hdecimal := number?_cases cs
  · rw [hnumber] at h
    cases h
    exact .radix hradix fun _ hc => List.mem_takeWhile_imp hc
  · exact numeral_of_decimal? (hdecimal.symm.trans h)

theorem ofForm_of_longest? (h : longest? cs = some m) : OfForm m.form m.text := by
  unfold longest? at h
  obtain h | ⟨-, h⟩ := Option.or_eq_some_iff.mp h
  · cases cs with
    | nil => cases h
    | cons c cs =>
        simp only [word?] at h
        split at h
        · next hstart =>
            cases h
            refine .word ?_
            rw [isWord, hstart, Bool.true_and]
            exact List.all_takeWhile
        · cases h
  · obtain h | ⟨-, h⟩ := Option.or_eq_some_iff.mp h
    · exact .numeral (numeral_of_number? h)
    · obtain ⟨s, -, rfl⟩ := Option.map_eq_some_iff.mp h
      exact .symbol s

/-! ### Nothing longer has a form -/

/-- A run at the start of a text is a beginning of the longest such run. -/
theorem length_le_takeWhile {p : Char → Bool} {ds : List Char} (hds : ∀ c ∈ ds, p c = true) (rest : List Char) :
    ds.length ≤ ((ds ++ rest).takeWhile p).length := by
  rw [List.takeWhile_append_of_pos hds, List.length_append]
  omega

theorem IsMantissa.length_le (h : IsMantissa w) (rest : List Char) : w.length ≤ (mantissa (w ++ rest)).length := by
  cases h with
  | whole hne hds =>
      have hwhole : (w ++ rest).takeWhile Char.isDigit ≠ [] := by
        rw [List.takeWhile_append_of_pos hds]
        exact List.append_ne_nil_of_left_ne_nil hne _
      refine (length_le_takeWhile hds rest).trans ?_
      simp only [mantissa]
      split
      · rw [if_neg fun hnil => hwhole hnil.1, List.length_append]
        omega
      · exact le_rfl
  | @point ds fs hne hds hfs =>
      have hpoint : ∀ c ∈ ('.' :: (fs ++ rest)).head?, c.isDigit = false := fun c hc => by
        cases hc
        rfl
      have hfraction := length_le_takeWhile hfs rest
      have hsome : ¬ (ds = [] ∧ (fs ++ rest).takeWhile Char.isDigit = []) := by
        rintro ⟨hd, hf⟩
        rw [hf, List.length_nil, Nat.le_zero, List.length_eq_zero_iff] at hfraction
        obtain hne | hne := hne
        · exact hne hd
        · exact hne hfraction
      rw [List.append_assoc, List.cons_append]
      simp only [mantissa, takeWhile_run hds hpoint, dropWhile_run hds hpoint, if_neg hsome, List.length_append,
        List.length_cons]
      omega

theorem length_mantissa_le (h : mantissa cs ≠ []) :
    ∃ m, decimal? cs = some m ∧ (mantissa cs).length ≤ m.text.length := by
  simp only [decimal?, if_neg h]
  split
  · split
    · exact ⟨_, rfl, by simp⟩
    · exact ⟨_, rfl, le_rfl⟩
  · exact ⟨_, rfl, le_rfl⟩

/-- The sign and the digits of an exponent are among those taken. -/
theorem length_exponent_le {sign ds : List Char} (hsign : sign = [] ∨ sign = ['+'] ∨ sign = ['-'])
    (hds : ∀ c ∈ ds, c.isDigit = true) (rest : List Char) : (sign ++ ds).length ≤
      (Lexeme.sign (sign ++ ds ++ rest) ++
        ((sign ++ ds ++ rest).drop (Lexeme.sign (sign ++ ds ++ rest)).length).takeWhile Char.isDigit).length := by
  have hdigits := length_le_takeWhile hds rest
  obtain rfl | rfl | rfl := hsign
  · cases ds with
    | nil => exact Nat.zero_le _
    | cons d ds =>
        have hnone : Lexeme.sign (d :: ds ++ rest) = [] := by
          have hd := hds d List.mem_cons_self
          refine if_neg ?_
          rintro (rfl | rfl) <;> cases hd
        rw [List.nil_append, hnone]
        exact hdigits
  all_goals
    simp only [Lexeme.sign, List.cons_append, List.nil_append, List.length_cons, List.length_nil, List.drop_succ_cons,
      List.drop_zero, reduceIte, or_true, true_or]
    omega

/-- A decimal number at the start of a text is not longer than the one taken. -/
theorem Numeral.le_decimal? (h : Numeral form w) (hradix : ∀ c ∈ w, Number.radix? c = none) (rest : List Char) :
    ∃ m, decimal? (w ++ rest) = some m ∧ w.length ≤ m.text.length := by
  cases h with
  | plain hm =>
      have hle := hm.length_le rest
      have hne : mantissa (w ++ rest) ≠ [] := by
        intro hnil
        rw [hnil, List.length_nil, Nat.le_zero, List.length_eq_zero_iff] at hle
        exact hm.ne_nil hle
      obtain ⟨m, hm, hlen⟩ := length_mantissa_le hne
      exact ⟨m, hm, hle.trans hlen⟩
  | @scaled m sign ds mark hm hmark hsign hds =>
      have hexponent := length_exponent_le hsign hds rest
      rw [List.append_assoc, List.cons_append]
      refine ⟨_, decimal?_marked hm hmark (sign ++ ds ++ rest), ?_⟩
      simp only [List.length_append, List.length_cons] at hexponent ⊢
      omega
  | @radix mark _ _ hmark =>
      rw [hradix mark (by simp)] at hmark
      cases hmark

/-- Only digits behind a radix mark go on past it. -/
theorem Numeral.radix_cases (h : Numeral form w) : (∀ c ∈ w, Number.radix? c = none) ∨
    ∃ mark radix ds, Number.radix? mark = some radix ∧ (∀ c ∈ ds, Number.isDigit radix c = true) ∧
      w = '0' :: mark :: ds := by
  cases h with
  | plain hm => exact .inl fun c hc => hm.radix? hc
  | scaled hm hmark hsign hds => exact .inl (radix?_of_scaled hm hmark hsign hds)
  | radix hmark hds => exact .inr ⟨_, _, _, hmark, hds, rfl⟩

theorem Numeral.le_number? (h : Numeral form w) (rest : List Char) :
    ∃ m, number? (w ++ rest) = some m ∧ w.length ≤ m.text.length := by
  obtain hnone | ⟨mark, radix, ds, hradix, hds, rfl⟩ := h.radix_cases
  · obtain ⟨mark, radix, more, heq, hradix, hnumber⟩ | hdecimal := number?_cases (w ++ rest)
    · refine ⟨_, hnumber, ?_⟩
      -- the radix mark stands behind the text, which is then the zero alone
      have hshort : w.length ≤ 1 := by
        by_contra hlong
        obtain ⟨c, d, v, rfl⟩ : ∃ c d v, w = c :: d :: v := by
          match w, hlong with
          | c :: d :: v, _ => exact ⟨c, d, v, rfl⟩
        obtain ⟨-, htail⟩ := List.cons.inj heq
        obtain ⟨rfl, -⟩ := List.cons.inj htail
        rw [hnone d (by simp)] at hradix
        cases hradix
      simp only [List.length_cons]
      omega
    · rw [hdecimal]
      exact h.le_decimal? hnone rest
  · have hnumber : number? ('0' :: mark :: (ds ++ rest)) =
        some ⟨'0' :: mark :: (ds ++ rest).takeWhile (Number.isDigit radix),
          if (ds ++ rest).takeWhile (Number.isDigit radix) = [] then .emptyRadix else .number⟩ := by
      simp only [number?, hradix]
    refine ⟨_, hnumber, ?_⟩
    have := length_le_takeWhile hds rest
    simp only [List.length_cons]
    omega

/-- What is found first among falling lengths is found for no length above it. -/
theorem findSome?_falling {α : Type} {f : Nat → Option α} {n : Nat} {a : α} (hf : f n = some a) {ns : List Nat}
    (hns : ns.Pairwise (· ≥ ·)) (hn : n ∈ ns) : ∃ k b, n ≤ k ∧ f k = some b ∧ ns.findSome? f = some b := by
  induction ns with
  | nil => cases hn
  | cons k ns ih =>
      rw [List.pairwise_cons] at hns
      cases hk : f k with
      | some b =>
          refine ⟨k, b, ?_, hk, by rw [List.findSome?_cons, hk]⟩
          obtain rfl | hn := List.mem_cons.mp hn
          · exact le_rfl
          · exact hns.1 n hn
      | none =>
          obtain rfl | hn := List.mem_cons.mp hn
          · rw [hf] at hk
            cases hk
          · obtain ⟨j, b, hle, hj, hfind⟩ := ih hns.2 hn
            exact ⟨j, b, hle, hj, by rw [List.findSome?_cons, hk, hfind]⟩

theorem le_symbol? (s : Symbol) (rest : List Char) :
    ∃ m, symbol? (s.chars ++ rest) = some m ∧ s.chars.length ≤ m.text.length := by
  have hlengths : ∀ s ∈ Symbol.all, s.chars.length ∈ [4, 3, 2, 1] := by decide
  have hself : Symbol.ofChars? ((s.chars ++ rest).take s.chars.length) = some s := by
    rw [List.take_left, Symbol.ofChars?_chars]
  obtain ⟨k, t, hle, hk, hfind⟩ := findSome?_falling (f := fun n => Symbol.ofChars? ((s.chars ++ rest).take n)) hself
    (by decide) (hlengths s s.mem_all)
  refine ⟨⟨t.chars, .symbol t⟩, by rw [symbol?, hfind, Option.map_some], ?_⟩
  have htext : t.chars = (s.chars ++ rest).take k := chars_of_ofChars? hk
  simp only [htext, List.length_take, List.length_append]
  omega

/-- Symbols are not words, and only the point starts as a number does. -/
theorem symbol_start (s : Symbol) : ∃ c v, s.chars = c :: v ∧ isWordStart c = false ∧
    (v = [] ∨ c.isDigit = false ∧ c ≠ '.') := by
  have hall : ∀ s ∈ Symbol.all, s.chars.head?.any (fun c => !isWordStart c &&
      (s.chars.tail.isEmpty || (!c.isDigit && c != '.'))) = true := by decide
  have := hall s s.mem_all
  cases hs : s.chars with
  | nil =>
      rw [hs] at this
      cases this
  | cons c v => exact ⟨c, v, rfl, by simpa [hs] using this⟩

/-- A beginning of the text that has a form is not longer than the match. -/
theorem OfForm.le_longest? (h : OfForm form w) (rest : List Char) :
    ∃ m, longest? (w ++ rest) = some m ∧ w.length ≤ m.text.length := by
  cases h with
  | word h =>
      cases w with
      | nil => cases h
      | cons c v =>
          rw [isWord, Bool.and_eq_true] at h
          have hword : word? (c :: v ++ rest) = some ⟨c :: (v ++ rest).takeWhile isWordPart, .word⟩ := if_pos h.1
          refine ⟨_, by rw [longest?, hword, Option.some_or], ?_⟩
          exact Nat.succ_le_succ (length_le_takeWhile (List.all_eq_true.mp h.2) rest)
  | numeral h =>
      obtain ⟨m, hm, hle⟩ := h.le_number? rest
      exact ⟨m, by rw [longest?, h.word?_append rest, hm, Option.none_or, Option.some_or], hle⟩
  | symbol s =>
      obtain ⟨c, v, hs, hstart, hnumber⟩ := symbol_start s
      have hword : word? (s.chars ++ rest) = none := by
        rw [hs]
        exact if_neg (by simp [hstart])
      rw [longest?, hword, Option.none_or]
      cases hfound : number? (s.chars ++ rest) with
      | none =>
          obtain ⟨m, hm, hle⟩ := le_symbol? s rest
          exact ⟨m, hm, hle⟩
      | some m =>
          refine ⟨m, rfl, ?_⟩
          obtain rfl | ⟨hdigit, hdot⟩ := hnumber
          · rw [hs]
            exact List.length_pos_iff.mpr (append_of_number? hfound).1
          · rw [hs, List.cons_append, number?_of_not_digit hdigit hdot] at hfound
            cases hfound

/-! ### The longest beginning -/

/-- A text that has a form is its own longest match. -/
theorem OfForm.longest? (h : OfForm form w) : Lexeme.longest? w = some ⟨w, form⟩ := by
  cases h with
  | word h => exact longest?_alone (.word h)
  | numeral h => exact longest?_numeral h
  | symbol s => exact longest?_alone (.symbol s)

/-- No text has two forms. -/
theorem OfForm.unique {g : Form} (hf : OfForm form w) (hg : OfForm g w) : form = g := by
  have := hf.longest?.symm.trans hg.longest?
  cases this
  rfl

theorem longest?_eq_some_iff : longest? cs = some m ↔ Pattern.Longest cs m.text ∧ m.form.Matches m.text := by
  constructor
  · intro h
    have hform := matches_iff.mpr (ofForm_of_longest? h)
    refine ⟨⟨(append_of_longest? h).2, ⟨m.form, hform⟩, ?_⟩, hform⟩
    rintro form v ⟨rest, rfl⟩ hv
    obtain ⟨m', hm', hle⟩ := (matches_iff.mp hv).le_longest? rest
    rw [h] at hm'
    cases hm'
    exact hle
  · rintro ⟨⟨⟨rest, heq⟩, -, hlongest⟩, hform⟩
    obtain ⟨m', hm', hle⟩ := (matches_iff.mp hform).le_longest? rest
    rw [heq] at hm'
    have hprefix := (append_of_longest? hm').2
    have hother := ofForm_of_longest? hm'
    have hlen : m'.text.length = m.text.length := (hlongest _ _ hprefix (matches_iff.mpr hother)).antisymm hle
    have htext : m'.text = m.text := by
      rw [List.prefix_iff_eq_take.mp hprefix, List.prefix_iff_eq_take.mp ⟨rest, heq⟩, hlen]
    rw [htext] at hother
    have hsame : m' = m := by
      cases m'
      cases m
      cases htext
      cases hother.unique (matches_iff.mp hform)
      rfl
    rw [hm', hsame]

theorem longest?_eq_none_iff : longest? cs = none ↔ ∀ (form : Form) (w : List Char), w <+: cs → ¬ form.Matches w := by
  constructor
  · rintro h form w ⟨rest, rfl⟩ hw
    obtain ⟨m, hm, -⟩ := (matches_iff.mp hw).le_longest? rest
    rw [h] at hm
    cases hm
  · intro h
    rw [Option.eq_none_iff_forall_ne_some]
    intro m hm
    have hmatch := longest?_eq_some_iff.mp hm
    exact h m.form m.text hmatch.1.beginning hmatch.2

theorem mem_marks {mark : Char} {radix : Nat} :
    (mark, radix) ∈ [('b', 2), ('o', 8), ('x', 16)] ↔ Number.radix? mark = some radix := by
  simp [radix?_eq_some_iff]

theorem size_marked {mark : Char} {radix : Nat} (h : (mark, radix) ∈ [('b', 2), ('o', 8), ('x', 16)]) :
    Text.size ['0', mark] = 2 := by
  obtain ⟨rfl, -⟩ | ⟨rfl, -⟩ | ⟨rfl, -⟩ := radix?_eq_some_iff.mp (mem_marks.mp h) <;> rfl

/-- The digits of a base are missing just where none of them stands behind its mark. -/
theorem longest?_eq_emptyRadix_iff : longest? cs = some ⟨w, .emptyRadix⟩ ↔ ∃ mark radix rest,
    (mark, radix) ∈ [('b', 2), ('o', 8), ('x', 16)] ∧ cs = '0' :: mark :: rest ∧
      (∀ d ∈ rest.head?, Number.isDigit radix d = false) ∧ w = ['0', mark] := by
  simp only [mem_marks]
  constructor
  · intro h
    obtain ⟨hlongest, hform⟩ := longest?_eq_some_iff.mp h
    obtain ⟨mark, radix, hradix, rfl⟩ := matches_emptyRadix.mp hform
    obtain ⟨rest, rfl⟩ := hlongest.beginning
    refine ⟨mark, radix, rest, hradix, rfl, ?_, rfl⟩
    intro d hd
    by_contra hdigit
    rw [Bool.not_eq_false] at hdigit
    obtain ⟨more, rfl⟩ := List.head?_eq_some_iff.mp hd
    have hnumber : IsNumber ['0', mark, d] := .radix hradix (by simp) (by simpa using hdigit)
    exact absurd (hlongest.longest _ _ ⟨more, rfl⟩ (matches_number.mpr hnumber)) (by simp)
  · rintro ⟨mark, radix, rest, hradix, rfl, hrest, rfl⟩
    have hdigits : rest.takeWhile (Number.isDigit radix) = [] := by
      have hrun := @takeWhile_run (Number.isDigit radix) [] rest nofun hrest
      rwa [List.nil_append] at hrun
    have hword : word? ('0' :: mark :: rest) = none := rfl
    simp only [longest?, hword, number?, hradix, hdigits, Option.none_or, Option.some_or, if_true]

/-- The kind of the token that a form stands for.  Unfinished numbers stand for no token. -/
def Form.kind? (text : String) : Form → Option Token.Kind
  | .word => some (.word text)
  | .number => some (.number text)
  | .symbol s => some (.symbol s)
  | .incompleteExponent | .emptyRadix => none

end Lexeme

namespace Lexer

open Lexeme

/-- What is found first on the rest of a line. -/
def first? (line byte : Nat) (cs : List Char) : Option Entry := (scan line byte .code cs).1.head?

section
variable {m : Lexeme} {span place : Span} {text : String}

theorem entryOf_eq_ok_iff {t : Token} :
    entryOf m place = .ok t ↔ m.form.kind? (String.ofList m.text) = some t.kind ∧ t.span = place := by
  obtain ⟨w, form⟩ := m
  obtain ⟨kind, span⟩ := t
  cases form <;> simp [entryOf, Form.kind?, eq_comm]

theorem entryOf_eq_incompleteExponent_iff : entryOf m place = .error (.incompleteExponent text span) ↔
    m = ⟨text.toList, .incompleteExponent⟩ ∧ span = place := by
  obtain ⟨w, form⟩ := m
  cases form <;> simp [entryOf, ← String.toList_inj, eq_comm]

theorem entryOf_eq_emptyRadix_iff : entryOf m place = .error (.emptyRadix text span) ↔
    m = ⟨text.toList, .emptyRadix⟩ ∧ span = place := by
  obtain ⟨w, form⟩ := m
  cases form <;> simp [entryOf, ← String.toList_inj, eq_comm]

theorem entryOf_ne_unexpectedCharacter (d : Char) : entryOf m place ≠ .error (.unexpectedCharacter d span) := by
  obtain ⟨w, form⟩ := m
  cases form <;> simp [entryOf]

end

section
variable {c : Char} {cs : List Char} (hu : Unmarked c cs) (hb : isBlank c = false) (line byte : Nat)
include hu hb

/-- A match makes the first entry, and without one the first character does. -/
theorem first?_eq_some_iff (x : Entry) : first? line byte (c :: cs) = some x ↔
    (longest? (c :: cs) = none ∧ x = .error (.unexpectedCharacter c (.onLine line byte (byte + c.utf8Size)))) ∨
      ∃ m, longest? (c :: cs) = some m ∧ entryOf m (.onLine line byte (byte + Text.size m.text)) = x := by
  rw [first?]
  cases hm : longest? (c :: cs) with
  | none => simp [scan_unexpected hu line byte hb hm, eq_comm]
  | some m =>
      cases he : entryOf m (.onLine line byte (byte + Text.size m.text)) with
      | error e => simp [scan_malformed hu line byte hb hm he, he]
      | ok t => simp [scan_token hu line byte hb hm he, he]

/-- First on a line stands the token or the error of the longest beginning that a pattern matches, over just its bytes.
No text matches patterns of two forms. -/
theorem first?_is_longest :
    (∀ t : Token, first? line byte (c :: cs) = some (.ok t) ↔ ∃ (w : List Char) (form : Form),
      Pattern.Longest (c :: cs) w ∧ form.Matches w ∧ form.kind? (String.ofList w) = some t.kind ∧
        t.span = .onLine line byte (byte + Text.size w)) ∧
    (∀ text span, first? line byte (c :: cs) = some (.error (.incompleteExponent text span)) ↔
      Pattern.Longest (c :: cs) text.toList ∧ span = .onLine line byte (byte + Text.size text.toList) ∧
        ∃ m mark sign, IsMantissa m ∧ (mark = 'e' ∨ mark = 'E') ∧ (sign = [] ∨ sign = ['+'] ∨ sign = ['-']) ∧
          text.toList = m ++ mark :: sign) ∧
    (∀ text span, first? line byte (c :: cs) = some (.error (.emptyRadix text span)) ↔
      ∃ mark radix rest, (mark, radix) ∈ [('b', 2), ('o', 8), ('x', 16)] ∧ c :: cs = '0' :: mark :: rest ∧
        (∀ d ∈ rest.head?, Number.isDigit radix d = false) ∧ text.toList = ['0', mark] ∧
        span = .onLine line byte (byte + 2)) ∧
    (∀ d span, first? line byte (c :: cs) = some (.error (.unexpectedCharacter d span)) ↔
      d = c ∧ span = .onLine line byte (byte + c.utf8Size) ∧
        ∀ (form : Form) (w : List Char), w <+: c :: cs → ¬ form.Matches w) ∧
    ∀ (f g : Form) (w : List Char), f.Matches w → g.Matches w → f = g := by
  simp only [first?_eq_some_iff hu hb]
  refine ⟨fun t => ?_, fun text span => ?_, fun text span => ?_, fun d span => ?_, fun f g w hf hg => ?_⟩
  · simp only [reduceCtorEq, and_false, false_or, longest?_eq_some_iff, entryOf_eq_ok_iff]
    constructor
    · rintro ⟨m, ⟨hlongest, hform⟩, hkind, hspan⟩
      exact ⟨m.text, m.form, hlongest, hform, hkind, hspan⟩
    · rintro ⟨w, form, hlongest, hform, hkind, hspan⟩
      exact ⟨⟨w, form⟩, ⟨hlongest, hform⟩, hkind, hspan⟩
  · simp only [Except.error.injEq, reduceCtorEq, and_false, false_or, longest?_eq_some_iff,
      entryOf_eq_incompleteExponent_iff, ← matches_incompleteExponent]
    constructor
    · rintro ⟨m, ⟨hlongest, hform⟩, rfl, rfl⟩
      exact ⟨hlongest, rfl, hform⟩
    · rintro ⟨hlongest, rfl, hform⟩
      exact ⟨⟨text.toList, .incompleteExponent⟩, ⟨hlongest, hform⟩, rfl, rfl⟩
  · simp only [Except.error.injEq, reduceCtorEq, and_false, false_or, entryOf_eq_emptyRadix_iff]
    constructor
    · rintro ⟨m, hm, rfl, rfl⟩
      obtain ⟨mark, radix, rest, hmark, heq, hrest, htext⟩ := longest?_eq_emptyRadix_iff.mp hm
      exact ⟨mark, radix, rest, hmark, heq, hrest, htext, by rw [htext, size_marked hmark]⟩
    · rintro ⟨mark, radix, rest, hmark, heq, hrest, htext, rfl⟩
      refine ⟨⟨text.toList, .emptyRadix⟩, ?_, rfl, by rw [htext, size_marked hmark]⟩
      exact longest?_eq_emptyRadix_iff.mpr ⟨mark, radix, rest, hmark, heq, hrest, htext⟩
  · simp only [entryOf_ne_unexpectedCharacter, and_false, exists_false, or_false, longest?_eq_none_iff,
      Except.error.injEq, LexError.unexpectedCharacter.injEq]
    rw [and_comm, and_assoc]
  · exact (matches_iff.mp hf).unique (matches_iff.mp hg)

end

/-- The mark of an exponent is taken with the number before it, a digit of another base is left behind, and no pattern
matches a letter that is not English. -/
theorem first?_is_longest_in_each_case :
    (Unmarked '.' ['5', 'e', '-', 'x'] ∧ isBlank '.' = false ∧
      Pattern.Longest ['.', '5', 'e', '-', 'x'] ['.', '5', 'e', '-']) ∧
    (Unmarked '0' ['b', '2'] ∧ isBlank '0' = false ∧
      first? 3 7 ['0', 'b', '2'] = some (.error (.emptyRadix "0b" (.onLine 3 7 9)))) ∧
    (Unmarked 'é' ['='] ∧ isBlank 'é' = false ∧
      ∀ (form : Form) (w : List Char), w <+: ['é', '='] → ¬ form.Matches w) := by
  refine ⟨?exponent, ?radix, ?letter⟩
  case exponent =>
    have hu : Unmarked '.' ['5', 'e', '-', 'x'] := ⟨nofun, nofun, nofun⟩
    have hfirst : first? 3 7 ['.', '5', 'e', '-', 'x'] =
        some (.error (.incompleteExponent ".5e-" (.onLine 3 7 11))) :=
      (first?_eq_some_iff hu rfl 3 7 _).mpr (.inr ⟨⟨['.', '5', 'e', '-'], .incompleteExponent⟩, by decide, by decide⟩)
    exact ⟨hu, rfl, (((first?_is_longest hu rfl 3 7).2.1 _ _).mp hfirst).1⟩
  case radix =>
    have hu : Unmarked '0' ['b', '2'] := ⟨nofun, nofun, nofun⟩
    have hb : isBlank '0' = false := rfl
    have hdigit : ∀ d ∈ ['2'].head?, Number.isDigit 2 d = false := fun d hd => by
      cases hd
      rfl
    exact ⟨hu, hb, ((first?_is_longest hu hb 3 7).2.2.1 _ _).mpr
      ⟨'b', 2, ['2'], List.mem_cons_self, rfl, hdigit, rfl, rfl⟩⟩
  case letter =>
    have hu : Unmarked 'é' ['='] := ⟨nofun, nofun, nofun⟩
    have hfirst : first? 3 7 ['é', '='] = some (.error (.unexpectedCharacter 'é' (.onLine 3 7 9))) :=
      (first?_eq_some_iff hu rfl 3 7 _).mpr (.inl ⟨by decide, by decide⟩)
    exact ⟨hu, rfl, (((first?_is_longest hu rfl 3 7).2.2.2.1 _ _).mp hfirst).2.2⟩

end Lexer

end SoundLang
