import SoundLang.Proofs.Number

/-! # Texts that have a value

The lexer reads a text as one number just when it has the form of one (`Number.produced_iff`), and a sign is no part of
that form.  To evaluate a text takes one sign off its digits, wherever they start: so what has a value is a number that
the lexer reads, or one with a sign in front of a decimal number or behind a radix mark (`Number.value?_produced`). -/

namespace SoundLang

namespace Number

/-- The lexer reads the text as one number and nothing else. -/
def Produced (text : String) : Prop := ∃ t, tokens text = .ok [t] ∧ t.kind = .number text

/-- The text is that of a number with the sign in front of its digits: at the start of a decimal number, and behind a
radix mark. -/
inductive WithSign (sign : List Char) : List Char → List Char → Prop
  | front {bare : List Char} (hbare : ∀ c ∈ bare, radix? c = none) : WithSign sign bare (sign ++ bare)
  | marked {mark : Char} {radix : Nat} {ds : List Char} (hmark : radix? mark = some radix) :
      WithSign sign ('0' :: mark :: ds) ('0' :: mark :: (sign ++ ds))

/-! ### What has the form of a number -/

section
variable {text : String}

/-- A text of one token is scanned as that token. -/
theorem scanned_of_tokens {t : Token} (h : tokens text = .ok [t]) : ∃ line, Lexer.Scanned line (.ok t) := by
  have hrest : (Lexer.fresh text).rest = [.ok t] := by
    rw [tokens_eq] at h
    cases herror : (Entry.upToError (Lexer.fresh text).rest).2 with
    | none =>
        rw [herror] at h
        rw [Entry.upToError_eq_none herror, Except.ok.inj h]
        rfl
    | some e =>
        rw [herror] at h
        cases h
  exact (Lexer.tokensScanned_opened (.ofText text none) .off).of_mem_rest (hrest ▸ List.mem_singleton_self _)

theorem produced_iff : Produced text ↔ Lexeme.IsNumber text.toList := by
  constructor
  · rintro ⟨t, ht, hkind⟩
    obtain ⟨line, hscanned⟩ := scanned_of_tokens ht
    exact hscanned.isNumber hkind
  · intro h
    have hspelled : Lexer.Spelled (.number text) text.toList := ⟨rfl, h⟩
    exact hspelled.exists_token

end

section
variable {c : Char}

theorem not_isNumber_of_sign (hc : c = '+' ∨ c = '-') (tail : List Char) : ¬ Lexeme.IsNumber (c :: tail) := by
  intro h
  obtain ⟨_, _, heq, hstart⟩ := h.numeral.exists_cons
  cases heq
  obtain rfl | rfl := hc <;> revert hstart <;> decide

theorem not_isNumber_of_marked_sign {mark : Char} {radix : Nat} (hmark : radix? mark = some radix)
    (hc : c = '+' ∨ c = '-') (tail : List Char) : ¬ Lexeme.IsNumber ('0' :: mark :: c :: tail) := by
  intro h
  have hdigit := (digits_of_isNumber h hmark).2 c List.mem_cons_self
  obtain rfl | rfl := hc <;> cases hdigit

/-- A sign in front of its digits takes away the form of a number. -/
theorem WithSign.isNumber_iff {sign bare cs : List Char} (h : WithSign sign bare cs)
    (hsign : sign = [] ∨ sign = ['+'] ∨ sign = ['-']) (hbare : Lexeme.IsNumber bare) :
    Lexeme.IsNumber cs ↔ sign = [] := by
  constructor
  · intro hcs
    obtain rfl | ⟨c, hc, rfl⟩ : sign = [] ∨ ∃ c, (c = '+' ∨ c = '-') ∧ sign = [c] := by simpa using hsign
    · rfl
    · cases h with
      | front => exact absurd hcs (not_isNumber_of_sign hc _)
      | marked hmark => exact absurd hcs (not_isNumber_of_marked_sign hmark hc _)
  · rintro rfl
    cases h <;> exact hbare

end

/-! ### What has a value -/

section
variable {radix n : Nat} {cs : List Char}

theorem natural?_eq_some (h : natural? radix cs = some n) : cs ≠ [] ∧ ∀ c ∈ cs, isDigit radix c = true := by
  rw [natural?, Option.ite_none_right_eq_some] at h
  exact ⟨h.1.1, List.all_eq_true.mp h.1.2⟩

theorem natural?_ten_eq_some (h : natural? 10 cs = some n) : cs ≠ [] ∧ ∀ c ∈ cs, c.isDigit = true := by
  rw [← isDigit_ten]
  exact natural?_eq_some h

/-- One sign is taken off, or none. -/
theorem exists_sign (cs : List Char) :
    ∃ sign, (sign = [] ∨ sign = ['+'] ∨ sign = ['-']) ∧ cs = sign ++ (unsign cs).2 := by
  unfold unsign
  split
  · exact ⟨['-'], .inr (.inr rfl), rfl⟩
  · exact ⟨['+'], .inr (.inl rfl), rfl⟩
  · exact ⟨[], .inl rfl, rfl⟩

theorem digits_of_integer? {value : Int} (h : integer? radix cs = some value) :
    (unsign cs).2 ≠ [] ∧ ∀ c ∈ (unsign cs).2, isDigit radix c = true := by
  rw [integer?_eq_bind, Option.bind_eq_some_iff] at h
  obtain ⟨n, hn, -⟩ := h
  exact natural?_eq_some hn

/-- Behind a mantissa stands nothing, or an exponent. -/
theorem isNumber_of_exponent? {m rest : List Char} (hm : Lexeme.IsMantissa m) {e : Int}
    (he : exponent? rest = some e) : Lexeme.IsNumber (m ++ rest) ∧ ∀ c ∈ m ++ rest, radix? c = none := by
  cases rest with
  | nil =>
      rw [List.append_nil]
      exact ⟨.plain hm, fun _ hc => hm.radix? hc⟩
  | cons mark rest =>
      obtain ⟨hmark, n, hn⟩ : (mark = 'e' ∨ mark = 'E') ∧ ∃ n, natural? 10 (unsign rest).2 = some n := by
        simp only [exponent?] at he
        split at he
        · next hmark =>
            obtain ⟨n, hn, -⟩ := Option.bind_eq_some_iff.mp he
            exact ⟨hmark, n, hn⟩
        · cases he
      obtain ⟨hne, hds⟩ := natural?_ten_eq_some hn
      obtain ⟨sign, hsign, hrest⟩ := exists_sign rest
      rw [hrest]
      exact ⟨.scaled hm hmark hsign hne hds, Lexeme.radix?_of_scaled hm hmark hsign hds⟩

/-- What is read as a decimal number has the form of one behind its sign. -/
theorem isNumber_of_decimal? {d : Decimal} (h : decimal? cs = some d) :
    Lexeme.IsNumber (unsign cs).2 ∧ ∀ c ∈ (unsign cs).2, radix? c = none := by
  simp only [decimal?, isDigit_ten] at h
  generalize (unsign cs).2 = body at h ⊢
  have hdigits (ds : List Char) : ∀ c ∈ ds.takeWhile Char.isDigit, c.isDigit = true :=
    fun _ hc => List.mem_takeWhile_imp hc
  rw [← body.takeWhile_append_dropWhile (p := Char.isDigit)]
  split at h
  · next fraction hpoint =>
      split at h
      · cases h
      · next hsome =>
          obtain ⟨e, he, -⟩ := Option.bind_eq_some_iff.mp h
          have hm : Lexeme.IsMantissa (body.takeWhile Char.isDigit ++ '.' :: fraction.takeWhile Char.isDigit) :=
            .point (by tauto) (hdigits _) (hdigits _)
          have hnumber := isNumber_of_exponent? hm he
          rw [List.append_assoc, List.cons_append, List.takeWhile_append_dropWhile] at hnumber
          rwa [hpoint]
  · split at h
    · cases h
    · next hsome =>
        obtain ⟨e, he, -⟩ := Option.bind_eq_some_iff.mp h
        exact isNumber_of_exponent? (.whole (by tauto) (hdigits _)) he

theorem withSign_of_unmarked? {v : Number} (h : unmarked? cs = some v) :
    ∃ sign bare, (sign = [] ∨ sign = ['+'] ∨ sign = ['-']) ∧ WithSign sign bare cs ∧ Lexeme.IsNumber bare := by
  obtain ⟨sign, hsign, hcs⟩ := exists_sign cs
  obtain ⟨hnumber, hradix⟩ : Lexeme.IsNumber (unsign cs).2 ∧ ∀ c ∈ (unsign cs).2, radix? c = none := by
    unfold unmarked? at h
    split at h
    · obtain ⟨value, hvalue, -⟩ := Option.map_eq_some_iff.mp h
      obtain ⟨hne, hds⟩ := digits_of_integer? hvalue
      rw [isDigit_ten] at hds
      exact ⟨.plain (.whole hne hds), fun c hc => Lexeme.radix?_of_isDigit (hds c hc)⟩
    · obtain ⟨d, hd, -⟩ := Option.map_eq_some_iff.mp h
      exact isNumber_of_decimal? hd
  have hfront := @WithSign.front sign _ hradix
  rw [← hcs] at hfront
  exact ⟨sign, _, hsign, hfront, hnumber⟩

theorem withSign_of_value? {text : String} {v : Number} (h : value? text = some v) :
    ∃ sign bare, (sign = [] ∨ sign = ['+'] ∨ sign = ['-']) ∧ WithSign sign bare text.toList ∧
      Lexeme.IsNumber bare := by
  unfold value? at h
  split at h
  · next mark digits htext =>
      rw [htext]
      split at h
      · next radix hmark =>
          obtain ⟨value, hvalue, -⟩ := Option.map_eq_some_iff.mp h
          obtain ⟨hne, hds⟩ := digits_of_integer? hvalue
          obtain ⟨sign, hsign, hdigits⟩ := exists_sign digits
          have hmarked := @WithSign.marked sign mark radix (unsign digits).2 hmark
          rw [← hdigits] at hmarked
          exact ⟨sign, _, hsign, hmarked, .radix hmark hne hds⟩
      · exact withSign_of_unmarked? h
  · exact withSign_of_unmarked? h

end

/-- What has a value is a number that the lexer reads, or such a number with one sign in front of its digits, which the
lexer does not read as a number. -/
theorem value?_produced {text : String} {v : Number} (h : value? text = some v) :
    ∃ sign bare, (sign = [] ∨ sign = ['+'] ∨ sign = ['-']) ∧ WithSign sign bare text.toList ∧
      Produced (String.ofList bare) ∧ (Produced text ↔ sign = []) := by
  obtain ⟨sign, bare, hsign, htext, hbare⟩ := withSign_of_value? h
  refine ⟨sign, bare, hsign, htext, ?_, ?_⟩
  · rw [produced_iff, String.toList_ofList]
    exact hbare
  · rw [produced_iff]
    exact htext.isNumber_iff hsign hbare

/-- Digits behind a radix mark, with no sign. -/
theorem value?_produced_ofHexadecimal : value? "0x1F" = some (.integer 31) ∧ Produced "0x1F" := by
  have hvalue : value? "0x1F" = some (.integer 31) := rfl
  obtain ⟨sign, bare, hsign, htext, -, hproduced⟩ := value?_produced hvalue
  refine ⟨hvalue, hproduced.mpr ?_⟩
  have hchars : WithSign sign bare ['0', 'x', '1', 'F'] := htext
  obtain rfl | rfl | rfl := hsign
  · rfl
  all_goals cases hchars

/-- A sign in front of a decimal number is a token of its own, and behind a radix mark there are no digits then. -/
theorem value?_of_signed :
    ((∃ x, value? "-5" = some (.real x)) ∧ ¬ Produced "-5" ∧
      tokens "-5" = .ok [⟨.symbol .minus, .onLine 0 0 1⟩, ⟨.number "5", .onLine 0 1 2⟩]) ∧
    (value? "0x-5" = some (.integer (-5)) ∧ ¬ Produced "0x-5" ∧
      tokens "0x-5" = .error (.emptyRadix "0x" (.onLine 0 0 2))) := by
  have hsymbol : tokens "-5" = .ok [⟨.symbol .minus, .onLine 0 0 1⟩, ⟨.number "5", .onLine 0 1 2⟩] := by
    decide +kernel
  have herror : tokens "0x-5" = .error (.emptyRadix "0x" (.onLine 0 0 2)) := by
    decide +kernel
  refine ⟨⟨⟨_, rfl⟩, ?_, hsymbol⟩, rfl, ?_, herror⟩
  · rintro ⟨t, ht, -⟩
    rw [hsymbol] at ht
    cases ht
  · rintro ⟨t, ht, -⟩
    rw [herror] at ht
    cases ht

end Number

end SoundLang
