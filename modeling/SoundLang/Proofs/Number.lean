import Mathlib.Data.Nat.Digits.Defs
import SoundLang.Proofs.Lexer.Rendered

/-! # The value of a number that is read

A number that a lexer serves is an integer in its base (`Number.Whole`) or a real number.  The first has its positional
value, if that fits (`Number.value?_whole`), and the second always has a value (`Number.value?_real`). -/

namespace SoundLang

namespace Number

/-- The text is an integer in a base: digits alone, or what stands behind a radix mark. -/
inductive Whole : List Char → Nat → List Char → Prop
  | plain {ds : List Char} (hds : ∀ c ∈ ds, c.isDigit = true) : Whole ds 10 ds
  | marked {mark : Char} {radix : Nat} {ds : List Char} (hmark : (mark, radix) ∈ [('b', 2), ('o', 8), ('x', 16)]) :
      Whole ('0' :: mark :: ds) radix ds

/-- The digits stand for the number in their base, the last one for the ones. -/
def Denotes (radix : Nat) (ds : List Char) (n : Nat) : Prop :=
  ∃ values : List Nat, ds.map digit? = values.map some ∧ (∀ v ∈ values, v < radix) ∧
    Nat.ofDigits radix values.reverse = n

/-! ### Digits -/

theorem isDigit_ten : isDigit 10 = Char.isDigit := by
  funext c
  rw [Bool.eq_iff_iff, Lexeme.isDigit_iff, ← Lexeme.mem_digits, Lexeme.Pattern.digits,
    Lexeme.Pattern.mem_range (by decide)]
  simp only [Lexeme.Pattern.le_iff_toNat, Char.reduceToNat]
  omega

theorem digit?_of_isDigit {radix : Nat} {c : Char} (h : isDigit radix c = true) :
    ∃ v, digit? c = some v ∧ v < radix := by
  obtain ⟨v, hv, hlt⟩ := (Option.any_eq_true _ _).mp h
  exact ⟨v, hv, of_decide_eq_true hlt⟩

theorem positional_eq_ofDigits (radix : Nat) (ds : List Char) :
    positional radix ds = Nat.ofDigits radix (ds.map fun c => (digit? c).getD 0).reverse := by
  rw [Nat.ofDigits_eq_foldr, List.foldr_reverse, List.foldl_map, positional]
  congr 1
  funext n c
  rw [Nat.mul_comm, Nat.add_comm]
  rfl

/-- Digits of a base denote their positional value. -/
theorem denotes_positional {radix : Nat} {ds : List Char} (hds : ∀ c ∈ ds, isDigit radix c = true) :
    Denotes radix ds (positional radix ds) := by
  refine ⟨ds.map fun c => (digit? c).getD 0, ?_, ?_, (positional_eq_ofDigits radix ds).symm⟩
  · rw [List.map_map]
    refine List.map_congr_left fun c hc => ?_
    obtain ⟨v, hv, -⟩ := digit?_of_isDigit (hds c hc)
    simp [hv]
  · rw [List.forall_mem_map]
    intro c hc
    obtain ⟨v, hv, hlt⟩ := digit?_of_isDigit (hds c hc)
    simpa [hv] using hlt

/-- Digits denote one number only. -/
theorem Denotes.eq_positional {radix n : Nat} {ds : List Char} (h : Denotes radix ds n) : n = positional radix ds := by
  obtain ⟨values, hvalues, -, rfl⟩ := h
  have hget : (ds.map digit?).map (fun v => v.getD 0) = values := by simp [hvalues]
  rw [List.map_map] at hget
  rw [positional_eq_ofDigits, ← hget]
  rfl

/-- No digit is a sign. -/
theorem unsign_of_ne {c : Char} (hminus : c ≠ '-') (hplus : c ≠ '+') (cs : List Char) :
    unsign (c :: cs) = (false, c :: cs) := by
  unfold unsign
  split
  · next h => exact absurd (List.cons.inj h).1 hminus
  · next h => exact absurd (List.cons.inj h).1 hplus
  · rfl

theorem natural?_digits {radix : Nat} {ds : List Char} (hne : ds ≠ []) (hds : ∀ c ∈ ds, isDigit radix c = true) :
    natural? radix ds = some (positional radix ds) :=
  if_pos ⟨hne, List.all_eq_true.mpr hds⟩

theorem unsign_digits {radix : Nat} {ds : List Char} (hds : ∀ c ∈ ds, isDigit radix c = true) :
    unsign ds = (false, ds) := by
  cases ds with
  | nil => rfl
  | cons d ds =>
      have hd := hds d List.mem_cons_self
      exact unsign_of_ne (Lexeme.ne_of_test hd rfl) (Lexeme.ne_of_test hd rfl) ds

theorem fits_natCast {n : Nat} : Fits (n : Int) ↔ n ≤ 2 ^ 63 - 1 := by
  unfold Fits
  omega

/-- The value with its sign, if it fits. -/
theorem integer?_eq_bind (radix : Nat) (text : List Char) : integer? radix text =
    (natural? radix (unsign text).2).bind fun n =>
      let value : Int := if (unsign text).1 then -n else n
      if Fits value then some value else none := rfl

/-- Digits are read as their positional value, if it fits in 63 bits. -/
theorem integer?_digits {radix : Nat} {ds : List Char} (hne : ds ≠ []) (hds : ∀ c ∈ ds, isDigit radix c = true) :
    integer? radix ds = if positional radix ds ≤ 2 ^ 63 - 1 then some (positional radix ds : Int) else none := by
  have hplus : (if (false, ds).1 then -(positional radix ds : Int) else positional radix ds) = positional radix ds :=
    rfl
  rw [integer?_eq_bind, unsign_digits hds, natural?_digits hne hds, Option.bind_some, hplus]
  by_cases hle : positional radix ds ≤ 2 ^ 63 - 1
  · rw [if_pos hle, if_pos (fits_natCast.mpr hle)]
  · rw [if_neg hle, if_neg fun hfits => hle (fits_natCast.mp hfits)]

/-! ### Decimal numbers -/

section
variable {m sign ds rest : List Char} {mark : Char}

theorem exponent?_marked (hmark : mark = 'e' ∨ mark = 'E') (hsign : sign = [] ∨ sign = ['+'] ∨ sign = ['-'])
    (hne : ds ≠ []) (hds : ∀ c ∈ ds, c.isDigit = true) : ∃ e, exponent? (mark :: (sign ++ ds)) = some e := by
  rw [← isDigit_ten] at hds
  obtain ⟨negative, hunsign⟩ : ∃ negative, unsign (sign ++ ds) = (negative, ds) := by
    obtain rfl | rfl | rfl := hsign
    · exact ⟨false, unsign_digits hds⟩
    · exact ⟨false, rfl⟩
    · exact ⟨true, rfl⟩
  simp [exponent?, hmark, hunsign, natural?_digits hne hds]

theorem unsign_mantissa (hm : Lexeme.IsMantissa m) (rest : List Char) : unsign (m ++ rest) = (false, m ++ rest) := by
  obtain ⟨c, m, rfl⟩ := List.exists_cons_of_ne_nil hm.ne_nil
  obtain hc | rfl := hm.of_mem List.mem_cons_self
  · exact unsign_of_ne (Lexeme.ne_of_test hc rfl) (Lexeme.ne_of_test hc rfl) _
  · rfl

/-- A mantissa has a value, with an exponent behind it or with nothing. -/
theorem decimal?_mantissa (hm : Lexeme.IsMantissa m) (hrest : ∀ c ∈ rest.head?, c.isDigit = false ∧ c ≠ '.')
    {e : Int} (he : exponent? rest = some e) : ∃ d, decimal? (m ++ rest) = some d := by
  have hstop : ∀ c ∈ rest.head?, c.isDigit = false := fun c hc => (hrest c hc).1
  simp only [decimal?, unsign_mantissa hm, isDigit_ten]
  cases hm with
  | whole hne hds =>
      rw [Lexeme.takeWhile_run hds hstop, Lexeme.dropWhile_run hds hstop]
      cases rest with
      | nil => simp [he, hne]
      | cons c rest => simp [(hrest c rfl).2, he, hne]
  | @point ds fs hne hds hfs =>
      have hpoint : ∀ c ∈ ('.' :: (fs ++ rest)).head?, c.isDigit = false := fun c hc => by
        cases hc
        rfl
      have hsome : ¬ (ds = [] ∧ fs = []) := by tauto
      rw [List.append_assoc, List.cons_append, Lexeme.takeWhile_run hds hpoint, Lexeme.dropWhile_run hds hpoint]
      simp [Lexeme.takeWhile_run hfs hstop, Lexeme.dropWhile_run hfs hstop, he, hsome]

end

/-! ### Values -/

variable {text : String}

theorem value?_eq_unmarked? (h : ∀ c ∈ text.toList, radix? c = none) : value? text = unmarked? text.toList := by
  unfold value?
  split
  · next mark digits heq => rw [h mark (by simp [heq]), heq]
  · rfl

/-- A text that is not digits alone is read as a decimal number. -/
theorem value?_of_decimal? (hradix : ∀ c ∈ text.toList, radix? c = none) {c : Char} (hc : c ∈ text.toList)
    (hdigit : c.isDigit = false) {d : Decimal} (hd : decimal? text.toList = some d) :
    value? text = some (.real d.toFloat) := by
  have hall : ¬ text.toList.all (isDigit 10) = true := by
    rw [isDigit_ten, List.all_eq_true]
    exact fun hds => Bool.false_ne_true (hdigit.symm.trans (hds c hc))
  rw [value?_eq_unmarked? hradix, unmarked?, if_neg hall, hd, Option.map_some]

/-- What stands behind the radix mark of a number are digits of its base. -/
theorem digits_of_isNumber {mark : Char} {radix : Nat} {ds : List Char} (h : Lexeme.IsNumber ('0' :: mark :: ds))
    (hmark : radix? mark = some radix) : ds ≠ [] ∧ ∀ c ∈ ds, isDigit radix c = true := by
  have hnumber := Lexeme.number?_numeral h.numeral
  simp only [Lexeme.number?, hmark, Option.some.injEq, Lexeme.mk.injEq, List.cons.injEq, true_and] at hnumber
  obtain ⟨hdigits, hform⟩ := hnumber
  rw [hdigits] at hform
  refine ⟨?_, List.takeWhile_eq_self_iff.mp hdigits⟩
  rintro rfl
  cases hform

/-- An integer that is a number has its positional value, if that fits. -/
theorem value?_whole (h : Lexeme.IsNumber text.toList) {radix : Nat} {ds : List Char}
    (hwhole : Whole text.toList radix ds) : ∃ n, Denotes radix ds n ∧
      value? text = if n ≤ 2 ^ 63 - 1 then some (.integer n) else none := by
  obtain ⟨hne, hds, hvalue⟩ : ds ≠ [] ∧ (∀ c ∈ ds, isDigit radix c = true) ∧
      value? text = (integer? radix ds).map integer := by
    generalize hcs : text.toList = cs at h hwhole
    cases hwhole with
    | plain hds =>
        have hne : ds ≠ [] := by
          obtain ⟨c, tail, rfl, -⟩ := h.numeral.exists_cons
          exact List.cons_ne_nil c tail
        have hten : ∀ c ∈ ds, isDigit 10 c = true := by rwa [isDigit_ten]
        refine ⟨hne, hten, ?_⟩
        rw [value?_eq_unmarked? fun c hc => Lexeme.radix?_of_isDigit (hds c (hcs ▸ hc)), hcs, unmarked?,
          if_pos (List.all_eq_true.mpr hten)]
    | marked hmark =>
        have hradix := Lexeme.mem_marks.mp hmark
        obtain ⟨hne, hds⟩ := digits_of_isNumber h hradix
        refine ⟨hne, hds, ?_⟩
        rw [value?, hcs]
        simp only [hradix]
  refine ⟨positional radix ds, denotes_positional hds, ?_⟩
  rw [hvalue, integer?_digits hne hds]
  split <;> rfl

/-- Every other number is a real one. -/
theorem value?_real (h : Lexeme.IsNumber text.toList) (hwhole : ∀ radix ds, ¬ Whole text.toList radix ds) :
    ∃ x, value? text = some (.real x) := by
  generalize hcs : text.toList = cs at h hwhole
  cases h with
  | radix hmark => exact absurd (.marked (Lexeme.mem_marks.mpr hmark)) (hwhole _ _)
  | plain hm =>
      obtain ⟨d, hd⟩ := @decimal?_mantissa _ [] hm nofun 0 rfl
      rw [List.append_nil, ← hcs] at hd
      have hradix : ∀ c ∈ text.toList, radix? c = none := fun c hc => hm.radix? (hcs ▸ hc)
      have hpoint : '.' ∈ text.toList := by
        rw [hcs]
        cases hm with
        | whole _ hds => exact absurd (.plain hds) (hwhole _ _)
        | point => simp
      exact ⟨_, value?_of_decimal? hradix hpoint rfl hd⟩
  | @scaled m sign ds mark hm hmark hsign hne hds =>
      have hdigit : mark.isDigit = false ∧ mark ≠ '.' := by obtain rfl | rfl := hmark <;> decide
      have hstop : ∀ c ∈ (mark :: (sign ++ ds)).head?, c.isDigit = false ∧ c ≠ '.' := by simpa using hdigit
      obtain ⟨e, he⟩ := exponent?_marked hmark hsign hne hds
      obtain ⟨d, hd⟩ := decimal?_mantissa hm hstop he
      rw [← hcs] at hd
      have hradix : ∀ c ∈ text.toList, radix? c = none := hcs ▸ Lexeme.radix?_of_scaled hm hmark hsign hds
      have hmem : mark ∈ text.toList := by simp [hcs]
      exact ⟨_, value?_of_decimal? hradix hmem hdigit.1 hd⟩

end Number

namespace Lexer

/-- The text of a number that is found on a line has the form of one. -/
theorem Scanned.isNumber {line : Nat} {t : Token} {text : String} (h : Scanned line (.ok t))
    (ht : t.kind = .number text) : Lexeme.IsNumber text.toList := by
  have hspelled := h.spelled_render (by simp [ht])
  rw [ht] at hspelled
  exact hspelled.2

/-- Every number that is served has its value: integers their positional value in their base, if it fits in 63 bits,
and all others a real one. -/
theorem value?_of_served {input : Input} {prompting : Prompting} {cs : List Call} {t : Token} {text : String}
    (ht : .ok (some t) ∈ served cs (opened input prompting)) (hkind : t.kind = .number text) :
    (∀ radix ds, Number.Whole text.toList radix ds → ∃ n, Number.Denotes radix ds n ∧
      Number.value? text = if n ≤ 2 ^ 63 - 1 then some (.integer n) else none) ∧
    ((∀ radix ds, ¬ Number.Whole text.toList radix ds) → ∃ x, Number.value? text = some (.real x)) := by
  obtain ⟨line, hscanned⟩ := (tokensScanned_opened input prompting).served ht
  have hnumber := hscanned.isNumber hkind
  exact ⟨fun _ _ => Number.value?_whole hnumber, Number.value?_real hnumber⟩

/-- Digits of base sixteen, a value that takes 64 bits, and a point with an exponent behind it. -/
theorem value?_of_served_of_each_kind :
    (.ok (some ⟨.number "0x1F", .onLine 0 0 4⟩) ∈ served [.next] (opened [.line "0x1F"] .off) ∧
      Number.value? "0x1F" = some (.integer 31)) ∧
    (.ok (some ⟨.number "9223372036854775808", .onLine 0 0 19⟩) ∈
        served [.next] (opened [.line "9223372036854775808"] .off) ∧
      Number.value? "9223372036854775808" = none) ∧
    (.ok (some ⟨.number "1.e-3", .onLine 0 0 5⟩) ∈ served [.next] (opened [.line "1.e-3"] .off) ∧
      ∃ x, Number.value? "1.e-3" = some (.real x)) := by
  refine ⟨?hexadecimal, ?large, ?real⟩
  case hexadecimal =>
    have ht : .ok (some ⟨.number "0x1F", .onLine 0 0 4⟩) ∈ served [.next] (opened [.line "0x1F"] .off) := by
      decide +kernel
    have hwhole : Number.Whole "0x1F".toList 16 ['1', 'F'] := .marked (by decide)
    obtain ⟨n, hn, hvalue⟩ := (value?_of_served ht rfl).1 _ _ hwhole
    rw [hn.eq_positional] at hvalue
    exact ⟨ht, hvalue⟩
  case large =>
    have ht : .ok (some ⟨.number "9223372036854775808", .onLine 0 0 19⟩) ∈
        served [.next] (opened [.line "9223372036854775808"] .off) := by decide +kernel
    have hwhole : Number.Whole "9223372036854775808".toList 10 "9223372036854775808".toList :=
      .plain (List.all_eq_true.mp rfl)
    obtain ⟨n, hn, hvalue⟩ := (value?_of_served ht rfl).1 _ _ hwhole
    have hlarge : ¬ n ≤ 2 ^ 63 - 1 := by
      rw [hn.eq_positional]
      decide
    exact ⟨ht, hvalue.trans (if_neg hlarge)⟩
  case real =>
    have ht : .ok (some ⟨.number "1.e-3", .onLine 0 0 5⟩) ∈ served [.next] (opened [.line "1.e-3"] .off) := by
      decide +kernel
    have hwhole : ∀ radix ds, ¬ Number.Whole ['1', '.', 'e', '-', '3'] radix ds := by
      rintro radix ds ⟨hds⟩
      exact absurd (hds '.' (by decide)) (by decide)
    exact ⟨ht, (value?_of_served ht rfl).2 hwhole⟩

end Lexer

end SoundLang
