import Mathlib.Data.List.Basic
import SoundLang.Lexer.Mode
import SoundLang.Text.Quoted

/-! # What quoted texts show

A quoted text shows each character as itself, by a letter behind a backslash, or by its number (`ShownAs`).  A number
ends in a brace, which is no digit, so each character can be told from what follows it (`ShownAs.append_inj`): texts
that are quoted alike are equal (`quote_inj`).  Line feeds are shown by their letter, so a quoted text has one line
(`newline_notMem_quote`). -/

namespace SoundLang.Text

/-- What stands in front of the first of some characters, and what stands behind it. -/
theorem cut_inj {c : Char} {xs ys rest rest' : List Char} (hx : c ∉ xs) (hy : c ∉ ys)
    (h : xs ++ c :: rest = ys ++ c :: rest') : xs = ys ∧ rest = rest' := by
  obtain ⟨zs, rfl, hrest⟩ | ⟨zs, rfl, hrest⟩ := List.append_eq_append_iff.mp h
  all_goals
    cases zs with
    | nil => exact ⟨by simp, by simpa [eq_comm] using hrest⟩
    | cons d zs =>
        obtain ⟨rfl, -⟩ := List.cons.inj hrest
        simp at hx hy

/-! ### Numbers in base sixteen -/

section
variable {m n : Nat}

/-- The digits of base sixteen, in small letters. -/
def smallDigits : List Char := "0123456789abcdef".toList

theorem digitChar_mem (h : n < 16) : n.digitChar ∈ smallDigits := by
  have hall : ∀ n < 16, n.digitChar ∈ smallDigits := by decide
  exact hall n h

theorem digitChar_inj (hm : m < 16) (hn : n < 16) (h : m.digitChar = n.digitChar) : m = n := by
  have hall : ∀ m < 16, ∀ n < 16, m.digitChar = n.digitChar → m = n := by decide
  exact hall m hm n hn h

/-- The digits in front of the last one. -/
theorem exists_hexadecimal (n : Nat) :
    ∃ front, hexadecimal n = front ++ [(n % 16).digitChar] ∧ front = if n < 16 then [] else hexadecimal (n / 16) := by
  refine ⟨_, ?_, rfl⟩
  rw [hexadecimal, Nat.toDigits_eq_if (by decide)]
  split
  · next h => rw [Nat.mod_eq_of_lt h, List.nil_append]
  · rfl

theorem hexadecimal_ne_nil : hexadecimal n ≠ [] := Nat.toDigits_ne_nil

theorem mem_smallDigits (n : Nat) : ∀ c ∈ hexadecimal n, c ∈ smallDigits := by
  induction n using Nat.strongRecOn with
  | ind n ih =>
      obtain ⟨front, hdigits, hfront⟩ := exists_hexadecimal n
      rw [hdigits]
      refine List.forall_mem_append.mpr ⟨?_, List.forall_mem_singleton.mpr (digitChar_mem (by omega))⟩
      rw [hfront]
      split
      · exact nofun
      · exact ih (n / 16) (by omega)

/-- Numbers with the same digits are equal. -/
theorem hexadecimal_inj (h : hexadecimal m = hexadecimal n) : m = n := by
  induction m using Nat.strongRecOn generalizing n with
  | ind m ih =>
      obtain ⟨front, hm, hfront⟩ := exists_hexadecimal m
      obtain ⟨front', hn, hfront'⟩ := exists_hexadecimal n
      rw [hm, hn] at h
      obtain ⟨rfl, hlast⟩ := List.append_inj' h rfl
      have hmod : m % 16 = n % 16 := digitChar_inj (by omega) (by omega) (List.cons.inj hlast).1
      have hdiv : m / 16 = n / 16 := by
        rw [hfront] at hfront'
        split at hfront' <;> split at hfront'
        · omega
        · exact absurd hfront'.symm hexadecimal_ne_nil
        · exact absurd hfront' hexadecimal_ne_nil
        · exact ih (m / 16) (by omega) hfront'
      omega

end

/-! ### Characters -/

/-- What shows a character by its number, behind a backslash. -/
def numberOf (c : Char) : List Char := 'u' :: '\x7b' :: (hexadecimal c.toNat ++ ['\x7d'])

/-- The ways to show a character in quotes. -/
inductive ShownAs (c : Char) : List Char → Prop
  | itself (h : c ∉ ['"', '\\', '\r', '\n']) : ShownAs c [c]
  /-- A letter that stands for the character, or the character behind a backslash. -/
  | letter {d : Char} (h : Lexer.unescape d = c) (hd : d ∉ ['u', '\r', '\n']) : ShownAs c ['\\', d]
  | number : ShownAs c ('\\' :: numberOf c)

theorem shownAs_quoteChar (c : Char) : ShownAs c (quoteChar c) := by
  unfold quoteChar
  split
  case h_7 hquote hbackslash _ _ hreturn hfeed =>
    split
    · exact .number
    · exact .itself (by simpa using ⟨hquote, hbackslash, hreturn, hfeed⟩)
  all_goals exact .letter rfl (by decide)

section
variable {c c' : Char} {shown shown' rest rest' : List Char}

theorem brace_notMem_hexadecimal (n : Nat) : '\x7d' ∉ hexadecimal n :=
  fun h => absurd (mem_smallDigits n _ h) (by decide)

/-- A character that is shown can be told from what follows it. -/
theorem ShownAs.append_inj (h : ShownAs c shown) (h' : ShownAs c' shown') (heq : shown ++ rest = shown' ++ rest') :
    c = c' ∧ rest = rest' := by
  cases h with
  | itself hc =>
      cases h' with
      | itself => exact List.cons.inj heq
      | letter | number =>
          obtain ⟨rfl, -⟩ := List.cons.inj heq
          simp at hc
  | letter h hd =>
      cases h' with
      | itself hc =>
          obtain ⟨rfl, -⟩ := List.cons.inj heq
          simp at hc
      | letter h' =>
          simp only [List.cons_append, List.nil_append, List.cons.injEq, true_and] at heq
          exact ⟨by rw [← h, ← h', heq.1], heq.2⟩
      | number =>
          simp only [List.cons_append, List.nil_append, numberOf, List.cons.injEq, true_and] at heq
          simp [heq.1] at hd
  | number =>
      cases h' with
      | itself hc =>
          obtain ⟨rfl, -⟩ := List.cons.inj heq
          simp at hc
      | letter _ hd =>
          simp only [List.cons_append, List.nil_append, numberOf, List.cons.injEq, true_and] at heq
          simp [← heq.1] at hd
      | number =>
          simp only [numberOf, List.cons_append, List.append_assoc, List.nil_append, List.cons.injEq, true_and] at heq
          obtain ⟨hdigits, hrest⟩ := cut_inj (brace_notMem_hexadecimal _) (brace_notMem_hexadecimal _) heq
          exact ⟨Char.toNat_inj.mp (hexadecimal_inj hdigits), hrest⟩

theorem ShownAs.ne_nil (h : ShownAs c shown) : shown ≠ [] := by
  cases h <;> exact List.cons_ne_nil _ _

/-- What shows a character is on one line. -/
theorem ShownAs.notMem (h : ShownAs c shown) : '\r' ∉ shown ∧ '\n' ∉ shown := by
  have hdigits {d : Char} (hd : d ∉ smallDigits) : d ∉ hexadecimal c.toNat :=
    fun hmem => hd (mem_smallDigits _ _ hmem)
  cases h with
  | itself hc => simp_all [eq_comm]
  | letter _ hd => simp_all [eq_comm]
  | number => simp [numberOf, hdigits (show '\r' ∉ smallDigits by decide), hdigits (show '\n' ∉ smallDigits by decide)]

end

/-! ### Texts -/

theorem flatMap_quoteChar_inj : ∀ {cs ds : List Char}, cs.flatMap quoteChar = ds.flatMap quoteChar → cs = ds
  | [], [], _ => rfl
  | [], d :: ds, h => by
      rw [List.flatMap_cons] at h
      exact absurd (List.append_eq_nil_iff.mp h.symm).1 (shownAs_quoteChar d).ne_nil
  | c :: cs, [], h => by
      rw [List.flatMap_cons] at h
      exact absurd (List.append_eq_nil_iff.mp h).1 (shownAs_quoteChar c).ne_nil
  | c :: cs, d :: ds, h => by
      rw [List.flatMap_cons, List.flatMap_cons] at h
      obtain ⟨rfl, hrest⟩ := (shownAs_quoteChar c).append_inj (shownAs_quoteChar d) h
      rw [flatMap_quoteChar_inj hrest]

theorem toList_quote (text : String) : (quote text).toList = '"' :: (text.toList.flatMap quoteChar ++ ['"']) := by
  rw [quote, String.toList_ofList, List.cons_append]

/-- Texts that are quoted alike are equal. -/
theorem quote_inj {s t : String} (h : quote s = quote t) : s = t := by
  rw [← String.toList_inj, toList_quote, toList_quote, List.cons.injEq, List.append_cancel_right_eq] at h
  exact String.toList_inj.mp (flatMap_quoteChar_inj h.2)

theorem return_notMem_shown (cs : List Char) : '\r' ∉ cs.flatMap quoteChar := by
  simp [List.mem_flatMap, (shownAs_quoteChar _).notMem.1]

/-- A quoted text has one line. -/
theorem newline_notMem_quote (text : String) : '\n' ∉ (quote text).toList := by
  rw [toList_quote]
  simp [List.mem_flatMap, (shownAs_quoteChar _).notMem.2]

end SoundLang.Text
