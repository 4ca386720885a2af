import SoundLang.Proofs.Source.Place

/-! # Spans that meet

What a log shows for a span up to some place, and what it shows for a span from there on, are put together what it shows
for both spans as one; and from the start of its first line to the end of its last one it shows its whole text
(`Log.excerpt_adjacent`).  Lines may hold any characters, so the places are told by lines and bytes and not by a walk
over the text. -/

namespace SoundLang

namespace Log

/-- The place is a boundary between characters on one of the lines, which are numbered from `first`. -/
inductive Among : Nat → List String → Pos → Prop
  | here {first : Nat} {line : String} {lines : List String} {before after : List Char}
      (h : line.toList = before ++ after) : Among first (line :: lines) ⟨first, Text.size before⟩
  | behind {first : Nat} {line : String} {lines : List String} {p : Pos} (h : Among (first + 1) lines p) :
      Among first (line :: lines) p

theorem Among.le {first : Nat} {lines : List String} {p : Pos} (h : Among first lines p) : first ≤ p.line := by
  induction h with
  | here => exact Nat.le_refl _
  | behind _ ih => exact Nat.le_of_succ_le ih

/-- A line on which there are places has a start. -/
theorem Among.start {first : Nat} {lines : List String} {p : Pos} (h : Among first lines p) :
    Among first lines ⟨first, 0⟩ := by
  cases h with
  | here | behind => exact @here _ _ _ [] _ rfl

theorem Among.behind_of_lt {first : Nat} {line : String} {lines : List String} {p : Pos}
    (h : Among first (line :: lines) p) (hlt : first < p.line) : Among (first + 1) lines p := by
  cases h with
  | here => exact absurd hlt (Nat.lt_irrefl _)
  | behind h => exact h

theorem among_of_getElem? {first i : Nat} {lines : List String} {line : String} {before after : List Char}
    (hline : lines[i]? = some line) (htext : line.toList = before ++ after) :
    Among first lines ⟨first + i, Text.size before⟩ := by
  induction lines generalizing first i with
  | nil => cases hline
  | cons l lines ih =>
      cases i with
      | zero =>
          cases hline
          exact .here htext
      | succ i =>
          rw [show first + (i + 1) = first + 1 + i by omega]
          exact .behind (ih hline)

theorem Boundary.among {log : Log} {p : Pos} (h : log.Boundary p) : Among 0 log.lines.toList p := by
  obtain ⟨line, before, after, hline, htext, hsize⟩ := h
  obtain ⟨i, byte⟩ := p
  rw [line?, ← Array.getElem?_toList] at hline
  have := @among_of_getElem? 0 _ _ _ _ _ hline htext
  rwa [Nat.zero_add, hsize] at this

/-! ### Parts of lines -/

section
variable {first : Nat} {line : String} {lines : List String} {xs xs' middle after : List Char}

/-- On one line a span covers one part. -/
theorem covered_onLine (h : line.toList = xs ++ (middle ++ after)) :
    covered first (line :: lines) ⟨⟨first, Text.size xs⟩, ⟨first, Text.size (xs ++ middle)⟩⟩ = [middle] := by
  have := piece_between h
  simpa [covered] using this

/-- A span that ends behind the first line covers what is left of this line, and more. -/
theorem exists_covered_eq {stop : Pos} (hstop : first < stop.line) :
    ∃ more, ∀ {before after : List Char}, line.toList = before ++ after →
      covered first (line :: lines) ⟨⟨first, Text.size before⟩, stop⟩ = after :: more :=
  ⟨_, fun h => by rw [covered_cons hstop, piece_from h]⟩

theorem intercalate_append_cons (part rest : List Char) (more : List (List Char)) :
    part ++ ['\n'].intercalate (rest :: more) = ['\n'].intercalate ((part ++ rest) :: more) := by
  cases more <;> simp

end

/-- Parts that meet are put together to one. -/
theorem intercalate_covered_append {first : Nat} {lines : List String} {a b c : Pos} (ha : Among first lines a)
    (hb : Among first lines b) (hc : Among first lines c) (hab : a ≤ b) (hbc : b ≤ c) :
    ['\n'].intercalate (covered first lines ⟨a, b⟩) ++ ['\n'].intercalate (covered first lines ⟨b, c⟩) =
      ['\n'].intercalate (covered first lines ⟨a, c⟩) := by
  induction lines generalizing first a with
  | nil => cases ha
  | cons line lines ih =>
      have hab' := Pos.le_iff.mp hab
      have hbc' := Pos.le_iff.mp hbc
      cases ha with
      | behind ha =>
          have hle := ha.le
          have hb := hb.behind_of_lt (by omega)
          have hc := hc.behind_of_lt (by omega)
          rw [covered_behind hle, covered_behind (show first < b.line by omega), covered_behind hle]
          exact ih ha hb hc hab
      | @here _ _ _ xs xs' hxs =>
          cases hb with
          | behind hb =>
              -- the first line is covered in front of both, and what is left starts with the next line
              have hlt := hb.le
              have hc := hc.behind_of_lt (by omega)
              have hnext : (⟨first + 1, 0⟩ : Pos) ≤ b := by
                rw [Pos.le_iff]
                simp only
                omega
              obtain ⟨next, later, rfl⟩ := List.exists_cons_of_ne_nil (show lines ≠ [] by rintro rfl; cases hb)
              have htail := ih hb.start hb hc hnext
              rw [covered_behind (s := ⟨b, c⟩) hlt, covered_cons hlt, covered_cons hc.le,
                List.intercalate_cons_of_ne_nil (covered_ne_nil hlt),
                List.intercalate_cons_of_ne_nil (covered_ne_nil hc.le), ← htail]
              simp only [List.append_assoc]
          | @here _ _ _ ys ys' hys =>
              obtain ⟨middle, rfl, rfl⟩ := Text.exists_append_of_size_le (hxs.symm.trans hys) (by simpa using hab')
              cases hc with
              | behind hc =>
                  obtain ⟨more, hmore⟩ := @exists_covered_eq first line lines c hc.le
                  rw [covered_onLine hxs, hmore hys, hmore hxs, List.intercalate_singleton, intercalate_append_cons]
              | @here _ _ _ zs zs' hzs =>
                  obtain ⟨middle', rfl, rfl⟩ := Text.exists_append_of_size_le (hys.symm.trans hzs) (by simpa using hbc')
                  have hall : line.toList = xs ++ ((middle ++ middle') ++ zs') := by
                    rw [hxs, List.append_assoc]
                  rw [covered_onLine hxs, covered_onLine hys, List.append_assoc, covered_onLine hall]
                  simp

/-- From the start of the first line to the end of the last one all lines are covered. -/
theorem covered_all (first : Nat) (lines : List String) (last : String) :
    covered first (lines ++ [last]) ⟨⟨first, 0⟩, ⟨first + lines.length, last.utf8ByteSize⟩⟩ =
      (lines ++ [last]).map String.toList := by
  induction lines generalizing first with
  | nil =>
      have hall : last.toList = [] ++ (last.toList ++ []) := by simp
      have := @covered_onLine first last [] _ _ _ hall
      rwa [List.nil_append, Text.size_toList] at this
  | cons line lines ih =>
      have htail := ih (first + 1)
      have hline : line.toList = [] ++ line.toList := rfl
      rw [List.cons_append, List.length_cons, covered_cons (by simp), List.map_cons, ← htail,
        show first + (lines.length + 1) = first + 1 + lines.length by omega]
      exact congrArg (· :: _) (piece_from hline)

/-- What is shown for two spans that meet is shown for both as one, wherever they start, meet and end; and from the start
of the first line to the end of the last one all lines are shown, joined by line feeds. -/
theorem excerpt_adjacent (log : Log) :
    (∀ a b c, log.Boundary a → log.Boundary b → log.Boundary c → a ≤ b → b ≤ c →
      log.excerpt ⟨a, b⟩ ++ log.excerpt ⟨b, c⟩ = log.excerpt ⟨a, c⟩) ∧
    ∀ last, log.lines.toList.getLast? = some last →
      log.excerpt ⟨⟨0, 0⟩, ⟨log.size - 1, last.utf8ByteSize⟩⟩ = String.ofList log.text := by
  refine ⟨fun a b c ha hb hc hab hbc => ?_, fun last hlast => ?_⟩
  · rw [excerpt_eq_covered, excerpt_eq_covered, excerpt_eq_covered, ← String.ofList_append,
      intercalate_covered_append ha.among hb.among hc.among hab hbc]
  · obtain ⟨lines, hlines⟩ := List.getLast?_eq_some_iff.mp hlast
    have hsize : log.size - 1 = 0 + lines.length := by
      rw [Log.size, ← Array.length_toList, hlines]
      simp
    rw [excerpt_eq_covered, text, hlines, hsize, covered_all]

/-- The first span starts behind a character of two bytes, and the spans meet on an empty line. -/
theorem excerpt_adjacent_onEmptyLine :
    (⟨#["é = 1", "", "end"]⟩ : Log).excerpt ⟨⟨0, 2⟩, ⟨1, 0⟩⟩ ++
        (⟨#["é = 1", "", "end"]⟩ : Log).excerpt ⟨⟨1, 0⟩, ⟨2, 2⟩⟩ =
      (⟨#["é = 1", "", "end"]⟩ : Log).excerpt ⟨⟨0, 2⟩, ⟨2, 2⟩⟩ ∧
    (⟨#["é = 1", "", "end"]⟩ : Log).excerpt ⟨⟨0, 0⟩, ⟨2, 3⟩⟩ = "é = 1\n\nend" := by
  obtain ⟨hmeet, hall⟩ := excerpt_adjacent ⟨#["é = 1", "", "end"]⟩
  have ha : (⟨#["é = 1", "", "end"]⟩ : Log).Boundary ⟨0, 2⟩ := ⟨"é = 1", ['é'], " = 1".toList, rfl, rfl, rfl⟩
  have hb : (⟨#["é = 1", "", "end"]⟩ : Log).Boundary ⟨1, 0⟩ := ⟨"", [], [], rfl, rfl, rfl⟩
  have hc : (⟨#["é = 1", "", "end"]⟩ : Log).Boundary ⟨2, 2⟩ := ⟨"end", ['e', 'n'], ['d'], rfl, rfl, rfl⟩
  exact ⟨hmeet _ _ _ ha hb hc (by decide) (by decide), hall "end" rfl⟩

end Log

end SoundLang
