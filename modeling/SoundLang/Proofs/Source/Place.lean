import SoundLang.Source.Log

/-! # Places in a text

The lines of a log, joined by line feeds, are its text (`Log.text`).  The place behind a beginning of the text is
found by walking over it (`Pos.advance`), and with it the two ways to name a stretch of the text agree: the stretch
behind `pre` that reads `mid` is what the log gives for the span between the place behind `pre` and the one behind
`pre ++ mid` (`Log.excerpt_of_text`), and both places are boundaries between characters (`Log.boundary_of_text`). -/

namespace SoundLang

namespace Pos

/-! ### Walking over a text -/

/-- The place behind a character. -/
def past (p : Pos) (c : Char) : Pos := if c = '\n' then ⟨p.line + 1, 0⟩ else ⟨p.line, p.byte + c.utf8Size⟩

/-- The place behind a text. -/
def advance (p : Pos) (cs : List Char) : Pos := cs.foldl past p

section advance
variable (p : Pos) (cs ds : List Char) (c : Char)

@[simp] theorem advance_nil : p.advance [] = p := rfl

@[simp] theorem advance_cons : p.advance (c :: cs) = (p.past c).advance cs := rfl

theorem advance_append : p.advance (cs ++ ds) = (p.advance cs).advance ds := List.foldl_append

theorem past_of_ne {c : Char} (h : c ≠ '\n') : p.past c = ⟨p.line, p.byte + c.utf8Size⟩ := if_neg h

/-- A text without line feeds stays on its line. -/
theorem advance_of_not_mem {cs : List Char} (h : '\n' ∉ cs) :
    p.advance cs = ⟨p.line, p.byte + Text.size cs⟩ := by
  induction cs generalizing p with
  | nil => rfl
  | cons c cs ih =>
      rw [List.mem_cons, not_or] at h
      rw [advance_cons, past_of_ne p (Ne.symm h.1), ih _ h.2, Text.size_cons, Nat.add_assoc]

/-- Behind a line feed a new line starts. -/
theorem advance_line {line : List Char} (h : '\n' ∉ line) :
    p.advance (line ++ '\n' :: cs) = (⟨p.line + 1, 0⟩ : Pos).advance cs := by
  rw [advance_append, advance_of_not_mem p h]
  rfl

end advance

/-! ### Reading order -/

theorem le_refl (p : Pos) : p ≤ p := le_iff.mpr (.inr ⟨rfl, Nat.le_refl _⟩)

theorem le_trans {p q r : Pos} (hpq : p ≤ q) (hqr : q ≤ r) : p ≤ r := by
  rw [le_iff] at *
  omega

theorem le_past (p : Pos) (c : Char) : p ≤ p.past c := by
  unfold past
  rw [le_iff]
  split
  · exact .inl (Nat.lt_succ_self _)
  · exact .inr ⟨rfl, Nat.le_add_right _ _⟩

theorem le_advance (p : Pos) (cs : List Char) : p ≤ p.advance cs := by
  induction cs generalizing p with
  | nil => exact p.le_refl
  | cons c cs ih => exact le_trans (p.le_past c) (ih _)

theorem past_not_le (p : Pos) (c : Char) : ¬ p.past c ≤ p := by
  have := c.utf8Size_pos
  unfold past
  rw [le_iff]
  split
  · simp
  · simp only [Nat.lt_irrefl, true_and, false_or]
    omega

/-- A text that is not empty leads on. -/
theorem advance_ne (p : Pos) {cs : List Char} (h : cs ≠ []) : p.advance cs ≠ p := by
  cases cs with
  | nil => exact absurd rfl h
  | cons c cs =>
      intro he
      have := le_advance (p.past c) cs
      rw [← advance_cons, he] at this
      exact past_not_le p c this

end Pos

/-- Of two beginnings of a text, the one with fewer bytes is a beginning of the other. -/
theorem Text.exists_append_of_size_le {xs xs' ys ys' : List Char} (h : xs ++ xs' = ys ++ ys')
    (hle : Text.size xs ≤ Text.size ys) : ∃ zs, ys = xs ++ zs ∧ xs' = zs ++ ys' := by
  obtain ⟨zs, hys, hxs'⟩ | ⟨zs, hxs, hys'⟩ := List.append_eq_append_iff.mp h
  · exact ⟨zs, hys, hxs'⟩
  · subst hxs
    have hlength := Text.length_le_size zs
    rw [Text.size_append] at hle
    obtain rfl : zs = [] := List.length_eq_zero_iff.mp (by omega)
    exact ⟨[], by simp, by simpa using hys'.symm⟩

namespace Log

/-! ### The text of a log -/

/-- The lines of a log, joined by line feeds. -/
def text (log : Log) : List Char := ['\n'].intercalate (log.lines.toList.map String.toList)

/-- The place is a boundary between characters on a line of the log. -/
def Boundary (log : Log) (p : Pos) : Prop :=
  ∃ (line : String) (before after : List Char), log.line? p.line = some line ∧
    line.toList = before ++ after ∧ Text.size before = p.byte

/-- The parts of lines that a span covers, when the lines are numbered from `first`. -/
def covered (first : Nat) (lines : List String) (s : Span) : List (List Char) :=
  (((lines.drop (s.start.line - first)).take (s.stop.line + 1 - s.start.line)).zipIdx s.start.line).map
    fun (text, i) => piece text (if i = s.start.line then s.start.byte else 0)
      (if i = s.stop.line then some s.stop.byte else none)

theorem excerpt_eq_covered (log : Log) (s : Span) :
    log.excerpt s = String.ofList (['\n'].intercalate (covered 0 log.lines.toList s)) := rfl

/-- A cut through a text falls on its first line or behind it. -/
theorem cut_of_append {pre post line rest : List Char} (h : pre ++ post = line ++ '\n' :: rest) :
    (∃ a, line = pre ++ a ∧ post = a ++ '\n' :: rest) ∨
      ∃ a, pre = line ++ '\n' :: a ∧ rest = a ++ post := by
  obtain ⟨a, hline, hpost⟩ | ⟨a, hpre, hrest⟩ := List.append_eq_append_iff.mp h
  · exact .inl ⟨a, hline, hpost⟩
  · cases a with
    | nil => exact .inl ⟨[], by simpa using hpre.symm, by simpa using hrest.symm⟩
    | cons c a =>
        rw [List.cons_append, List.cons.injEq] at hrest
        obtain ⟨rfl, hrest⟩ := hrest
        exact .inr ⟨a, hpre, hrest⟩

section piece
variable {line : String} {before middle after : List Char}

theorem slice?_append (before middle after : List Char) :
    Text.slice? (Text.size before) (Text.size (before ++ middle)) (before ++ (middle ++ after)) =
      some middle := by
  unfold Text.slice?
  rw [if_pos (by simp), Text.split?_append, Text.size_append, Nat.add_sub_cancel_left]
  simp [Text.split?_append]

theorem piece_between (h : line.toList = before ++ (middle ++ after)) :
    piece line (Text.size before) (some (Text.size (before ++ middle))) = middle := by
  have hsize : line.utf8ByteSize = Text.size before + (Text.size middle + Text.size after) := by
    rw [← Text.size_toList, h, Text.size_append, Text.size_append]
  simp only [piece, Option.getD_some, hsize]
  rw [Nat.min_eq_left (by omega), Nat.min_eq_left (by rw [Text.size_append]; omega), h, slice?_append]
  rfl

theorem piece_from (h : line.toList = before ++ after) : piece line (Text.size before) none = after := by
  have hsize : line.utf8ByteSize = Text.size (before ++ after) := by
    rw [← Text.size_toList, h]
  have hcut := slice?_append before after []
  simp only [piece, Option.getD_none, hsize]
  rw [Nat.min_eq_left (by rw [Text.size_append]; omega), Nat.min_self, h]
  rw [List.append_nil] at hcut
  rw [hcut]
  rfl

end piece

theorem covered_behind {first : Nat} {line : String} {lines : List String} {s : Span}
    (h : first < s.start.line) : covered first (line :: lines) s = covered (first + 1) lines s := by
  obtain ⟨n, hn⟩ : ∃ n, s.start.line - first = n + 1 := ⟨s.start.line - first - 1, by omega⟩
  have hn' : s.start.line - (first + 1) = n := by omega
  simp only [covered, hn, hn', List.drop_succ_cons]

/-- A span that starts on the first line and ends behind it covers the end of this line, and what the rest of it
covers from the next line on. -/
theorem covered_cons {byte : Nat} {first : Nat} {line : String} {lines : List String} {stop : Pos}
    (h : first < stop.line) : covered first (line :: lines) ⟨⟨first, byte⟩, stop⟩ =
      piece line byte none :: covered (first + 1) lines ⟨⟨first + 1, 0⟩, stop⟩ := by
  obtain ⟨n, hn⟩ : ∃ n, stop.line + 1 - first = n + 1 := ⟨stop.line - first, by omega⟩
  have hn' : stop.line + 1 - (first + 1) = n := by omega
  simp only [covered, Nat.sub_self, List.drop_zero, hn, hn', List.take_succ_cons, List.zipIdx_cons,
    List.map_cons, if_true, if_neg (Nat.ne_of_lt h), List.cons.injEq, true_and]
  refine List.map_congr_left fun x hx => ?_
  have hx := List.le_snd_of_mem_zipIdx hx
  rw [if_neg (by omega), ite_self]

theorem covered_ne_nil {first : Nat} {line : String} {lines : List String} {stop : Pos}
    (h : first ≤ stop.line) : covered first (line :: lines) ⟨⟨first, 0⟩, stop⟩ ≠ [] := by
  have hcount : stop.line + 1 - first ≠ 0 := by omega
  simp [covered, hcount]

/-- What the lines show between two places of their text is the stretch of the text between them. -/
theorem intercalate_covered {lines : List String} (hlines : ∀ l ∈ lines, '\n' ∉ l.toList) (first : Nat)
    {pre mid post : List Char} (h : ['\n'].intercalate (lines.map String.toList) = pre ++ (mid ++ post)) :
    ['\n'].intercalate (covered first lines
      ⟨(⟨first, 0⟩ : Pos).advance pre, (⟨first, 0⟩ : Pos).advance (pre ++ mid)⟩) = mid := by
  induction lines generalizing first pre mid with
  | nil =>
      rw [List.map_nil, List.intercalate_nil] at h
      obtain ⟨rfl, hrest⟩ := List.append_eq_nil_iff.mp h.symm
      obtain ⟨rfl, -⟩ := List.append_eq_nil_iff.mp hrest
      simp [covered]
  | cons line lines ih =>
      rw [List.forall_mem_cons] at hlines
      have honline {pre mid post : List Char} (hcut : line.toList = pre ++ (mid ++ post)) :
          ['\n'].intercalate (covered first (line :: lines)
            ⟨(⟨first, 0⟩ : Pos).advance pre, (⟨first, 0⟩ : Pos).advance (pre ++ mid)⟩) = mid := by
        have hfree := hlines.1
        rw [hcut, List.mem_append, List.mem_append, not_or, not_or] at hfree
        rw [Pos.advance_of_not_mem _ hfree.1, Pos.advance_of_not_mem _ (by simp [hfree])]
        have := piece_between hcut
        simpa [covered] using this
      cases lines with
      | nil => exact honline (by simpa using h)
      | cons next lines =>
          rw [List.map_cons, List.map_cons, List.intercalate_cons_cons, List.append_assoc,
            List.singleton_append, ← List.map_cons] at h
          obtain ⟨a, hline, hrest⟩ | ⟨a, rfl, hrest⟩ := cut_of_append h.symm
          · obtain ⟨b, rfl, -⟩ | ⟨b, rfl, hnext⟩ := cut_of_append hrest
            · exact honline hline
            · -- the span starts on this line and goes on behind it
              have hfree := hlines.1
              rw [hline, List.mem_append, not_or] at hfree
              have hadvance : (⟨first, 0⟩ : Pos).advance (pre ++ (a ++ '\n' :: b)) =
                  (⟨first + 1, 0⟩ : Pos).advance b := by
                rw [← List.append_assoc, Pos.advance_line _ _ (by simp [hfree])]
              have hstop := Pos.le_advance ⟨first + 1, 0⟩ b
              have hlt : first < ((⟨first + 1, 0⟩ : Pos).advance b).line := by
                rw [Pos.le_iff] at hstop
                simp only at hstop
                omega
              have htail := @ih hlines.2 (first + 1) [] b (by simpa using hnext)
              rw [hadvance, Pos.advance_of_not_mem _ hfree.1]
              simp only [Nat.zero_add]
              rw [covered_cons hlt, List.intercalate_cons_of_ne_nil (covered_ne_nil hlt),
                piece_from hline]
              simpa using htail
          · have hadvance (cs : List Char) : (⟨first, 0⟩ : Pos).advance (line.toList ++ '\n' :: cs) =
                (⟨first + 1, 0⟩ : Pos).advance cs := Pos.advance_line _ _ hlines.1
            have hstart := Pos.le_advance ⟨first + 1, 0⟩ a
            rw [List.append_assoc, List.cons_append, hadvance, hadvance, covered_behind]
            · exact ih hlines.2 (first + 1) hrest
            · rw [Pos.le_iff] at hstart
              simp only at hstart ⊢
              omega

/-- The place behind a beginning of the text is a boundary on one of the lines. -/
theorem exists_boundary {lines : List String} (hne : lines ≠ []) (hlines : ∀ l ∈ lines, '\n' ∉ l.toList)
    (first : Nat) {pre post : List Char} (h : ['\n'].intercalate (lines.map String.toList) = pre ++ post) :
    ∃ (line : String) (before after : List Char),
      lines[((⟨first, 0⟩ : Pos).advance pre).line - first]? = some line ∧
        line.toList = before ++ after ∧ Text.size before = ((⟨first, 0⟩ : Pos).advance pre).byte := by
  induction lines generalizing first pre with
  | nil => exact absurd rfl hne
  | cons line lines ih =>
      rw [List.forall_mem_cons] at hlines
      have honline {post : List Char} (hcut : line.toList = pre ++ post) :
          ∃ (l : String) (before after : List Char),
            (line :: lines)[((⟨first, 0⟩ : Pos).advance pre).line - first]? = some l ∧
              l.toList = before ++ after ∧ Text.size before = ((⟨first, 0⟩ : Pos).advance pre).byte := by
        have hfree := hlines.1
        rw [hcut, List.mem_append, not_or] at hfree
        rw [Pos.advance_of_not_mem _ hfree.1]
        exact ⟨line, pre, post, by simp, hcut, by simp⟩
      cases lines with
      | nil => exact honline (by simpa using h)
      | cons next lines =>
          rw [List.map_cons, List.map_cons, List.intercalate_cons_cons, List.append_assoc,
            List.singleton_append, ← List.map_cons] at h
          obtain ⟨a, hline, -⟩ | ⟨a, rfl, hrest⟩ := cut_of_append h.symm
          · exact honline hline
          · obtain ⟨l, before, after, hl, hsplit, hsize⟩ := ih (by simp) hlines.2 (first + 1) hrest
            have hadvance := Pos.advance_line ⟨first, 0⟩ a hlines.1
            have hstart := Pos.le_advance ⟨first + 1, 0⟩ a
            refine ⟨l, before, after, ?_, hsplit, by rw [hadvance]; exact hsize⟩
            obtain ⟨n, hn⟩ : ∃ n, ((⟨first + 1, 0⟩ : Pos).advance a).line - first = n + 1 := by
              rw [Pos.le_iff] at hstart
              simp only at hstart
              exact ⟨((⟨first + 1, 0⟩ : Pos).advance a).line - first - 1, by omega⟩
            rw [show ((⟨first + 1, 0⟩ : Pos).advance a).line - (first + 1) = n by omega] at hl
            rw [hadvance, hn, List.getElem?_cons_succ, hl]

section text
variable {log : Log} {pre mid post : List Char} (hlines : ∀ l ∈ log.lines.toList, '\n' ∉ l.toList)
include hlines

/-- The log shows, for the span of a stretch of its text, this stretch. -/
theorem excerpt_of_text (h : log.text = pre ++ (mid ++ post)) :
    log.excerpt ⟨(⟨0, 0⟩ : Pos).advance pre, (⟨0, 0⟩ : Pos).advance (pre ++ mid)⟩ = String.ofList mid := by
  rw [excerpt_eq_covered, intercalate_covered hlines 0 h]

theorem boundary_of_text (hne : log.lines.toList ≠ []) (h : log.text = pre ++ post) :
    log.Boundary ((⟨0, 0⟩ : Pos).advance pre) := by
  obtain ⟨line, before, after, hl, hsplit, hsize⟩ := exists_boundary hne hlines 0 h
  refine ⟨line, before, after, ?_, hsplit, hsize⟩
  rw [line?, ← Array.getElem?_toList]
  exact hl

end text

end Log

end SoundLang
