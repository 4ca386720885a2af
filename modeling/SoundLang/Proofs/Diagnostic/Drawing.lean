import SoundLang.Diagnostic.Drawing
import SoundLang.Proofs.Diagnostic.Labels

/-! # What a drawing quotes

A label whose span stands in the log is drawn as quotes of the lines that it covers, of a long label the first two and
the last (`Diagnostic.exists_drawn`).  Each quote shows a line, and below it marks: they start below the first character
that the span covers of the line, and there are as many as characters covered, at least one.  The message stands behind
the marks of the last quote. -/

namespace SoundLang.Diagnostic

open Piece

/-! ### Quotes -/

/-- A line of the source, with a part of it that is marked. -/
structure Quote where
  line : Nat
  before : List Char
  marked : List Char
  after : List Char

/-- The character that marks what the label covers. -/
def Label.mark (l : Label) : Char := if l.primary then '^' else '-'

namespace Quote

/-- The whole line. -/
def text (q : Quote) : List Char := q.before ++ (q.marked ++ q.after)

/-- The quote is of a line of the log, and what the span covers of it is marked. -/
structure Of (log : Log) (s : Span) (q : Quote) : Prop where
  line? : log.line? q.line = some (String.ofList q.text)
  first : Text.size q.before = if q.line = s.start.line then s.start.byte else 0
  last : Text.size (q.before ++ q.marked) = if q.line = s.stop.line then s.stop.byte else Text.size q.text

/-- The line, and below it the marks, with the message behind them on the last line of the label. -/
def draw (width : Nat) (l : Label) (q : Quote) : List Piece :=
  sourceLine width q.line (String.ofList q.text) ++ gutter width ++
    [plain s!" {indent q.before}", styled l.style (String.ofList (List.replicate (max 1 q.marked.length) l.mark))] ++
    (if q.line = l.span.stop.line then [plain " ", styled l.style l.message] else []) ++ [plain "\n"]

/-- The quote is drawn as two lines of text.  In front of both stands something of the same length, so that the marks
start where the marked part of the line does; there are as many marks as characters marked, but at least one. -/
structure Aligned (width : Nat) (l : Label) (q : Quote) (number bar pad message : List Char) : Prop where
  drawn : (paint false (q.draw width l)).toList = number ++ q.text ++ '\n' ::
    (bar ++ pad ++ List.replicate (max 1 q.marked.length) l.mark ++ message ++ ['\n'])
  length_number : number.length = bar.length
  pad : pad = q.before.map fun c => if c = '\t' then '\t' else ' '
  message : message = if q.line = l.span.stop.line then ' ' :: l.message.toList else []

end Quote

section
variable {log : Log} {s : Span} {l : Label} {width line : Nat}

/-- Each line up to the end of the span has a quote. -/
theorem exists_quote (h : log.Holds s) (hlast : line ≤ s.stop.line) :
    ∃ q : Quote, q.line = line ∧ q.Of log s := by
  have hline : line < log.size := Nat.lt_of_le_of_lt hlast h.stop.line_lt
  have htext : log.line? line = some log.lines[line] := Array.getElem?_eq_getElem hline
  generalize log.lines[line] = text at htext
  -- the text before what is marked, and the text up to its end
  obtain ⟨before, rest, hbefore, hfirst'⟩ : ∃ before rest, text.toList = before ++ rest ∧
      Text.size before = if line = s.start.line then s.start.byte else 0 := by
    split
    · next heq =>
        obtain ⟨text', before, rest, htext', hbefore, hsize⟩ := h.start
        rw [← heq, htext] at htext'
        cases htext'
        exact ⟨before, rest, hbefore, hsize⟩
    · exact ⟨[], text.toList, rfl, rfl⟩
  obtain ⟨upto, after, hupto, hlast'⟩ : ∃ upto after, text.toList = upto ++ after ∧
      Text.size upto = if line = s.stop.line then s.stop.byte else Text.size text.toList := by
    split
    · next heq =>
        obtain ⟨text', upto, after, htext', hupto, hsize⟩ := h.stop
        rw [← heq, htext] at htext'
        cases htext'
        exact ⟨upto, after, hupto, hsize⟩
    · exact ⟨text.toList, [], (List.append_nil _).symm, rfl⟩
  have hle : Text.size before ≤ Text.size upto := by
    rw [hlast']
    split
    · next hstop =>
        rw [hfirst']
        split
        · next hstart =>
            obtain hlt | ⟨-, hle⟩ := h.le
            · omega
            · exact hle
        · exact Nat.zero_le _
    · rw [hbefore, Text.size_append]
      exact Nat.le_add_right ..
  obtain ⟨marked, hmarked, hrest⟩ := Text.exists_append_of_size_le (hbefore.symm.trans hupto) hle
  have hall : text.toList = before ++ (marked ++ after) := by rw [hbefore, hrest]
  refine ⟨⟨line, before, marked, after⟩, rfl, ?_, hfirst', ?_⟩
  · rw [htext, Quote.text, ← hall, String.ofList_toList]
  · rw [Quote.text, ← hall, ← hmarked]
    exact hlast'

/-- The marks under what a quote marks. -/
theorem underline_quote (q : Quote) (closes : Bool) :
    underline width l (String.ofList q.text) (Text.size q.before) (Text.size (q.before ++ q.marked)) closes =
      gutter width ++ [plain s!" {indent q.before}",
        styled l.style (String.ofList (List.replicate (max 1 q.marked.length) l.mark))] ++
      (if closes && !l.message.isEmpty then [plain " ", styled l.style l.message] else []) ++ [plain "\n"] := by
  have hlimit : (String.ofList q.text).utf8ByteSize = Text.size (q.before ++ q.marked) + Text.size q.after := by
    rw [← Text.size_ofList, Quote.text, ← List.append_assoc, Text.size_append]
  have hfirst : Text.size q.before ≤ Text.size (q.before ++ q.marked) := by
    rw [Text.size_append]
    exact Nat.le_add_right ..
  have hbefore : Text.slice? 0 (Text.size q.before) q.text = some q.before :=
    Log.slice?_append [] q.before (q.marked ++ q.after)
  have hmarked : Text.slice? (Text.size q.before) (Text.size (q.before ++ q.marked)) q.text = some q.marked :=
    Log.slice?_append q.before q.marked q.after
  simp only [underline, hlimit, String.toList_ofList]
  rw [Nat.min_eq_left (by omega), Nat.min_eq_left (by omega), Nat.max_eq_right hfirst, hbefore, hmarked]
  rfl

/-- The line of a quote is drawn as the quote. -/
theorem labelLine_eq_draw {q : Quote} (h : q.Of log l.span) (hmessage : l.message.isEmpty = false) :
    labelLine width l q.line (String.ofList q.text) = q.draw width l := by
  have hlimit : (String.ofList q.text).utf8ByteSize = Text.size q.text := (Text.size_ofList _).symm
  unfold labelLine Quote.draw
  simp only [hlimit, ← h.first, ← h.last, underline_quote, hmessage, Bool.not_false, Bool.and_true, beq_iff_eq,
    List.append_assoc]

/-- The lines of a label up to its end are drawn as quotes. -/
theorem labelLines_eq_draw (h : log.Holds l.span) (hmessage : l.message.isEmpty = false) (width line count : Nat)
    (hle : line + count ≤ l.span.stop.line + 1) : ∃ quotes : List Quote,
      quotes.map (·.line) = List.range' line count ∧ (∀ q ∈ quotes, q.Of log l.span) ∧
        labelLines width l log line count = quotes.flatMap (·.draw width l) := by
  induction count generalizing line with
  | zero => exact ⟨[], rfl, nofun, by simp [labelLines]⟩
  | succ count ih =>
      obtain ⟨q, rfl, hq⟩ := exists_quote h (show line ≤ l.span.stop.line by omega)
      obtain ⟨quotes, hlines, hof, hdraw⟩ := ih (q.line + 1) (by omega)
      have hdrop : log.lines.toList.drop q.line = String.ofList q.text :: log.lines.toList.drop (q.line + 1) := by
        have hline := hq.line?
        rw [Log.line?, ← Array.getElem?_toList] at hline
        obtain ⟨hlt, hget⟩ := List.getElem?_eq_some_iff.mp hline
        rw [List.drop_eq_getElem_cons hlt, hget]
      refine ⟨q :: quotes, ?_, List.forall_mem_cons.mpr ⟨hq, hof⟩, ?_⟩
      · rw [List.map_cons, hlines, List.range'_succ]
      · rw [labelLines, hdrop, List.take_succ_cons, List.zipIdx_cons, List.flatMap_cons, List.flatMap_cons, ← hdraw]
        exact congrArg (· ++ labelLines width l log (q.line + 1) count) (labelLine_eq_draw hq hmessage)

/-! ### Labels -/

/-- A label covers more lines than are shown. -/
def Label.isLong (l : Label) : Bool := longestLabel < l.span.stop.line - l.span.start.line + 1

/-- The lines that are shown before some are left out. -/
def Label.upper (l : Label) : List Nat :=
  if l.isLong then [l.span.start.line, l.span.start.line + 1]
  else List.range' l.span.start.line (l.span.stop.line + 1 - l.span.start.line)

/-- The lines that are shown behind those left out. -/
def Label.lower (l : Label) : List Nat := if l.isLong then [l.span.stop.line] else []

/-- What stands for the lines left out. -/
def Label.gap (width : Nat) (l : Label) : List Piece := if l.isLong then [plain s!"{blanks width}...\n"] else []

/-- The lines shown of a label end with its last one. -/
theorem Label.exists_lines_eq (hle : l.span.start ≤ l.span.stop) :
    ∃ earlier, l.upper ++ l.lower = earlier ++ [l.span.stop.line] ∧ ∀ i ∈ earlier, i < l.span.stop.line := by
  have hline : l.span.start.line ≤ l.span.stop.line := hle.elim Nat.le_of_lt fun hle => Nat.le_of_eq hle.1
  unfold Label.upper Label.lower
  cases hlong : l.isLong with
  | true =>
      have hlong' : longestLabel < l.span.stop.line - l.span.start.line + 1 := of_decide_eq_true hlong
      unfold longestLabel at hlong'
      refine ⟨[l.span.start.line, l.span.start.line + 1], rfl, ?_⟩
      simp only [List.forall_mem_cons, List.not_mem_nil, false_imp_iff, implies_true, and_true]
      omega
  | false =>
      obtain ⟨n, hn⟩ := Nat.exists_eq_add_of_le hline
      refine ⟨List.range' l.span.start.line n, ?_, ?_⟩
      · rw [if_neg Bool.false_ne_true, if_neg Bool.false_ne_true, List.append_nil, hn,
          show l.span.start.line + n + 1 - l.span.start.line = n + 1 by omega, List.range'_1_concat]
      · intro i hi
        rw [List.mem_range'_1] at hi
        omega

/-- The snippet of a label is quotes of the lines shown. -/
theorem snippet_eq_draw (width : Nat) (h : log.Holds l.span) (hmessage : l.message.isEmpty = false) :
    ∃ above below : List Quote, above.map (·.line) = l.upper ∧ below.map (·.line) = l.lower ∧
      (∀ q ∈ above ++ below, q.Of log l.span) ∧
        snippet width log l = above.flatMap (·.draw width l) ++ l.gap width ++ below.flatMap (·.draw width l) := by
  have hline : ∀ i ≤ l.span.stop.line, (log.line? i).isNone = false := by
    intro i hi
    have hlt : i < log.size := Nat.lt_of_le_of_lt hi h.stop.line_lt
    simp [Log.line?, Array.getElem?_eq_getElem hlt]
  have hle : l.span.start.line ≤ l.span.stop.line := h.le.elim Nat.le_of_lt fun hle => Nat.le_of_eq hle.1
  unfold snippet Label.upper Label.lower Label.gap
  simp only [hline _ hle, Bool.false_eq_true, if_false]
  cases hlong : l.isLong with
  | true =>
      have hlong' : longestLabel < l.span.stop.line - l.span.start.line + 1 := of_decide_eq_true hlong
      have hnext : l.span.start.line + 1 ≤ l.span.stop.line := by
        unfold longestLabel at hlong'
        omega
      obtain ⟨above, habove, hof, hdraw⟩ := labelLines_eq_draw h hmessage width l.span.start.line 2 (by omega)
      obtain ⟨below, hbelow, hof', hdraw'⟩ := labelLines_eq_draw h hmessage width l.span.stop.line 1 (by omega)
      refine ⟨above, below, habove, hbelow, List.forall_mem_append.mpr ⟨hof, hof'⟩, ?_⟩
      simp only [gt_iff_lt, hlong', if_true, hline _ hnext, Bool.false_eq_true, if_false, hdraw, hdraw']
  | false =>
      have hlong' : ¬ longestLabel < l.span.stop.line - l.span.start.line + 1 := of_decide_eq_false hlong
      obtain ⟨above, habove, hof, hdraw⟩ := labelLines_eq_draw h hmessage width l.span.start.line
        (l.span.stop.line + 1 - l.span.start.line) (by omega)
      refine ⟨above, [], habove, rfl, by simpa using hof, ?_⟩
      simp only [gt_iff_lt, hlong', Bool.false_eq_true, if_false, hdraw, List.append_nil, List.flatMap_nil]

/-! ### Messages -/

/-- A worded text is none that ends like a line of marks or a gutter. -/
theorem ne_of_isWorded {text text' : String} {c : Char} (h : isWorded text = true)
    (hlast : text'.toList.getLast? = some c) (hc : c = '^' ∨ c = '-' ∨ c = '|') : text ≠ text' := by
  rintro rfl
  rw [isWorded, hlast] at h
  obtain rfl | rfl | rfl := hc <;> cases h

theorem isEmpty_of_isWorded {text : String} (h : isWorded text = true) : text.isEmpty = false := by
  by_contra hempty
  obtain rfl : text = "" := by simpa using hempty
  cases h

/-- The line of the source, and the bar in front of the marks, are no message. -/
theorem count_sourceLine_gutter {style : Style} {text : String} (h : isWorded text = true) (i : Nat) (source : String) :
    (sourceLine width i source ++ gutter width).count (styled style text) = 0 := by
  have hnumber : text ≠ s!"{padded width (i + 1)} |" :=
    ne_of_isWorded (c := '|') h (by simp [toString]) (by simp)
  have hbar : text ≠ "|" := ne_of_isWorded h rfl (.inr (.inr rfl))
  refine List.count_eq_zero.mpr ?_
  simp [sourceLine, gutter, plain, styled, hnumber, hbar]

/-- A quote has the message if it is of the last line of the label. -/
theorem Quote.count_draw (q : Quote) (h : isWorded l.message = true) :
    (q.draw width l).count (styled l.style l.message) = if q.line = l.span.stop.line then 1 else 0 := by
  -- no other piece is the message, which ends in none of the characters that they end in
  have hmarks : l.message ≠ String.ofList (List.replicate (max 1 q.marked.length) l.mark) := by
    refine ne_of_isWorded (c := l.mark) h ?_ ?_
    · rw [String.toList_ofList, List.getLast?_replicate, if_neg (by omega)]
    · cases hprimary : l.primary <;> simp [Label.mark, hprimary]
  rw [Quote.draw, List.append_assoc, List.append_assoc, List.count_append, count_sourceLine_gutter h]
  split <;> simp [plain, styled, hmarks.symm]

theorem count_flatMap_draw (h : isWorded l.message = true) (quotes : List Quote) :
    (quotes.flatMap (·.draw width l)).count (styled l.style l.message) =
      (quotes.map (·.line)).count l.span.stop.line := by
  induction quotes with
  | nil => rfl
  | cons q quotes ih =>
      rw [List.flatMap_cons, List.count_append, q.count_draw h, ih, List.map_cons, List.count_cons, Nat.add_comm]
      simp

/-! ### Columns -/

/-- A drawing without colours is its texts. -/
theorem toList_paint (pieces : List Piece) : (paint false pieces).toList = pieces.flatMap (·.text.toList) := by
  have hpaint : Piece.paint false = Piece.text := by
    funext p
    unfold Piece.paint
    split <;> rfl
  rw [paint, hpaint, String.toList_join, List.flatMap_map]

/-- The numbers of the lines up to the end of a label are as wide as the longest one at most. -/
theorem length_repr_le {d : Diagnostic} (hl : l ∈ d.labels) (hline : line ≤ l.span.stop.line) :
    (line + 1).repr.length ≤ numberWidth d := by
  have hstop : (l.span.stop.line + 1).repr.length ≤ numberWidth d :=
    List.le_max?_getD_of_mem (List.mem_map_of_mem hl)
  have hpos : 0 < (l.span.stop.line + 1).repr.length := by
    rw [Nat.repr, String.length_ofList]
    exact Nat.length_toDigits_pos
  have hlt := (Nat.length_repr_le_iff hpos).mp (Nat.le_refl (l.span.stop.line + 1).repr.length)
  exact Nat.le_trans ((Nat.length_repr_le_iff hpos).mpr (by omega)) hstop

theorem length_padded {n : Nat} (h : n.repr.length ≤ width) : (padded width n).toList.length = width := by
  have hdigits : (toString n).length = n.repr.length := rfl
  rw [padded, blanks, String.length_toList, String.length_append, String.length_ofList, List.length_replicate, hdigits]
  exact Nat.sub_add_cancel h

theorem Quote.aligned (q : Quote) (h : (q.line + 1).repr.length ≤ width) :
    ∃ number bar pad message, q.Aligned width l number bar pad message := by
  refine ⟨(padded width (q.line + 1)).toList ++ " | ".toList, (blanks width).toList ++ " | ".toList,
    (indent q.before).toList, _, ?_, ?_, String.toList_ofList, rfl⟩
  · rw [toList_paint, Quote.draw]
    split <;> simp [sourceLine, gutter, plain, styled, toString]
  · simp [length_padded h, blanks]

/-- The marks of the first line start in the column of the label. -/
theorem Quote.Of.column {q : Quote} (h : q.Of log s) (hline : q.line = s.start.line) :
    log.column s.start = q.before.length + 1 := by
  have hfirst : Text.size q.before = s.start.byte := by rw [h.first, if_pos hline]
  have hlimit : (String.ofList q.text).utf8ByteSize = Text.size q.before + Text.size (q.marked ++ q.after) := by
    rw [← Text.size_ofList, Quote.text, Text.size_append]
  unfold Log.column
  rw [← hline, h.line?]
  simp only [hlimit, ← hfirst, String.toList_ofList]
  rw [Nat.min_eq_left (Nat.le_add_right ..), Quote.text, Text.split?_append]

/-! ### Diagnostics -/

/-- A label is drawn as quotes of the lines shown of it. -/
structure Label.Drawn (width : Nat) (log : Log) (l : Label) (above below : List Quote) : Prop where
  /-- Its first line is there to be quoted, so its span is not written out instead. -/
  inLog : (log.line? l.span.start.line).isSome = true
  lines_above : above.map (·.line) = l.upper
  lines_below : below.map (·.line) = l.lower
  snippet : snippet width log l = above.flatMap (·.draw width l) ++ l.gap width ++ below.flatMap (·.draw width l)
  quotes : ∀ q ∈ above ++ below, q.Of log l.span
  aligned : ∀ q ∈ above ++ below, ∃ number bar pad message, q.Aligned width l number bar pad message
  /-- The marks of its first line stand in its column. -/
  column : ∀ q ∈ above ++ below, q.line = l.span.start.line → log.column l.span.start = q.before.length + 1
  /-- Its message is shown once. -/
  message : (Diagnostic.snippet width log l).count (styled l.style l.message) = 1

/-- The labels of a diagnostic are drawn one after the other; above them stands the place of a primary one. -/
structure Drawn (log : Log) (d : Diagnostic) : Prop where
  labels : ∀ l ∈ d.labels, ∃ above below, l.Drawn (numberWidth d) log above below
  snippets : d.labels.flatMap (snippet (numberWidth d) log) <:+: d.draw log
  place : ∀ s, d.primarySpan? = some s →
    (∃ l ∈ d.labels, l.primary = true ∧ l.span = s) ∧ locator (numberWidth d) log s <:+: d.draw log

/-- A label that the log holds is drawn. -/
theorem exists_drawn {d : Diagnostic} (hl : l ∈ d.labels) (h : log.Holds l.span)
    (hmessage : isWorded l.message = true) : ∃ above below, l.Drawn (numberWidth d) log above below := by
  obtain ⟨above, below, habove, hbelow, hof, hdraw⟩ :=
    snippet_eq_draw (numberWidth d) h (isEmpty_of_isWorded hmessage)
  obtain ⟨earlier, hlines, hearlier⟩ := Label.exists_lines_eq h.le
  have hshown : (above ++ below).map (·.line) = earlier ++ [l.span.stop.line] := by
    rw [List.map_append, habove, hbelow, hlines]
  refine ⟨above, below, ?_, habove, hbelow, hdraw, hof, fun q hq => ?_, fun q hq hfirst => (hof q hq).column hfirst, ?_⟩
  · simp [Log.line?, Array.getElem?_eq_getElem (show l.span.start.line < log.lines.size from h.start.line_lt)]
  · have hmem : q.line ∈ earlier ++ [l.span.stop.line] := hshown ▸ List.mem_map_of_mem hq
    refine q.aligned (length_repr_le hl ?_)
    obtain hmem | hmem := List.mem_append.mp hmem
    · exact Nat.le_of_lt (hearlier _ hmem)
    · exact Nat.le_of_eq (List.mem_singleton.mp hmem)
  · have hgap : (l.gap (numberWidth d)).count (styled l.style l.message) = 0 := by
      unfold Label.gap
      split <;> simp [plain, styled]
    have hcount : earlier.count l.span.stop.line = 0 :=
      List.count_eq_zero.mpr fun hmem => Nat.lt_irrefl _ (hearlier _ hmem)
    rw [hdraw, List.count_append, List.count_append, hgap, Nat.add_zero, count_flatMap_draw hmessage,
      count_flatMap_draw hmessage, ← List.count_append, ← List.map_append, hshown, List.count_append, hcount]
    simp

/-- A diagnostic that is sited in a log is drawn with all its labels. -/
theorem Sited.drawn {d : Diagnostic} (h : d.Sited log) (hworded : d.Worded) : d.Drawn log := by
  refine ⟨fun l hl => exists_drawn hl (h l hl) (hworded l hl), ?_, fun s hs => ⟨?_, ?_⟩⟩
  · have hsnippets : d.labels.flatMap (snippet (numberWidth d) log) <:+: if d.labels.isEmpty then []
        else gutter (numberWidth d) ++ [plain "\n"] ++ d.labels.flatMap (snippet (numberWidth d) log) := by
      split
      · next hempty => simp [List.isEmpty_iff.mp hempty]
      · exact (List.suffix_append ..).isInfix
    unfold draw
    simp only [List.append_assoc] at hsnippets ⊢
    exact hsnippets.trans ((List.infix_append' ..).trans (List.suffix_append ..).isInfix)
  · obtain ⟨l, hl, rfl⟩ := Option.map_eq_some_iff.mp hs
    exact ⟨l, List.mem_of_find?_eq_some hl, List.find?_some hl, rfl⟩
  · unfold draw
    simp only [hs, List.append_assoc]
    exact List.infix_append' ..

end

end SoundLang.Diagnostic
