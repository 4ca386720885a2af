import SoundLang.Lexer.Stepped
import SoundLang.Proofs.Lexer.Lazy
import SoundLang.Proofs.Lexer.Lossless
import SoundLang.Proofs.Parse.Kept

/-! # What stored positions change

Where all positions can be stored (`Storable`), a scan with stored positions is the scan of the line, as soon as it
has more steps than the line has characters (`scanWithin_eq_scan`), and so a stepped lexer answers like the lexer
(`Fitting.maps_stepped`).

A longer line need not have an end: a word behind the last byte that can be stored is found for ever
(`scanWithin_padded`).  A lexer that is stuck on a line stays so (`Stepped.keeps_stuck`). -/

namespace SoundLang

/-! ### Places inside a text -/

namespace Text

/-- From the byte offset `byte` on the text goes on with the characters given. -/
def GoesOn (text : List Char) (byte : Nat) (cs : List Char) : Prop := ∃ before, before ++ cs = text ∧ size before = byte

namespace GoesOn

variable {text cs : List Char} {byte : Nat}

theorem start (text : List Char) : GoesOn text 0 text := ⟨[], rfl, rfl⟩

theorem append {xs : List Char} (h : GoesOn text byte (xs ++ cs)) : GoesOn text (byte + size xs) cs := by
  obtain ⟨before, rfl, rfl⟩ := h
  exact ⟨before ++ xs, List.append_assoc .., size_append ..⟩

theorem tail {c : Char} (h : GoesOn text byte (c :: cs)) : GoesOn text (byte + c.utf8Size) cs :=
  append (show GoesOn text byte ([c] ++ cs) from h)

theorem le_size (h : GoesOn text byte cs) : byte ≤ size text := by
  obtain ⟨before, rfl, rfl⟩ := h
  rw [size_append]
  exact Nat.le_add_right _ _

theorem behind_eq (h : GoesOn text byte cs) : behind byte text = cs := by
  obtain ⟨before, rfl, rfl⟩ := h
  exact behind_append before cs

end GoesOn

end Text

/-- All positions in the lines can be stored, also when they are counted from one. -/
structure Storable (source : List String) : Prop where
  lines : source.length ≤ Pos.widest
  bytes : ∀ line ∈ source, line.utf8ByteSize < Pos.widest

namespace Lexer

/-! ### The steps of code -/

section
variable {c : Char} {cs : List Char} (h : Unmarked c cs) (line : Nat) (text : List Char) (steps byte : Nat)
include h

theorem scanWithin_blank (hb : isBlank c = true) :
    scanWithin line text (steps + 1) byte .code (c :: cs) = scanWithin line text steps (byte + 1) .code cs := by
  rw [scanWithin, if_pos hb]
  · exact h.line
  · exact h.block
  · exact h.quote

theorem scanWithin_unexpected (hb : isBlank c = false) (hm : Lexeme.longest? (c :: cs) = none) :
    scanWithin line text (steps + 1) byte .code (c :: cs) = some
      ([.error (.unexpectedCharacter c ⟨.stored line byte, .stored line (byte + c.utf8Size)⟩)], .code) := by
  rw [scanWithin, if_neg (by simp [hb]), hm]
  · exact h.line
  · exact h.block
  · exact h.quote

theorem scanWithin_malformed {m : Lexeme} {e : LexError} (hb : isBlank c = false)
    (hm : Lexeme.longest? (c :: cs) = some m)
    (he : entryOf m ⟨.stored line byte, .stored line (byte + Text.size m.text)⟩ = .error e) :
    scanWithin line text (steps + 1) byte .code (c :: cs) = some ([.error e], .code) := by
  rw [scanWithin, if_neg (by simp [hb]), hm]
  · simp only [he]
  · exact h.line
  · exact h.block
  · exact h.quote

theorem scanWithin_token {m : Lexeme} {t : Token} (hb : isBlank c = false)
    (hm : Lexeme.longest? (c :: cs) = some m)
    (ht : entryOf m ⟨.stored line byte, .stored line (byte + Text.size m.text)⟩ = .ok t) :
    scanWithin line text (steps + 1) byte .code (c :: cs) =
      (scanWithin line text steps t.span.stop.byte .code (Text.behind t.span.stop.byte text)).map fun r =>
        (.ok t :: r.1, r.2) := by
  rw [scanWithin, if_neg (by simp [hb]), hm]
  · simp only [ht]
  · exact h.line
  · exact h.block
  · exact h.quote

end

theorem span_of_entryOf {m : Lexeme} {span : Span} {t : Token} (h : entryOf m span = .ok t) : t.span = span := by
  unfold entryOf at h
  split at h <;> cases h <;> rfl

/-! ### Lines whose positions can be stored -/

/-- Where every position can be stored, more steps than there are characters are enough to scan a line as it is. -/
theorem scanWithin_eq_scan {line byte : Nat} {text cs : List Char} {mode : Mode} (hline : line ≤ Pos.widest)
    (htext : Text.size text ≤ Pos.widest) (h : Text.GoesOn text byte cs) {steps : Nat} (hsteps : cs.length < steps) :
    scanWithin line text steps byte mode cs = some (scan line byte mode cs) := by
  have hstored : ∀ {byte cs}, Text.GoesOn text byte cs → Pos.stored line byte = ⟨line, byte⟩ := fun h =>
    Pos.stored_of_le hline (Nat.le_trans h.le_size htext)
  have hless : ∀ {c : Char} {cs : List Char} {steps : Nat}, (c :: cs).length < steps + 1 → cs.length < steps :=
    Nat.lt_of_succ_lt_succ
  induction byte, mode, cs using scan.induct line generalizing steps with
    obtain ⟨steps, rfl⟩ : ∃ n, steps = n + 1 := ⟨steps - 1, by omega⟩
  | case1 byte | case2 byte tail | case9 byte opener outer | case13 byte start value | case15 byte start value =>
      rw [scanWithin, scan]
  | case3 byte cs ih | case10 byte opener outer cs ih =>
      rw [scanWithin, scan, hstored h]
      exact ih (h.tail.tail) (Nat.lt_of_succ_lt (hless hsteps))
  | case4 byte cs ih =>
      rw [scanWithin, scan, hstored h]
      exact ih h.tail (hless hsteps)
  | case5 byte c cs h1 h2 h3 hb ih =>
      have hu : Unmarked c cs := ⟨h1, h2, h3⟩
      rw [scanWithin_blank hu _ _ _ _ hb, scan_blank hu line byte hb]
      exact ih (utf8Size_of_isBlank hb ▸ h.tail) (hless hsteps)
  | case6 byte c cs h1 h2 h3 hb hm =>
      have hu : Unmarked c cs := ⟨h1, h2, h3⟩
      rw [Bool.not_eq_true] at hb
      rw [scanWithin_unexpected hu _ _ _ _ hb hm, scan_unexpected hu line byte hb hm, hstored h, hstored h.tail]
      rfl
  | case7 byte c cs h1 h2 h3 hb m hm stop e he =>
      have hu : Unmarked c cs := ⟨h1, h2, h3⟩
      rw [Bool.not_eq_true] at hb
      have hstop := hstored (Text.GoesOn.append (text_append_drop hm ▸ h))
      rw [scan_malformed hu line byte hb hm he]
      exact scanWithin_malformed hu _ _ _ _ hb hm (by rw [hstored h, hstop]; exact he)
  | case8 byte c cs h1 h2 h3 hb m hm stop t ht entries mode hs ih =>
      have hu : Unmarked c cs := ⟨h1, h2, h3⟩
      rw [Bool.not_eq_true] at hb
      have hbehind := Text.GoesOn.append (text_append_drop hm ▸ h)
      have hlength : (cs.drop (m.text.length - 1)).length ≤ cs.length := by simp
      have hspan : t.span.stop.byte = stop := by rw [span_of_entryOf ht]; rfl
      rw [scan_token hu line byte hb hm ht,
        scanWithin_token hu _ _ _ _ hb hm (by rw [hstored h, hstored hbehind]; exact ht), hspan, hbehind.behind_eq,
        ih hbehind (Nat.lt_of_le_of_lt hlength (hless hsteps))]
      rfl
  | case11 byte opener outer cs ih =>
      rw [scanWithin, scan]
      exact ih (h.tail.tail) (Nat.lt_of_succ_lt (hless hsteps))
  | case12 byte opener outer c cs h1 h2 ih =>
      rw [scanWithin, scan]
      · exact ih h.tail (hless hsteps)
      all_goals assumption
  | case14 byte start value cs entries mode hs ih =>
      have hbehind : Text.GoesOn text (byte + 1) cs := h.tail
      rw [scanWithin, scan, ih hbehind (hless hsteps), hstored hbehind]
      rfl
  | case16 byte start value c cs ih =>
      rw [scanWithin, scan]
      exact ih h.tail.tail (Nat.lt_of_succ_lt (hless hsteps))
  | case17 byte start value c cs h1 h2 h3 ih =>
      rw [scanWithin, scan]
      · exact ih h.tail (hless hsteps)
      all_goals assumption

/-! ### A line without an end -/

/-- A word of one letter behind `n` blanks. -/
def padded (n : Nat) : List Char := List.replicate n ' ' ++ ['a']

theorem padded_succ (n : Nat) : padded (n + 1) = ' ' :: padded n := rfl

theorem goesOn_padded {n k : Nat} (h : k ≤ n) : Text.GoesOn (padded n) k (padded (n - k)) := by
  induction k with
  | zero => exact .start _
  | succ k ih =>
      have hgoes := ih (by omega)
      rw [show n - k = n - (k + 1) + 1 by omega, padded_succ] at hgoes
      exact hgoes.tail

/-- When the letter stands at the last byte that can be stored or behind it, no number of steps is enough: the place
behind the letter is stored as that byte, and from there the letter is found again. -/
theorem scanWithin_padded {n : Nat} (hn : Pos.widest ≤ n) (line steps : Nat) {k : Nat} (hk : k ≤ n) :
    scanWithin line (padded n) steps k .code (padded (n - k)) = none := by
  induction steps generalizing k with
  | zero => rfl
  | succ steps ih =>
      obtain rfl | hlt := Nat.eq_or_lt_of_le hk
      · have hu : Unmarked 'a' [] := ⟨by simp, by simp, by simp⟩
        have hm : Lexeme.longest? ['a'] = some ⟨['a'], .word⟩ := by decide
        have hstop : min (k + Text.size ['a']) Pos.widest = Pos.widest :=
          Nat.min_eq_right (Nat.le_trans hn (Nat.le_add_right _ _))
        have htoken := scanWithin_token hu line (padded k) steps k (by decide) hm rfl
        simp only [Pos.stored, hstop, (goesOn_padded hn).behind_eq, ih hn] at htoken
        rw [Nat.sub_self]
        exact htoken
      · have hu : Unmarked ' ' (padded (n - (k + 1))) := ⟨by simp, by simp, by simp⟩
        rw [show n - k = n - (k + 1) + 1 by omega, padded_succ, scanWithin_blank hu _ _ _ _ (by decide)]
        exact ih hlt

/-! ### Lexers that are granted enough steps -/

/-- The lexer, with `steps` steps for each line. -/
def stepped (lx : Lexer) (steps : Nat) : Stepped := { lexer := lx, steps }

/-- All that the lexer reads can be stored, and the steps are enough for each line. -/
structure Fits (steps : Nat) (lx : Lexer) : Prop where
  storable : Storable lx.source
  enough : ∀ line ∈ lx.source, line.toList.length < steps

section
variable {steps : Nat} {lx : Lexer}

/-- To read a line moves it from the lines to come to the lines of the log. -/
theorem source_readLine (hended : lx.ended = false) : lx.readLine.source = lx.source := by
  unfold readLine
  rcases hunread : lx.unread with _ | ⟨text | message, rest⟩
  · simp [finish, source, hunread, hended, Input.logged]
  · simp [accept, source, hunread, hended, Input.logged]
  · simp [accept, source, hunread, hended, Input.logged]

/-- Each line that is logged has fewer characters than its input promises entries. -/
theorem length_lt_promised {input : Input} : ∀ line ∈ input.logged, line.toList.length < promised input := by
  induction input with
  | nil => exact nofun
  | cons r input ih =>
      cases r with
      | failed message => exact nofun
      | line text =>
          have hchomp := length_chomp_le text
          simp only [Input.logged, promised, List.forall_mem_cons]
          exact ⟨by omega, fun line hline => by have := ih line hline; omega⟩

theorem Fits.readLine (h : lx.Fits steps) (hended : lx.ended = false) : lx.readLine.Fits steps :=
  ⟨(source_readLine hended).symm ▸ h.storable, (source_readLine hended).symm ▸ h.enough⟩

theorem Fits.fill (h : lx.Fits steps) : lx.fill.Fits steps :=
  ⟨lx.source_fill.symm ▸ h.storable, lx.source_fill.symm ▸ h.enough⟩

theorem stepped_accept_line {text : String} (hlines : lx.log.size ≤ Pos.widest)
    (hbytes : (Log.chomp text).utf8ByteSize ≤ Pos.widest) (henough : (Log.chomp text).toList.length < steps) :
    (lx.stepped steps).accept (.line text) = (lx.accept (.line text)).stepped steps := by
  have hindex : min lx.log.size Pos.widest = lx.log.size := Nat.min_eq_left hlines
  have hline : (lx.log.push text).line? lx.log.size = some (Log.chomp text) := by
    simp [Log.push, Log.line?, Log.size]
  have hscan : scanWithin lx.log.size (Log.chomp text).toList steps 0 lx.mode (Log.chomp text).toList =
      some (scan lx.log.size 0 lx.mode (Log.chomp text).toList) :=
    scanWithin_eq_scan hlines (Text.size_toList _ ▸ hbytes) (.start _) henough
  simp only [Stepped.accept, stepped, hindex, hline, Option.getD_some, hscan]
  rfl

/-- A line is read as the lexer reads it. -/
theorem stepped_readLine (h : lx.Fits steps) (hended : lx.ended = false) :
    (lx.stepped steps).readLine = lx.readLine.stepped steps := by
  have hlexer : (lx.stepped steps).lexer = lx := rfl
  unfold Stepped.readLine readLine
  rw [hlexer]
  rcases hunread : lx.unread with _ | ⟨text | message, rest⟩
  · rfl
  · have hsource : lx.source = lx.log.lines.toList ++ Log.chomp text :: Input.logged rest := by
      simp [source, hended, hunread, Input.logged]
    have hmem : Log.chomp text ∈ lx.source := by simp [hsource]
    have hlines : lx.prompt.log.size ≤ Pos.widest := by
      have hlength := h.storable.lines
      simp only [hsource, List.length_append, List.length_cons, Array.length_toList] at hlength
      rw [prompt_log, Log.size]
      omega
    have haccept : ({ lx.prompt with unread := rest }.stepped steps).accept (.line text) =
        ({ lx.prompt with unread := rest }.accept (.line text)).stepped steps :=
      stepped_accept_line hlines (Nat.le_of_lt (h.storable.bytes _ hmem)) (h.enough _ hmem)
    exact haccept
  · rfl

theorem stepped_fillFrom {unread : Input} (hunread : lx.unread = unread) (h : lx.Fits steps)
    (hended : lx.ended = false) :
    Stepped.fillFrom unread (lx.stepped steps) = (fillFrom unread lx).stepped steps := by
  induction unread generalizing lx with
  | nil => rw [Stepped.fillFrom, stepped_readLine h hended, readLine_nil hunread]
  | cons r unread ih =>
      rw [Stepped.fillFrom, fillFrom, stepped_readLine h hended, ← readLine_cons hunread]
      change (if (lx.readLine.queue.isEmpty && !lx.readLine.ended) = true then _ else _) = _
      split
      · next hc =>
          simp only [Bool.and_eq_true, Bool.not_eq_true'] at hc
          exact ih (unread_readLine hunread) (h.readLine hended) hc.2
      · rfl

theorem stepped_fill (h : lx.Fits steps) : (lx.stepped steps).fill = lx.fill.stepped steps := by
  unfold Stepped.fill fill
  change (if (lx.queue.isEmpty && !lx.ended) = true then _ else _) = _
  split
  · next hc =>
      simp only [Bool.and_eq_true, Bool.not_eq_true'] at hc
      exact stepped_fillFrom rfl h hc.2
  · rfl

end

/-- A lexer all of whose lines can be scanned within `steps` steps. -/
def Fitting (steps : Nat) : Type := { lx : Lexer // lx.Fits steps }

namespace Fitting

variable {steps : Nat}

instance : TokenSource (Fitting steps) where
  peek x := (x.1.peek.1, ⟨x.1.peek.2, x.2.fill⟩)
  next x := (x.1.next.1, ⟨x.1.next.2, x.2.fill.storable, x.2.fill.enough⟩)
  pending x := x.1.pending

theorem maps_lexer : TokenSource.Maps fun x : Fitting steps => x.1 where
  peek _ := rfl
  next _ := rfl

/-- With the steps that it needs a stepped lexer answers like the lexer. -/
theorem maps_stepped : TokenSource.Maps fun x : Fitting steps => x.1.stepped steps where
  peek x := by
    change (Entry.front (x.1.stepped steps).fill.lexer.queue, (x.1.stepped steps).fill) =
      (Entry.front x.1.fill.queue, x.1.fill.stepped steps)
    rw [stepped_fill x.2]
    rfl
  next x := by
    change (Entry.front (x.1.stepped steps).fill.lexer.queue,
      { (x.1.stepped steps).fill with
        lexer := { (x.1.stepped steps).fill.lexer with queue := (x.1.stepped steps).fill.lexer.queue.tail } }) =
      (Entry.front x.1.fill.queue, { x.1.fill with queue := x.1.fill.queue.tail }.stepped steps)
    rw [stepped_fill x.2]
    rfl

end Fitting

/-! ### Lexers that are stuck -/

namespace Stepped

/-- The lexer has not come to the end of a line, and reads no more. -/
structure Stuck (w : Stepped) : Prop where
  stuck : w.stuck = true
  ended : w.lexer.ended = true

theorem fill_of_ended {w : Stepped} (h : w.lexer.ended = true) : w.fill = w := by
  simp [fill, h]

theorem keeps_stuck : TokenSource.Keeps Stuck fun _ _ => True where
  peek w h := by
    change w.fill.Stuck ∧ _
    rw [fill_of_ended h.ended]
    exact ⟨h, fun _ _ => trivial⟩
  next w h := by
    change Stuck { w.fill with lexer := { w.fill.lexer with queue := w.fill.lexer.queue.tail } } ∧ _
    rw [fill_of_ended h.ended]
    exact ⟨⟨h.stuck, h.ended⟩, fun _ _ => trivial⟩

theorem chomp_padded (n : Nat) : Log.chomp (String.ofList (padded n)) = String.ofList (padded n) := by
  simp [Log.chomp, Log.dropLast, padded]

/-- A lexer whose next line has no end gets stuck, whatever steps it is granted. -/
theorem stuck_fill {lx : Lexer} {rest : Input} {n : Nat} (hn : Pos.widest ≤ n)
    (hunread : lx.unread = .line (String.ofList (padded n)) :: rest) (hqueue : lx.queue = []) (hended : lx.ended = false)
    (hmode : lx.mode = .code) (hlog : lx.log.size ≤ Pos.widest) (steps : Nat) : (lx.stepped steps).fill.Stuck := by
  have hline : (lx.log.push (String.ofList (padded n))).line? lx.log.size = some (String.ofList (padded n)) := by
    simp [Log.push, Log.line?, Log.size, chomp_padded]
  have hscan : scanWithin lx.log.size (padded n) steps 0 .code (padded n) = none :=
    scanWithin_padded hn lx.log.size steps (Nat.zero_le n)
  have hread : (lx.stepped steps).readLine.Stuck := by
    simp only [Stepped.readLine, stepped, hunread, Stepped.accept, prompt_log, prompt_mode, hmode,
      Nat.min_eq_left hlog, hline, Option.getD_some, String.toList_ofList, hscan]
    exact ⟨rfl, rfl⟩
  have hfrom : Stepped.fillFrom (.line (String.ofList (padded n)) :: rest) (lx.stepped steps) =
      (lx.stepped steps).readLine := by
    rw [Stepped.fillFrom, if_neg (by simp [hread.ended])]
  have hfill : (lx.stepped steps).fill = (lx.stepped steps).readLine := by
    rw [← hfrom, ← hunread]
    exact if_pos (by simp [stepped, hqueue, hended])
  rw [hfill]
  exact hread

end Stepped

end Lexer

end SoundLang
