import SoundLang.Proofs.Lexer.Lossless

/-! # A text that is read whole

A reader cuts a text into lines and the lexer drops a carriage return at the end of each.  So what a text gives is what
one pass finds on it once these carriage returns are taken away (`Lexer.rest_fresh`): its tokens, up to the first error
(`tokens_eq`). -/

namespace SoundLang

namespace Log

/-- The text without the carriage returns at the ends of its lines. -/
def trimmed : List Char → List Char
  | [] => []
  | c :: cs => if c = '\r' ∧ cs.head?.getD '\n' = '\n' then trimmed cs else c :: trimmed cs

theorem trimmed_cons {c : Char} (h : c ≠ '\r') (cs : List Char) : trimmed (c :: cs) = c :: trimmed cs :=
  if_neg fun hc => h hc.1

theorem trimmed_append {cs : List Char} (h : '\r' ∉ cs) (rest : List Char) :
    trimmed (cs ++ rest) = cs ++ trimmed rest := by
  induction cs with
  | nil => rfl
  | cons c cs ih =>
      rw [List.mem_cons, not_or] at h
      rw [List.cons_append, trimmed_cons (Ne.symm h.1), ih h.2]
      rfl

/-- In front of a carriage return that is taken away the line ends. -/
theorem head?_trimmed (cs : List Char) : ∀ d ∈ (trimmed cs).head?, d = '\n' ∨ d ∈ cs.head? := by
  induction cs with
  | nil => exact nofun
  | cons c cs ih =>
      rw [trimmed]
      split
      · next hc =>
          intro d hd
          obtain rfl | hd := ih d hd
          · exact .inl rfl
          · refine .inl ?_
            have hnext := hc.2
            rw [Option.mem_def.mp hd] at hnext
            exact hnext
      · exact fun d hd => .inr hd

/-! ### The pieces of a text -/

/-- The first piece is empty only where the line ends. -/
theorem exists_pieces (cs : List Char) :
    ∃ p ps, pieces cs = p :: ps ∧ (p = [] ↔ cs.head?.getD '\n' = '\n') := by
  cases cs with
  | nil => exact ⟨[], [], rfl, by simp⟩
  | cons c cs =>
      rw [pieces_cons]
      by_cases hc : c = '\n'
      · rw [if_pos hc]
        exact ⟨[], pieces cs, rfl, by simp [hc]⟩
      · rw [if_neg hc]
        obtain ⟨p, ps, hps, -⟩ := exists_pieces cs
        exact ⟨c :: p, ps, by rw [hps]; rfl, by simp [hc]⟩

/-- A carriage return is the last character of its line just where the line is at its end behind it. -/
theorem dropLast_cons (c : Char) (p : List Char) :
    dropLast '\r' (c :: p) = if c = '\r' ∧ p = [] then [] else c :: dropLast '\r' p := by
  cases p with
  | nil =>
      by_cases hc : c = '\r'
      · simp [dropLast, hc]
      · simp [dropLast, hc]
  | cons d p =>
      simp only [dropLast, List.getLast?_cons_cons, reduceCtorEq, and_false, if_false]
      split <;> rfl

theorem intercalate_cons_cons (c : Char) (p : List Char) (ps : List (List Char)) :
    ['\n'].intercalate ((c :: p) :: ps) = c :: ['\n'].intercalate (p :: ps) := by
  cases ps <;> rfl

/-- The pieces joined again, with no carriage returns at their ends. -/
theorem intercalate_trimmed_pieces (cs : List Char) :
    ['\n'].intercalate ((pieces cs).map (dropLast '\r')) = trimmed cs := by
  induction cs with
  | nil => rfl
  | cons c cs ih =>
      obtain ⟨p, ps, hps, hp⟩ := exists_pieces cs
      rw [hps, List.map_cons] at ih
      rw [pieces_cons, trimmed, hps]
      by_cases hc : c = '\n'
      · have hcr : ¬ (c = '\r' ∧ cs.head?.getD '\n' = '\n') := fun h => absurd (hc.symm.trans h.1) (by decide)
        rw [if_pos hc, if_neg hcr, ← ih, hc]
        rfl
      · rw [if_neg hc, List.modifyHead_cons, List.map_cons, dropLast_cons]
        by_cases hcr : c = '\r' ∧ p = []
        · rw [if_pos hcr, if_pos ⟨hcr.1, hp.mp hcr.2⟩, ← ih, hcr.2]
          rfl
        · rw [if_neg hcr, if_neg fun h => hcr ⟨h.1, hp.mpr h.2⟩, intercalate_cons_cons, ih]

end Log

namespace Lexer

/-! ### Lines of a text -/

theorem toList_chomp {p : List Char} (h : '\n' ∉ p) :
    (Log.chomp (String.ofList p)).toList = Log.dropLast '\r' p := by
  have hfeed : Log.dropLast '\n' p = p := if_neg fun hlast => h (List.mem_of_getLast? hlast)
  rw [Log.chomp, String.toList_ofList, String.toList_ofList, hfeed]

/-- What lines leave to come is what is scanned from them. -/
theorem upcoming_lines {ps : List (List Char)} (h : ∀ p ∈ ps, '\n' ∉ p) (line : Nat) (mode : Mode) :
    upcoming line mode (ps.map fun p => .line (String.ofList p)) =
      feedAll line mode (ps.map (Log.dropLast '\r')) := by
  induction ps generalizing line mode with
  | nil => rfl
  | cons p ps ih =>
      rw [List.forall_mem_cons] at h
      rw [List.map_cons, List.map_cons, upcoming, feedAll_cons, toList_chomp h.1, ih h.2]

/-- An empty line at the end of a text finds nothing. -/
theorem feedAll_append_nil (lines : List (List Char)) (line : Nat) (mode : Mode) :
    feedAll line mode (lines ++ [[]]) = feedAll line mode lines := by
  induction lines generalizing line mode with
  | nil =>
      cases mode <;> simp [feedAll, feed, scan, Mode.ending, Mode.finish?]
  | cons cs lines ih => rw [List.cons_append, feedAll_cons, feedAll_cons, ih]

/-- What a text gives is what one pass finds on it without the carriage returns at the ends of its lines. -/
theorem rest_fresh (text : String) : (fresh text).rest = lex ⟨0, 0⟩ .code (Log.trimmed text.toList) := by
  have hfree : ∀ p ∈ Log.pieces text.toList, '\n' ∉ p := fun p hp => Log.newline_not_mem_pieces hp
  have hlines : ∀ cs ∈ (Log.pieces text.toList).map (Log.dropLast '\r'), '\n' ∉ cs := by
    intro cs hcs
    obtain ⟨p, hp, rfl⟩ := List.mem_map.mp hcs
    exact fun hmem => hfree p hp (Log.mem_of_mem_dropLast hmem)
  rw [← Log.intercalate_trimmed_pieces, ← feedAll_eq_lex hlines]
  have hrest : (fresh text).rest = upcoming 0 .code (Input.ofText text none) := rfl
  obtain ⟨before, last, hps⟩ := Log.exists_pieces_eq text.toList
  rw [hps] at hfree ⊢
  rw [hrest, Input.ofText_eq hps]
  by_cases hempty : last = []
  · rw [if_pos hempty, List.append_nil, upcoming_lines fun p hp => hfree p (List.mem_append_left _ hp), hempty,
      List.map_append]
    exact (feedAll_append_nil _ 0 .code).symm
  · rw [if_neg hempty, upcoming_lines hfree]

end Lexer

/-! ### The tokens of a text -/

/-- The tokens before the first error, and that error. -/
def Entry.upToError : List Entry → List Token × Option LexError
  | [] => ([], none)
  | .ok t :: es => (t :: (upToError es).1, (upToError es).2)
  | .error e :: _ => ([], some e)

namespace Entry

theorem upToError_tokens (ts : List Token) : upToError (ts.map .ok) = (ts, none) := by
  induction ts with
  | nil => rfl
  | cons t ts ih => rw [List.map_cons, upToError, ih]

theorem upToError_eq_none {es : List Entry} (h : (upToError es).2 = none) : es = (upToError es).1.map .ok := by
  induction es with
  | nil => rfl
  | cons x es ih =>
      cases x with
      | ok t => exact congrArg (Except.ok t :: ·) (ih h)
      | error e => cases h

theorem upToError_eq_some {es : List Entry} {e : LexError} (h : (upToError es).2 = some e) :
    ∃ us, es = (upToError es).1.map .ok ++ .error e :: us := by
  induction es with
  | nil => cases h
  | cons x es ih =>
      cases x with
      | ok t =>
          obtain ⟨us, hus⟩ := ih h
          exact ⟨us, congrArg (Except.ok t :: ·) hus⟩
      | error e' =>
          cases h
          exact ⟨es, rfl⟩

theorem mapM_id (es : List Entry) :
    es.mapM id = match (upToError es).2 with
      | none => .ok (upToError es).1
      | some e => .error e := by
  induction es with
  | nil => rfl
  | cons x es ih =>
      rw [List.mapM_cons, ih]
      cases x with
      | error e => rfl
      | ok t =>
          simp only [upToError]
          cases (upToError es).2 <;> rfl

end Entry

namespace Lexer

theorem entries_fresh (text : String) : TokenSource.entries (fresh text) = (fresh text).rest := entries_eq_rest _

end Lexer

/-- A text is a list of tokens, or rejected with the first of its errors. -/
theorem tokens_eq (text : String) :
    tokens text = match (Entry.upToError (Lexer.fresh text).rest).2 with
      | none => .ok (Entry.upToError (Lexer.fresh text).rest).1
      | some e => .error e := by
  rw [← Entry.mapM_id, ← Lexer.entries_fresh]
  rfl

theorem tokens_eq_ok {text : String} (h : (Entry.upToError (Lexer.fresh text).rest).2 = none) :
    tokens text = .ok (Entry.upToError (Lexer.fresh text).rest).1 := by
  rw [tokens_eq, h]

theorem tokens_eq_error_iff {text : String} {e : LexError} :
    tokens text = .error e ↔ (Entry.upToError (Lexer.fresh text).rest).2 = some e := by
  rw [tokens_eq]
  cases (Entry.upToError (Lexer.fresh text).rest).2 <;> simp

end SoundLang
