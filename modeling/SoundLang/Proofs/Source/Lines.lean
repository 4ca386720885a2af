import SoundLang.Source.Input

/-! # The lines of a text

A text is its pieces, joined by line feeds (`Log.intercalate_pieces`).  All but the last are lines that end in a line
feed, and the last is a line if it is not empty: so they are delivered by a reader of the text (`Input.ofText_eq`) and
found when it is split as a whole (`Log.linesOf_eq`).  In the bytes of a text a line feed stands just where the text has
one, so a reader of the bytes delivers the same lines (`Input.ofBytes_utf8`). -/

namespace SoundLang

namespace Log

/-! ### Pieces -/

theorem pieces_cons (c : Char) (cs : List Char) :
    pieces (c :: cs) = if c = '\n' then [] :: pieces cs else (pieces cs).modifyHead (c :: ·) := rfl

theorem pieces_eq_splitOn (cs : List Char) : pieces cs = cs.splitOn '\n' := by
  induction cs with
  | nil => rfl
  | cons c cs ih =>
      rw [pieces_cons, ih, List.splitOn, List.splitOn, List.splitOnP_cons_eq_if_modifyHead]
      simp

theorem pieces_ne_nil (cs : List Char) : pieces cs ≠ [] := by
  rw [pieces_eq_splitOn]
  exact List.splitOnP_ne_nil _ cs

theorem exists_pieces_eq (cs : List Char) : ∃ before last, pieces cs = before ++ [last] :=
  ⟨_, _, (List.dropLast_concat_getLast (pieces_ne_nil cs)).symm⟩

theorem newline_not_mem_pieces {cs p : List Char} (h : p ∈ pieces cs) : '\n' ∉ p := by
  induction cs generalizing p with
  | nil =>
      rw [List.mem_singleton.mp h]
      exact List.not_mem_nil
  | cons c cs ih =>
      rw [pieces_cons] at h
      by_cases hc : c = '\n'
      · rw [if_pos hc] at h
        obtain rfl | h := List.mem_cons.mp h
        · exact List.not_mem_nil
        · exact ih h
      · rw [if_neg hc] at h
        cases hps : pieces cs with
        | nil =>
            rw [hps] at h
            cases h
        | cons q ps =>
            rw [hps] at h ih
            obtain rfl | h := List.mem_cons.mp h
            · rw [List.mem_cons, not_or]
              exact ⟨Ne.symm hc, ih List.mem_cons_self⟩
            · exact ih (List.mem_cons_of_mem q h)

theorem intercalate_pieces (cs : List Char) : ['\n'].intercalate (pieces cs) = cs := by
  rw [pieces_eq_splitOn]
  exact List.intercalate_splitOn '\n'

/-- A text ends as its last piece does, or in the line feed in front of it. -/
theorem getLast?_intercalate (before : List (List Char)) (last : List Char) {c : Char} (hc : c ≠ '\n') :
    (['\n'].intercalate (before ++ [last])).getLast? = some c ↔ last.getLast? = some c := by
  induction before with
  | nil => rw [List.nil_append, List.intercalate_singleton]
  | cons p before ih =>
      rw [List.cons_append, List.intercalate_cons_of_ne_nil (by simp), List.getLast?_append, ← ih,
        List.getLast?_append]
      cases (['\n'].intercalate (before ++ [last])).getLast? with
      | none => simpa using hc.symm
      | some d => simp

section
variable {cs last : List Char} {before : List (List Char)}

theorem getLast?_of_pieces (h : pieces cs = before ++ [last]) {c : Char} (hc : c ≠ '\n') :
    cs.getLast? = some c ↔ last.getLast? = some c := by
  rw [← getLast?_intercalate before last hc, ← h, intercalate_pieces]

/-- A line is one of the pieces. -/
theorem mem_pieces_of_line (h : pieces cs = before ++ [last]) {p : List Char}
    (hp : p ∈ before ++ if last = [] then [] else [last]) : p ∈ pieces cs := by
  rw [h]
  split at hp <;> simp_all

/-- The lines of a text are those that end in a line feed, without it and a carriage return in front of it, and what is
left behind them. -/
theorem linesOf_eq (h : pieces cs = before ++ [last]) :
    linesOf cs = before.map (dropLast '\r') ++ if last = [] then [] else [last] := by
  rw [linesOf, h]
  by_cases hempty : last = [] <;> simp [hempty, Option.filter]

end

end Log

/-- The bytes of characters. -/
def Text.bytes (cs : List Char) : List UInt8 := cs.flatMap String.utf8EncodeChar

theorem Text.toUTF8_ofList (cs : List Char) : (String.ofList cs).toUTF8 = (bytes cs).toByteArray := by
  rw [String.toUTF8_eq_toByteArray, String.toByteArray_ofList]
  rfl

namespace Input

open Text

/-- The lines of a text as a reader delivers them. -/
theorem ofText_eq {text : String} {before : List (List Char)} {last : List Char}
    (h : Log.pieces text.toList = before ++ [last]) :
    ofText text none = (before ++ if last = [] then [] else [last]).map fun p => .line (String.ofList p) := by
  simp only [ofText, h, List.map_append, List.map_cons, List.map_nil, List.dropLast_concat, List.getLast?_concat, ending]
  by_cases hempty : last = [] <;> simp [hempty, Option.filter]

/-! ### Bytes -/

/-- Only the line feed has a byte that reads as one. -/
theorem linefeed_notMem_utf8EncodeChar {c : Char} (h : c ≠ '\n') : 10 ∉ String.utf8EncodeChar c := by
  have hval : c.val.toNat ≠ 10 := fun hc => h (Char.ext (UInt32.toNat_inj.mp hc))
  fun_cases String.utf8EncodeChar c
  all_goals
    simp only [List.mem_cons, List.not_mem_nil, or_false, not_or, ← UInt8.toNat_inj, UInt8.toNat_ofNat']
    simp only [UInt8.reduceToNat]
    omega

/-- Bytes that are none of a line feed go to the first part. -/
theorem parts_append {bs : List UInt8} (h : 10 ∉ bs) (rest : List UInt8) :
    parts (bs ++ rest) = (parts rest).modifyHead (bs ++ ·) := by
  induction bs with
  | nil => cases hparts : parts rest <;> simp [hparts]
  | cons b bs ih =>
      rw [List.mem_cons, not_or] at h
      have hcons : parts (b :: bs ++ rest) = (parts (bs ++ rest)).modifyHead (b :: ·) := if_neg (Ne.symm h.1)
      rw [hcons, ih h.2]
      cases parts rest <;> rfl

/-- The parts of the bytes are the bytes of the pieces. -/
theorem parts_bytes (cs : List Char) : parts (bytes cs) = (Log.pieces cs).map bytes := by
  induction cs with
  | nil => rfl
  | cons c cs ih =>
      have hcons : bytes (c :: cs) = String.utf8EncodeChar c ++ bytes cs := rfl
      rw [Log.pieces_cons, hcons]
      split
      · next hc =>
          subst hc
          rw [List.map_cons, ← ih]
          rfl
      · next hc =>
          rw [parts_append (linefeed_notMem_utf8EncodeChar hc), ih]
          cases Log.pieces cs <;> rfl

theorem readLine_bytes (cs : List Char) : readLine (bytes cs) = .line (String.ofList cs) := by
  have hvalid : ((bytes cs).toByteArray).IsValidUTF8 := .intro cs rfl
  have hread : String.fromUTF8? (bytes cs).toByteArray = some (String.ofList cs) := dif_pos hvalid
  rw [readLine, hread]

/-- A reader of the bytes of a text delivers its lines. -/
theorem ofBytes_utf8 (text : String) (failure : Option String) :
    ofBytes text.toUTF8.data.toList failure = ofText text failure := by
  have hbytes : text.toUTF8.data.toList = bytes text.toList := by
    rw [← String.ofList_toList (s := text), toUTF8_ofList, List.toList_data_toByteArray, String.toList_ofList]
  have hline : readLine ∘ bytes = fun p => Read.line (String.ofList p) := funext readLine_bytes
  have hempty : ((fun p : List UInt8 => !p.isEmpty) ∘ bytes) = fun p => !p.isEmpty := by
    funext cs
    cases cs <;> simp [bytes]
  simp only [ofBytes, ofText, hbytes, parts_bytes]
  rw [← List.map_dropLast, List.map_map, hline, List.getLast?_map, Option.filter_map, Option.map_map, hempty, hline,
    List.map_dropLast]

end Input

end SoundLang
