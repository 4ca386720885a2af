import SoundLang.Proofs.Lexer.Lazy
import SoundLang.Proofs.Lexer.Text

/-! # The log of a text that is read

No call loses a line: what the log of a lexer has and what it is still to have are together the same in every state
(`Lexer.source_calls`).  So a lexer over the bytes of a text that has read them all has each line of the text in its
log, chomped.  To split the text as a whole is to chomp each line but a last one without a line feed, so the two logs
are equal but for a carriage return at the very end of the text (`Lexer.log_onBytes_eq_ofText_iff`). -/

namespace SoundLang

namespace Input

/-- A log keeps lines without the carriage returns at their ends. -/
theorem logged_lines {ps : List (List Char)} (h : ∀ p ∈ ps, '\n' ∉ p) :
    logged (ps.map fun p => .line (String.ofList p)) = ps.map fun p => String.ofList (Log.dropLast '\r' p) := by
  induction ps with
  | nil => rfl
  | cons p ps ih =>
      rw [List.forall_mem_cons] at h
      have hchomp : Log.chomp (String.ofList p) = String.ofList (Log.dropLast '\r' p) := by
        rw [← Lexer.toList_chomp h.1, String.ofList_toList]
      rw [List.map_cons, List.map_cons, logged, hchomp, ih h.2]

end Input

namespace Log

theorem dropLast_concat (c : Char) (cs : List Char) : dropLast c (cs ++ [c]) = cs := by
  rw [dropLast, if_pos List.getLast?_concat, List.dropLast_concat]

theorem dropLast_eq_self_iff {c : Char} {cs : List Char} : dropLast c cs = cs ↔ cs.getLast? ≠ some c := by
  constructor
  · intro h hlast
    obtain ⟨front, rfl⟩ := List.getLast?_eq_some_iff.mp hlast
    rw [dropLast_concat] at h
    simp at h
  · exact fun h => if_neg h

theorem eq_iff_toList {log log' : Log} : log = log' ↔ log.lines.toList = log'.lines.toList := by
  cases log
  cases log'
  rw [Array.toList_inj, Log.mk.injEq]

end Log

namespace Lexer

/-! ### No line is lost -/

theorem source_call (lx : Lexer) (c : Call) : (lx.call c).source = lx.source := by
  cases c with
  | peek | next => exact lx.source_fill
  | beginStatement | discard => rfl

theorem source_calls (lx : Lexer) (cs : List Call) : (lx.calls cs).source = lx.source := by
  induction cs generalizing lx with
  | nil => rfl
  | cons c cs ih => rw [calls_cons, ih, source_call]

theorem source_of_ended {lx : Lexer} (h : lx.ended = true) : lx.source = lx.log.lines.toList := by
  rw [source, if_pos h, List.append_nil]

/-- When the input has ended, the log has all of its lines. -/
theorem lines_of_ended {input : Input} {prompting : Prompting} {cs : List Call}
    (h : ((opened input prompting).calls cs).ended = true) :
    ((opened input prompting).calls cs).log.lines.toList = input.logged := by
  rw [← source_of_ended h, source_calls]
  rfl

/-- To ask for one token after the other comes to the end of the input. -/
theorem exists_ended (lx : Lexer) : ∃ n, (lx.calls (List.replicate n .next)).ended = true := by
  have hafter : ∀ n (lx : Lexer), lx.calls (List.replicate n .next) = lx.after n := by
    intro n
    induction n with
    | zero => exact fun _ => rfl
    | succ n ih => exact fun lx => ih lx.next.2
  exact ⟨_, hafter _ lx ▸ (ended_after lx.rest.length.lt_succ_self).1⟩

/-! ### Two ways to split a text -/

/-- A lexer that has read nothing of the bytes of a text. -/
def onBytes (text : String) (prompting : Prompting) : Lexer :=
  opened (Input.ofBytes text.toUTF8.data.toList none) prompting

section
variable {text : String} {prompting : Prompting} {cs : List Call} {before : List (List Char)} {last : List Char}

theorem lines_onBytes (h : Log.pieces text.toList = before ++ [last])
    (hended : ((onBytes text prompting).calls cs).ended = true) :
    ((onBytes text prompting).calls cs).log.lines.toList =
      (before.map (Log.dropLast '\r') ++ if last = [] then [] else [Log.dropLast '\r' last]).map String.ofList := by
  have hfree : ∀ p ∈ before ++ if last = [] then [] else [last], '\n' ∉ p :=
    fun p hp => Log.newline_not_mem_pieces (Log.mem_pieces_of_line h hp)
  rw [onBytes, lines_of_ended hended, Input.ofBytes_utf8, Input.ofText_eq h, Input.logged_lines hfree]
  split <;> simp

theorem lines_ofText (h : Log.pieces text.toList = before ++ [last]) :
    (Log.ofText text).lines.toList =
      (before.map (Log.dropLast '\r') ++ if last = [] then [] else [last]).map String.ofList := by
  rw [Log.ofText, List.toList_toArray, Log.linesOf_eq h]

end

/-- A lexer comes to the end of a text, and then its log is that of the text split as a whole, unless the text ends in a
carriage return: the log of the lexer has the last line without it, and the other one with it. -/
theorem log_onBytes_eq_ofText_iff (text : String) (prompting : Prompting) :
    (∃ n, ((onBytes text prompting).calls (List.replicate n .next)).ended = true) ∧
      ∀ cs, ((onBytes text prompting).calls cs).ended = true →
        (((onBytes text prompting).calls cs).log = Log.ofText text ↔ text.toList.getLast? ≠ some '\r') ∧
        (text.toList.getLast? = some '\r' → ∃ lines line,
          (Log.ofText text).lines.toList = lines ++ [line ++ "\r"] ∧
            ((onBytes text prompting).calls cs).log.lines.toList = lines ++ [line]) := by
  refine ⟨exists_ended _, fun cs hended => ?_⟩
  obtain ⟨before, last, hpieces⟩ := Log.exists_pieces_eq text.toList
  have hread := lines_onBytes hpieces hended
  have hsplit := lines_ofText hpieces
  have hlast := Log.getLast?_of_pieces hpieces (c := '\r') (by decide)
  constructor
  · rw [Log.eq_iff_toList, hread, hsplit, Ne, hlast, List.map_inj_right fun _ _ => String.ofList_inj.mp]
    by_cases hempty : last = []
    · simp [hempty]
    · rw [if_neg hempty, if_neg hempty, List.append_cancel_left_eq, List.singleton_inj, Log.dropLast_eq_self_iff]
  · intro hreturn
    obtain ⟨line, rfl⟩ := List.getLast?_eq_some_iff.mp (hlast.mp hreturn)
    rw [if_neg (by simp), Log.dropLast_concat] at hread
    rw [if_neg (by simp)] at hsplit
    refine ⟨(before.map (Log.dropLast '\r')).map String.ofList, String.ofList line, ?_, ?_⟩
    · rw [hsplit, List.map_append, List.map_singleton, String.ofList_append]
    · rw [hread, List.map_append, List.map_singleton]

/-- Lines that end in a line feed, one of them after a carriage return and one after two, an empty one, and carriage
returns in front of other characters. -/
theorem log_onBytes_eq_ofText_ofMixed :
    ((onBytes "a\r\n\rb\r\r\n\nc\rd" .off).calls (List.replicate 5 .next)).ended = true ∧
      ((onBytes "a\r\n\rb\r\r\n\nc\rd" .off).calls (List.replicate 5 .next)).log =
        Log.ofText "a\r\n\rb\r\r\n\nc\rd" ∧
      (Log.ofText "a\r\n\rb\r\r\n\nc\rd").lines = #["a", "\rb\r", "", "c\rd"] := by
  have hended : ((onBytes "a\r\n\rb\r\r\n\nc\rd" .off).calls (List.replicate 5 .next)).ended = true := by
    decide +kernel
  exact ⟨hended, (((log_onBytes_eq_ofText_iff _ _).2 _ hended).1).mpr (by decide), by decide +kernel⟩

/-- At the very end of a text a carriage return is kept by one and taken away by the other. -/
theorem log_onBytes_ne_ofText :
    ((onBytes "a\r" .off).calls [.next, .next]).ended = true ∧
      ((onBytes "a\r" .off).calls [.next, .next]).log ≠ Log.ofText "a\r" ∧
      ((onBytes "a\r" .off).calls [.next, .next]).log.lines = #["a"] ∧ (Log.ofText "a\r").lines = #["a\r"] := by
  decide +kernel

end Lexer

end SoundLang
