import SoundLang.Proofs.Lexer.Serve
import SoundLang.Proofs.Parse.Moved

/-! # A lexer behind other lines

A lexer knows on which line it is by the size of its log alone.  So one whose log starts with `k` other lines
(`Lexer.behind`) reads, finds and serves the same, `k` lines further down: this holds of scanning a line (`scan_down`),
of reading lines (`fill_behind`), and so of the lexer as a source of tokens (`shifts_behind`). -/

namespace SoundLang

open Placed (down)

instance : Placed Mode := ⟨fun k mode =>
  match mode with
  | .code => .code
  | .comment opener outer => .comment (down k opener) (down k outer)
  | .string start value => .string (down k start) value⟩

section
variable (k : Nat)

@[simp] theorem Mode.down_code : down k Mode.code = .code := rfl

@[simp] theorem Mode.down_comment (opener : Pos) (outer : List Pos) :
    down k (Mode.comment opener outer) = .comment (down k opener) (down k outer) := rfl

@[simp] theorem Mode.down_string (start : Pos) (value : String) :
    down k (Mode.string start value) = .string (down k start) value := rfl

@[simp] theorem Mode.isCode_down (mode : Mode) : (down k mode).isCode = mode.isCode := by
  cases mode <;> rfl

theorem Mode.afterComment_down (outer : List Pos) : afterComment (down k outer) = down k (afterComment outer) := by
  cases outer <;> rfl

theorem Mode.finish?_down (mode : Mode) : (down k mode).finish? = down k mode.finish? := by
  cases mode with
  | code | string => rfl
  | comment opener outer =>
      change some (LexError.unterminatedComment (down k opener) (outer.map (down k)).reverse) = _
      rw [← List.map_reverse]
      rfl

end

namespace Lexer

/-! ### Scanning -/

theorem entryOf_down (k : Nat) (m : Lexeme) (line first last : Nat) :
    entryOf m (.onLine (line + k) first last) = down k (entryOf m (.onLine line first last)) := by
  obtain ⟨text, form⟩ := m
  cases form <;> rfl

/-- What is found on a line does not depend on its number. -/
theorem scan_down (k line byte : Nat) (mode : Mode) (cs : List Char) :
    scan (line + k) byte (down k mode) cs = down k (scan line byte mode cs) := by
  induction byte, mode, cs using scan.induct line with
  | case1 byte | case2 byte tail | case9 byte opener outer | case13 byte start value | case15 byte start value =>
      simp [scan]
  | case3 byte cs ih | case4 byte cs ih =>
      rw [Mode.down_code, scan, scan]
      exact ih
  | case10 byte opener outer cs ih =>
      rw [Mode.down_comment, scan, scan]
      exact ih
  | case11 byte opener outer cs ih =>
      rw [Mode.down_comment, scan, scan, Mode.afterComment_down]
      exact ih
  | case16 byte start value c cs ih =>
      rw [Mode.down_string, scan, scan]
      exact ih
  | case5 byte c cs h1 h2 h3 hb ih =>
      rw [Mode.down_code, scan_blank ⟨h1, h2, h3⟩ line byte hb, scan_blank ⟨h1, h2, h3⟩ (line + k) byte hb]
      exact ih
  | case6 byte c cs h1 h2 h3 hb hm =>
      rw [Bool.not_eq_true] at hb
      rw [Mode.down_code, scan_unexpected ⟨h1, h2, h3⟩ line byte hb hm, scan_unexpected ⟨h1, h2, h3⟩ _ byte hb hm]
      rfl
  | case7 byte c cs h1 h2 h3 hb m hm stop e he =>
      rw [Bool.not_eq_true] at hb
      have he' : entryOf m (.onLine (line + k) byte stop) = .error (down k e) := by rw [entryOf_down, he, down_error]
      rw [Mode.down_code, scan_malformed ⟨h1, h2, h3⟩ line byte hb hm he, scan_malformed ⟨h1, h2, h3⟩ _ byte hb hm he']
      rfl
  | case8 byte c cs h1 h2 h3 hb m hm stop t ht entries mode hs ih =>
      rw [Bool.not_eq_true] at hb
      have ht' : entryOf m (.onLine (line + k) byte stop) = .ok (down k t) := by rw [entryOf_down, ht, down_ok]
      rw [Mode.down_code, scan_token ⟨h1, h2, h3⟩ line byte hb hm ht, scan_token ⟨h1, h2, h3⟩ _ byte hb hm ht']
      rw [Mode.down_code] at ih
      rw [ih]
      rfl
  | case12 byte opener outer c cs h1 h2 ih =>
      rw [Mode.down_comment, scan, scan]
      · exact ih
      · exact h1
      · exact h2
      · exact h1
      · exact h2
  | case14 byte start value cs entries mode hs ih =>
      rw [hs, Mode.down_code] at ih
      rw [Mode.down_string, scan, scan, ih, hs]
      rfl
  | case17 byte start value c cs h1 h2 h3 ih =>
      rw [Mode.down_string, scan, scan]
      · exact ih
      · exact h1
      · exact h2
      · exact h3
      · exact h1
      · exact h2
      · exact h3

end Lexer

/-! ### Reading -/

/-- The log behind other lines. -/
def Log.behind (log pre : Log) : Log := ⟨pre.lines ++ log.lines⟩

theorem Log.size_behind (log pre : Log) : (log.behind pre).size = pre.size + log.size := Array.size_append

namespace Lexer

/-- The lexer with its log behind other lines. -/
def behind (pre : Log) (lx : Lexer) : Lexer :=
  { lx with
    log := lx.log.behind pre
    mode := down pre.size lx.mode
    queue := down pre.size lx.queue }

variable (pre : Log) (lx : Lexer)

@[simp] theorem ended_behind : (lx.behind pre).ended = lx.ended := rfl

@[simp] theorem isEmpty_queue_behind : (lx.behind pre).queue.isEmpty = lx.queue.isEmpty := isEmpty_down _ _

theorem prompt_behind : (lx.behind pre).prompt = lx.prompt.behind pre := by
  unfold prompt
  rw [show (lx.behind pre).prompting = lx.prompting from rfl]
  cases lx.prompting <;> rfl

theorem finish_behind : (lx.behind pre).finish = lx.finish.behind pre := by
  have hqueue : (lx.behind pre).finish.queue = (lx.finish.behind pre).queue := by
    change down pre.size lx.queue ++ ((down pre.size lx.mode).finish?.map Except.error).toList =
      down pre.size (lx.queue ++ (lx.mode.finish?.map Except.error).toList)
    rw [Mode.finish?_down, down_append]
    cases lx.mode.finish? <;> rfl
  exact congrArg (fun queue => { lx.finish.behind pre with queue }) hqueue

theorem accept_behind (r : Read) : (lx.behind pre).accept r = (lx.accept r).behind pre := by
  cases r with
  | failed message =>
      have hqueue :
          ((lx.behind pre).accept (.failed message)).queue = ((lx.accept (.failed message)).behind pre).queue :=
        (down_append pre.size lx.queue [.error (.unreadable message)]).symm
      exact congrArg (fun queue => { (lx.accept (.failed message)).behind pre with queue }) hqueue
  | line text =>
      have hscan : scan (lx.log.behind pre).size 0 (down pre.size lx.mode) (Log.chomp text).toList =
          down pre.size (scan lx.log.size 0 lx.mode (Log.chomp text).toList) := by
        rw [Log.size_behind, Nat.add_comm, scan_down]
      unfold accept behind
      simp only [hscan]
      generalize scan lx.log.size 0 lx.mode (Log.chomp text).toList = found
      obtain ⟨entries, mode⟩ := found
      simp only [down_pair, down_append, isEmpty_down, Mode.isCode_down, Log.behind, Array.push_append]

theorem fillFrom_behind (unread : Input) : fillFrom unread (lx.behind pre) = (fillFrom unread lx).behind pre := by
  induction unread generalizing lx with
  | nil =>
      rw [fillFrom, fillFrom, prompt_behind]
      exact finish_behind pre { lx.prompt with unread := [] }
  | cons r unread ih =>
      have haccept :
          ({ (lx.behind pre).prompt with unread }.accept r) = ({ lx.prompt with unread }.accept r).behind pre := by
        rw [prompt_behind]
        exact accept_behind pre { lx.prompt with unread } r
      rw [fillFrom, fillFrom, haccept]
      simp only [isEmpty_queue_behind, ended_behind]
      split
      · exact ih _
      · rfl

theorem fill_behind : (lx.behind pre).fill = lx.fill.behind pre := by
  unfold fill
  rw [isEmpty_queue_behind, ended_behind]
  split
  · exact fillFrom_behind pre lx lx.unread
  · rfl

/-- A lexer behind other lines answers what it answers without them, further down. -/
theorem shifts_behind : TokenSource.Shifts pre.size (behind pre) where
  peek lx := by
    change (Entry.front (lx.behind pre).fill.queue, (lx.behind pre).fill) = _
    rw [fill_behind]
    exact Prod.ext (Entry.front_down pre.size lx.fill.queue) rfl
  next lx := by
    change ((lx.behind pre).peek.1, { (lx.behind pre).fill with queue := (lx.behind pre).fill.queue.tail }) = _
    rw [peek, fill_behind]
    have htail : (down pre.size lx.fill.queue).tail = down pre.size lx.fill.queue.tail := List.map_tail.symm
    exact Prod.ext (Entry.front_down pre.size lx.fill.queue)
      (congrArg (fun queue => { lx.fill.behind pre with queue }) htail)

end Lexer

end SoundLang
