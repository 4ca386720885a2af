import SoundLang.Proofs.Session.Recovery

/-! # Prompts

While an item is read the prompts tell what has been taken of it.  To say this the lexer is watched (`Lexer.Watched`):
beside it is kept how many entries have been taken for the item and whether a line read for it left a comment or a
string open, and this is noted each time a line is asked for.  A watched lexer answers like the lexer itself
(`Lexer.Watched.maps_lexer`).

A line is asked for with the prompt of a statement that goes on just when more has been taken for the item than was
queued when it began, or when something has been left open (`Session.prompts_round`).  So an item that begins behind
another one on a line is not seen to go on with the next line (`Session.fresh_inside_item`). -/

namespace SoundLang

namespace Lexer

/-- What has been seen of an item. -/
structure Seen where
  /-- The number of entries taken for it. -/
  taken : Nat := 0
  /-- A line read for it left a comment or a string open. -/
  opened : Bool := false
deriving DecidableEq

/-- The prompt for the next line of an item, when `waiting` entries were queued before it began. -/
def Seen.prompt (waiting : Nat) (seen : Seen) : Prompt :=
  if waiting < seen.taken ∨ seen.opened = true then .continued else .fresh

/-- A lexer that is watched while an item is read. -/
structure Watched where
  lexer : Lexer
  seen : Seen := {}
  /-- What had been seen each time a line was asked for, the last one first. -/
  asked : List Seen := []

namespace Watched

/-- Reads one answer of the reader, or its end. -/
def readLine (w : Watched) : Watched where
  lexer := w.lexer.readLine
  seen := { w.seen with opened := w.seen.opened || !w.lexer.readLine.mode.isCode }
  asked := w.seen :: w.asked

/-- Reads what is left of the input, until something is queued or the reader has ended. -/
def fillFrom : Input → Watched → Watched
  | [], w => w.readLine
  | _ :: rest, w =>
    let w := w.readLine
    if w.lexer.queue.isEmpty && !w.lexer.ended then fillFrom rest w else w

/-- Reads lines until something is queued or the reader has ended. -/
def fill (w : Watched) : Watched :=
  if w.lexer.queue.isEmpty && !w.lexer.ended then fillFrom w.lexer.unread w else w

/-- Looks at the next token. -/
def peek (w : Watched) : Except LexError (Option Token) × Watched :=
  let w := w.fill
  (Entry.front w.lexer.queue, w)

/-- Takes the next token, or the error in its place. -/
def next (w : Watched) : Except LexError (Option Token) × Watched :=
  let w := w.fill
  (Entry.front w.lexer.queue,
    { w with
      lexer := { w.lexer with queue := w.lexer.queue.tail }
      seen := { w.seen with taken := w.seen.taken + (w.lexer.queue.take 1).length } })

instance : TokenSource Watched := ⟨peek, next, fun w => w.lexer.pending⟩

/-! ### Watching changes nothing -/

theorem lexer_fillFrom {unread : Input} {w : Watched} (hunread : w.lexer.unread = unread) :
    (fillFrom unread w).lexer = Lexer.fillFrom unread w.lexer := by
  induction unread generalizing w with
  | nil => exact readLine_nil hunread
  | cons r unread ih =>
      have hstep : w.readLine.lexer = { w.lexer.prompt with unread }.accept r := readLine_cons hunread
      rw [fillFrom, Lexer.fillFrom, ← hstep]
      split
      · exact ih (unread_readLine hunread)
      · rfl

theorem lexer_fill (w : Watched) : w.fill.lexer = w.lexer.fill := by
  unfold fill Lexer.fill
  split
  · exact lexer_fillFrom rfl
  · rfl

/-- A watched lexer answers like the lexer itself. -/
theorem maps_lexer : TokenSource.Maps Watched.lexer where
  peek w := by
    change (Entry.front w.lexer.fill.queue, w.lexer.fill) = (Entry.front w.fill.lexer.queue, w.fill.lexer)
    rw [lexer_fill]
  next w := by
    change (Entry.front w.lexer.fill.queue, { w.lexer.fill with queue := w.lexer.fill.queue.tail }) =
      (Entry.front w.fill.lexer.queue, { w.fill.lexer with queue := w.fill.lexer.queue.tail })
    rw [lexer_fill]

end Watched

/-! ### One line after the other -/

section
variable {lx : Lexer}

theorem prompt_of_shown (h : lx.prompting = .shown) :
    lx.prompt = { lx with prompts := (if lx.continued then .continued else .fresh) :: lx.prompts } := by
  rw [prompt, h]

theorem prompting_readLine (h : lx.prompting = .shown) : lx.readLine.prompting = .shown := by
  unfold readLine
  rw [prompt_of_shown h]
  split
  · exact h
  · next r rest hunread => cases r <;> exact h

theorem prompts_readLine (h : lx.prompting = .shown) :
    lx.readLine.prompts = (if lx.continued then .continued else .fresh) :: lx.prompts := by
  unfold readLine
  rw [prompt_of_shown h]
  split
  · rfl
  · next r rest hunread => cases r <;> rfl

/-- A statement goes on when it did so before the line, or when the line has something of it. -/
theorem continued_readLine (hqueue : lx.queue = []) (h : lx.prompting = .shown) (hended : lx.readLine.ended = false) :
    lx.readLine.continued = (lx.continued || !lx.readLine.queue.isEmpty || !lx.readLine.mode.isCode) := by
  revert hended
  unfold readLine
  rw [prompt_of_shown h]
  split
  · exact nofun
  · next r rest hunread =>
      cases r with
      | failed message => exact nofun
      | line text =>
          intro _
          simp [accept, hqueue]

end

/-- The prompts of a lexer are those for what has been seen. -/
structure Watched.Prompts (waiting : Nat) (w : Watched) : Prop where
  shown : w.lexer.prompting = .shown
  prompts : w.lexer.prompts = w.asked.map (Seen.prompt waiting)
  /-- All that was queued counts as taken: it is, when the next line is asked for. -/
  continued : w.lexer.ended = false →
    (w.lexer.continued = true ↔ waiting < w.seen.taken + w.lexer.queue.length ∨ w.seen.opened = true)
  waiting : waiting ≤ w.seen.taken + w.lexer.queue.length

namespace Watched.Prompts

variable {waiting : Nat} {w : Watched}

theorem readLine (h : w.Prompts waiting) (hqueue : w.lexer.queue = []) (hended : w.lexer.ended = false) :
    w.readLine.Prompts waiting where
  shown := prompting_readLine h.shown
  prompts := by
    have hcontinued := h.continued hended
    rw [hqueue, List.length_nil, Nat.add_zero] at hcontinued
    have hprompt : (if w.lexer.continued = true then Prompt.continued else .fresh) = w.seen.prompt waiting :=
      if_congr hcontinued rfl rfl
    exact (prompts_readLine h.shown).trans (congr (congrArg _ hprompt) h.prompts)
  continued := by
    intro hended'
    have hcontinued := h.continued hended
    have hwaiting := h.waiting
    rw [hqueue, List.length_nil, Nat.add_zero] at hcontinued hwaiting
    have hmore : waiting < w.seen.taken + w.readLine.lexer.queue.length ↔
        waiting < w.seen.taken ∨ w.readLine.lexer.queue ≠ [] := by
      rw [← List.length_pos_iff]
      omega
    have hstep : w.readLine.lexer.continued = _ := continued_readLine hqueue h.shown hended'
    rw [hstep]
    change _ ↔ waiting < w.seen.taken + w.readLine.lexer.queue.length ∨
      (w.seen.opened || !w.readLine.lexer.mode.isCode) = true
    rw [hmore]
    simp only [Bool.or_eq_true, hcontinued, Bool.not_eq_true', List.isEmpty_eq_false_iff]
    tauto
  waiting := by
    have hwaiting := h.waiting
    rw [hqueue, List.length_nil, Nat.add_zero] at hwaiting
    exact Nat.le_add_right_of_le hwaiting

theorem fillFrom {unread : Input} (h : w.Prompts waiting) (hqueue : w.lexer.queue = [])
    (hended : w.lexer.ended = false) : (Watched.fillFrom unread w).Prompts waiting := by
  induction unread generalizing w with
  | nil => exact h.readLine hqueue hended
  | cons r unread ih =>
      rw [Watched.fillFrom]
      split
      · next hc =>
          simp only [Bool.and_eq_true, List.isEmpty_iff, Bool.not_eq_true'] at hc
          exact ih (h.readLine hqueue hended) hc.1 hc.2
      · exact h.readLine hqueue hended

theorem fill (h : w.Prompts waiting) : w.fill.Prompts waiting := by
  unfold Watched.fill
  split
  · next hc =>
      simp only [Bool.and_eq_true, List.isEmpty_iff, Bool.not_eq_true'] at hc
      exact h.fillFrom hc.1 hc.2
  · exact h

theorem next (h : w.Prompts waiting) : w.next.2.Prompts waiting := by
  have hfill := h.fill
  -- an entry that is taken is no longer queued
  have hsame : w.fill.seen.taken + (w.fill.lexer.queue.take 1).length + w.fill.lexer.queue.tail.length =
      w.fill.seen.taken + w.fill.lexer.queue.length := by
    rw [List.length_take, List.length_tail]
    omega
  refine ⟨hfill.shown, hfill.prompts, ?_, ?_⟩
  · intro hended
    have hcontinued := hfill.continued hended
    rw [← hsame] at hcontinued
    exact hcontinued
  · have hwaiting := hfill.waiting
    rw [← hsame] at hwaiting
    exact hwaiting

theorem keeps (waiting : Nat) : TokenSource.Keeps (Prompts waiting) fun _ _ => True where
  peek _ h := ⟨h.fill, fun _ _ => trivial⟩
  next _ h := ⟨h.next, fun _ _ => trivial⟩

end Watched.Prompts

end Lexer

namespace Session

/-- The lexer of a session, watched from the next item on. -/
def watched (s : Session) : Lexer.Watched := { lexer := s.lexer.beginStatement }

/-- What had been seen of the next item each time a line was asked for, in the round that reads it
(`read_watched`). -/
def asked (s : Session) : List Lexer.Seen := (Grammar.read Grammar.item s.watched).2.asked.reverse

/-- The next item is read from the watched lexer as it is read from the lexer itself. -/
theorem read_watched (s : Session) :
    ((Grammar.read Grammar.item s.watched).1, (Grammar.read Grammar.item s.watched).2.lexer) = s.read :=
  Grammar.readWithin_maps Lexer.Watched.maps_lexer s.lexer.pending Grammar.item s.watched

/-- The prompts of a round are those that reading leaves. -/
theorem prompts_of_read (s : Session) : s.round.1.prompts = s.read.2.prompts.reverse := by
  change s.judge.2.lexer.prompts.reverse = s.read.2.prompts.reverse
  unfold judge
  obtain ⟨e | (_ | i), lx⟩ := s.read
  · cases hmode : s.mode <;> rfl
  · rfl
  · rfl

theorem prompts_of_comes {s u : Session} {before : List Round} (h : Comes s before u) (hs : s.lexer.prompts = []) :
    u.lexer.prompts = [] := by
  refine h.keeps (P := fun u => u.lexer.prompts = []) (fun u _ => ?_) hs
  rw [lexer_round]
  rfl

variable {mode : Mode} {input : Input} {types : Interner} {before : List Round} {u : Session}

/-- Each line of a session is asked for with the prompt for what has been seen of the item that is being read: the item
goes on when more has been taken for it than was queued before it began, or when something has been left open. -/
theorem prompts_round (h : Comes (opened mode .shown input types) before u) :
    u.round.1.prompts = u.asked.map (Lexer.Seen.prompt u.lexer.queue.length) := by
  have hbegun : u.watched.Prompts u.lexer.queue.length := by
    refine ⟨(h.tracks (Lexer.tracks_opened input .shown)).prompting, prompts_of_comes h rfl, fun _ => ?_, ?_⟩
    · simp [watched, Lexer.beginStatement]
    · exact Nat.le_add_left _ _
  have hread := (Grammar.kept_item (Lexer.Watched.Prompts.keeps _) u.lexer.pending hbegun).1.prompts
  rw [prompts_of_read, ← read_watched, asked, List.map_reverse]
  exact congrArg List.reverse hread

/-- The second item begins behind the first, and goes on over two further lines. -/
def spread : Input := [.line "a; (b", .line "+", .line "c);"]

theorem prompts_round_of_spread :
    ∃ u, Comes (opened .interactive .shown spread .initial) [(opened .interactive .shown spread .initial).round.1] u ∧
      u.lexer.queue.length = 2 ∧ u.asked = [⟨2, false⟩, ⟨3, false⟩] ∧ u.round.1.prompts = [.fresh, .continued] := by
  have hcomes : Comes (opened .interactive .shown spread .initial)
      [(opened .interactive .shown spread .initial).round.1] (opened .interactive .shown spread .initial).round.2 :=
    .more (by decide +kernel) (.none _)
  have hqueue : (opened .interactive .shown spread .initial).round.2.lexer.queue.length = 2 := by decide +kernel
  have hasked : (opened .interactive .shown spread .initial).round.2.asked = [⟨2, false⟩, ⟨3, false⟩] := by
    decide +kernel
  have hprompts := prompts_round hcomes
  rw [hqueue, hasked] at hprompts
  exact ⟨_, hcomes, hqueue, hasked, hprompts⟩

/-- Tokens of an item have been taken, and the next line, which is there to read, is asked for as if an item began. -/
theorem fresh_inside_item :
    ∃ before u, Comes (opened .interactive .shown spread .initial) before u ∧
      ∃ i seen, u.asked[i]? = some seen ∧ 0 < seen.taken ∧ u.round.1.prompts[i]? = some .fresh ∧
        u.lexer.log.size + i < u.round.1.log.size := by
  refine ⟨_, (opened .interactive .shown spread .initial).round.2, .more (by decide +kernel) (.none _), 0,
    ⟨2, false⟩, ?_⟩
  decide +kernel

end Session

end SoundLang
