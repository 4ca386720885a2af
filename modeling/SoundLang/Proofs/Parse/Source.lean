import SoundLang.Proofs.Parse.Sentence

/-! # Reading from a source

A procedure learns of its source only what the source answers.  So a run on a source tells the run on each image of it
(`Parse.run_maps`, `Grammar.readWithin_maps`).  A lawful source has the list of entries that it has to give as an image,
and whatever is read from the source, items included, is what is read from this list (`Grammar.readItems_rest`).  A
source whose entries are all pending is read like its list up to the end or the first error
(`Grammar.readAll_rest`). -/

namespace SoundLang

open TokenSource

variable {ρ : Type → Type} {σ τ α : Type} {f : σ → τ} {rest : σ → List Entry}

namespace Parse

/-- A result with the image of its source in place of the source. -/
def mapSource (f : σ → τ) : EStateM.Result Stop σ α → EStateM.Result Stop τ α
  | .ok a s => .ok a (f s)
  | .error e s => .error e (f s)

theorem mapSource_answer (r : Except LexError (Option Token) × σ) :
    mapSource f (answer r) = answer (r.1, f r.2) := by
  obtain ⟨t | t, s⟩ := r <;> rfl

variable [TokenSource σ] [TokenSource τ]

/-- A run on a source tells the run on its image. -/
theorem run_maps (hf : Maps f) {follow : {β : Type} → ρ β → EStateM Stop σ β}
    {follow' : {β : Type} → ρ β → EStateM Stop τ β}
    (h : ∀ {β : Type} (rule : ρ β) s, mapSource f (follow rule s) = follow' rule (f s)) (p : Parse ρ α) (s : σ) :
    mapSource f (p.run follow s) = p.run follow' (f s) := by
  induction p generalizing s with
  | done a => rfl
  | andThen p q ihp ihq =>
      simp only [run]
      rw [← ihp s]
      cases p.run follow s with
      | ok b s' => exact ihq b s'
      | error e s' => rfl
  | fail e => rfl
  | peek =>
      simp only [run]
      rw [mapSource_answer, hf.peek]
  | next =>
      simp only [run]
      rw [mapSource_answer, hf.next]
  | call rule => exact h rule s

theorem runRule_maps (hf : Maps f) (body : {β : Type} → ρ β → Parse ρ β) (d : Nat) :
    ∀ {β : Type} (rule : ρ β) (s : σ), mapSource f (runRule body d rule s) = runRule body d rule (f s) := by
  induction d with
  | zero => exact fun _ _ => rfl
  | succ d ih => exact fun rule s => run_maps hf ih (body rule) s

end Parse

namespace Grammar

open Parse

variable [TokenSource σ] [TokenSource τ]

/-- What is read from a source is what is read from its image. -/
theorem readWithin_maps (hf : Maps f) (bound : Nat) (p : Parse Rule (Option α)) (s : σ) :
    ((readWithin bound p s).1, f (readWithin bound p s).2) = readWithin bound p (f s) := by
  unfold readWithin
  rw [← run_maps hf (runRule_maps hf Rule.body (depth bound)) p s]
  cases p.run (runRule Rule.body (depth bound)) s with
  | ok a s' => rfl
  | error stop s' => cases stop <;> rfl

/-- A run that is given enough depth for the entries to come is not stopped by it. -/
theorem finished_run (hrest : Lawful rest) (p : Parse Rule α) {s : σ} {bound : Nat}
    (h : (rest s).length ≤ bound) : Finished (p.run (runRule Rule.body (depth bound)) s) := by
  have hlist : Finished (p.run (runRule Rule.body (depth bound)) (rest s)) :=
    finished_of_le p (by unfold depth; omega)
  rw [← run_maps hrest.maps (runRule_maps hrest.maps Rule.body (depth bound)) p s] at hlist
  intro s' hs'
  exact hlist (rest s') (by rw [hs']; rfl)

/-- A run that is given enough depth for the entries to come is the same with more. -/
theorem run_of_le (hrest : Lawful rest) (p : Parse Rule α) {s : σ} {bound d : Nat} (h : (rest s).length ≤ bound)
    (hd : depth bound ≤ d) : p.run (runRule Rule.body d) s = p.run (runRule Rule.body (depth bound)) s :=
  run_mono (fun rule s h => runRule_mono Rule.body hd rule s h) p s (finished_run hrest p h)

theorem readWithin_of_le (hrest : Lawful rest) (p : Parse Rule (Option α)) {s : σ} {bound bound' : Nat}
    (h : (rest s).length ≤ bound) (hle : bound ≤ bound') : readWithin bound' p s = readWithin bound p s := by
  have hdepth : depth bound ≤ depth bound' := by
    unfold depth
    omega
  unfold readWithin
  rw [run_of_le hrest p h hdepth]

/-- Reading an item starts with a look at the next token. -/
theorem run_item_congr {s s' : σ} (h : peek s = peek s') (d : Nat) :
    item.run (runRule Rule.body d) s = item.run (runRule Rule.body d) s' := by
  unfold item nextIf
  simp only [run_bind, run_peek, h]

/-- The items that are read from a source are those that are read from the entries it has to give. -/
theorem readItems_rest (hrest : Lawful rest) (bound : Nat) (s : σ) :
    ((readItems bound s).1, (readItems bound s).2.1, rest (readItems bound s).2.2) = readItems bound (rest s) := by
  induction bound generalizing s with
  | zero => rfl
  | succ bound ih =>
      rw [readItems, readItems, ← readWithin_maps hrest.maps (bound + 1) item s]
      obtain ⟨r, s'⟩ := readWithin (bound + 1) item s
      cases r with
      | error e => rfl
      | ok o =>
          cases o with
          | none => rfl
          | some i =>
              simp only
              rw [← ih s']

/-- A source is read to its end like the list of its entries. -/
theorem readAll_rest (hrest : Lawful rest) {s : σ} (hs : (rest s).length < pending s) :
    ((readAll s).1, (readAll s).2.1, rest (readAll s).2.2) = readAll (rest s) := by
  unfold readAll
  rw [readItems_rest hrest]
  exact readItems_eq_readItems hs (Nat.lt_succ_self _)

end Grammar

end SoundLang
