import SoundLang.Proofs.Session.Progress
import SoundLang.Proofs.Types.Meaning

/-! # Sessions that share an interner

A session may start from an interner that others have filled.  What it leaves behind agrees with itself
(`Session.Result.Consistent`): its ids are known at the end, and name what the annotations of the accepted items mean.
Apart from ids nothing depends on what was stored before (`Session.Result.Alike`), as long as there are ids to give.

Both follow from one round: a verdict without its ids is told by what is read and by what the annotations mean
(`Session.withoutIds_round`), and what is known then stays known (`Session.types_round`). -/

namespace SoundLang

/-- All ids of the types of an item. -/
def ItemTypes.ids (types : ItemTypes) : List TypeId := types.annotations.map (·.2) ++ types.signature.toList

theorem Interner.exists_of_inFull? {t : Interner} {types : ItemTypes} {m : ItemMeaning} (h : t.inFull? types = some m) :
    ∀ id ∈ types.ids, ∃ d, t.get? id = some d := by
  simp only [inFull?, Option.bind_eq_bind, Option.bind_eq_some_iff] at h
  obtain ⟨bs, hbs, signature, hsignature, -⟩ := h
  refine List.forall_mem_append.mpr ⟨List.forall_mem_map.mpr ?_, ?_⟩
  · generalize types.annotations = as at hbs
    rw [mapM_eq_some_iff] at hbs
    induction hbs with
    | nil => exact fun _ ha => absurd ha List.not_mem_nil
    | cons h _ ih => exact List.forall_mem_cons.mpr ⟨exists_of_expand? (locate?_eq_some_iff.mp h).2, ih⟩
  · intro id hid
    obtain hid := Option.mem_toList.mp hid
    rw [hid, Option.mapM_some, Option.map_eq_map, Option.map_eq_some_iff] at hsignature
    obtain ⟨ty, hty, -⟩ := hsignature
    exact exists_of_expand? hty

namespace Session

open Lowering

/-! ### What is left behind -/

/-- The parts of a result agree with each other. -/
structure Result.Consistent (r : Result) : Prop where
  /-- Every accepted item has its types. -/
  length : (r.accepted.map (·.1)).length = (r.accepted.map (·.2)).length
  /-- The errors counted are those reported. -/
  errors : r.errors = (reported r.events).length
  known : ∀ a ∈ r.accepted, ∀ id ∈ a.2.ids, ∃ d, r.final.types.get? id = some d
  /-- The types of an item are what its annotations mean, with their spans. -/
  meant : ∀ a ∈ r.accepted, ∃ m, a.1.meaning = .ok m ∧ r.final.types.inFull? a.2 = some m

/-- Two results are the same but for their ids. -/
structure Result.Alike (r r' : Result) : Prop where
  items : r'.accepted.map (·.1) = r.accepted.map (·.1)
  errors : r'.errors = r.errors
  /-- Errors and prompts, in order, and the tally. -/
  events : r'.events = r.events
  /-- The types in full. -/
  types : r'.accepted.map (fun a => r'.final.types.inFull? a.2) = r.accepted.map fun a => r.final.types.inFull? a.2

/-! ### One round -/

/-- The verdict says that all ids of a shape are given away. -/
def Verdict.isFull : Verdict → Bool
  | full _ => true
  | _ => false

/-- A verdict without the ids in it. -/
def Verdict.withoutIds : Verdict → Verdict
  | accepted i _ => accepted i ⟨[], none⟩
  | v => v

/-- What a round finds, without ids. -/
def Round.withoutIds (r : Round) : Round := { r with verdict := r.verdict.withoutIds }

/-- The session with another interner. -/
def withTypes (s : Session) (t : Interner) : Session := { s with types := t }

theorem Verdict.goesOn_withoutIds (v : Verdict) (mode : Mode) : v.withoutIds.goesOn mode = v.goesOn mode := by
  cases v <;> rfl

theorem Verdict.diagnostic?_withoutIds (v : Verdict) : v.withoutIds.diagnostic? = v.diagnostic? := by
  cases v <;> rfl

/-- What a round does to the interner: what is known stays known, and an accepted item has the types that its
annotations mean. -/
theorem types_round {s : Session} (ht : s.types.Lawful) :
    s.round.2.types.Lawful ∧ s.types.Extends s.round.2.types ∧
      (∀ a, s.round.1.verdict.accepted? = some a →
        ∃ m, a.1.meaning = .ok m ∧ s.round.2.types.inFull? a.2 = some m) ∧
      (s.round.1.verdict.isFull = true → ∃ shape, TypeId.capacity ≤ (s.round.2.types.ofShape shape).size) := by
  change s.judge.2.types.Lawful ∧ s.types.Extends s.judge.2.types ∧
    (∀ a, s.judge.1.accepted? = some a → ∃ m, a.1.meaning = .ok m ∧ s.judge.2.types.inFull? a.2 = some m) ∧
    (s.judge.1.isFull = true → ∃ shape, TypeId.capacity ≤ (s.judge.2.types.ofShape shape).size)
  unfold judge
  obtain ⟨e | (_ | i), lx⟩ := s.read
  · exact ⟨ht, Interner.Extends.refl _, nofun, nofun⟩
  · exact ⟨ht, Interner.Extends.refl _, nofun, nofun⟩
  · obtain ⟨hu, hext, hends⟩ := ends_item ht i
    rw [← lowerItem] at hu hext hends
    refine ⟨hu, hext, ?_⟩
    simp only
    generalize lowerItem i s.types = r at hends ⊢
    obtain ⟨(e | e) | types, u⟩ := r
    · exact ⟨nofun, nofun⟩
    · obtain ⟨shape, -, hfull⟩ := hends
      exact ⟨nofun, fun _ => ⟨shape, hfull⟩⟩
    · obtain ⟨m, hm, hfull⟩ := hends
      refine ⟨?_, nofun⟩
      rintro _ ⟨⟩
      exact ⟨m, hm, hfull⟩

/-- The verdict of the next round without ids, as reading and the meaning of annotations tell it. -/
def foreseen (s : Session) : Verdict :=
  match s.read.1 with
  | .error e => .malformed e
  | .ok none => .ended
  | .ok (some i) =>
    match i.meaning with
    | .ok _ => .accepted i ⟨[], none⟩
    | .error e => .mistyped e

theorem withoutIds_judge {s : Session} (ht : s.types.Lawful) (hroom : s.judge.1.isFull = false) :
    s.judge.1.withoutIds = s.foreseen := by
  revert hroom
  unfold judge foreseen
  obtain ⟨e | (_ | i), lx⟩ := s.read
  · exact fun _ => rfl
  · exact fun _ => rfl
  · obtain ⟨-, -, hends⟩ := ends_item ht i
    rw [← lowerItem] at hends
    simp only
    generalize lowerItem i s.types = r at hends ⊢
    obtain ⟨(e | e) | types, u⟩ := r
    · have hmeaning : i.meaning = .error e := hends
      rw [hmeaning]
      exact fun _ => rfl
    · exact nofun
    · obtain ⟨m, hmeaning, -⟩ := hends
      rw [hmeaning]
      exact fun _ => rfl

theorem lexer_judge (s : Session) :
    s.judge.2.lexer = if s.read.1.isOk then s.read.2 else recover s.mode s.read.2 := by
  unfold judge
  obtain ⟨e | (_ | i), lx⟩ := s.read <;> rfl

/-- Apart from ids a round does not depend on the interner, if it is not refused one. -/
theorem withoutIds_round {s : Session} {t : Interner} (hs : s.types.Lawful) (ht : t.Lawful)
    (hroom : s.round.1.verdict.isFull = false) (hroom' : (s.withTypes t).round.1.verdict.isFull = false) :
    (s.withTypes t).round.1.withoutIds = s.round.1.withoutIds := by
  have hverdict : (s.withTypes t).judge.1.withoutIds = s.judge.1.withoutIds :=
    (withoutIds_judge ht hroom').trans (withoutIds_judge hs hroom).symm
  have hlexer : (s.withTypes t).judge.2.lexer = s.judge.2.lexer := by
    rw [lexer_judge, lexer_judge]
    rfl
  simp only [round, Round.withoutIds, hverdict, hlexer]

theorem round_withTypes (s : Session) (t : Interner) :
    (s.withTypes t).round.2 = s.round.2.withTypes (s.withTypes t).round.2.types := by
  have hmode : (s.withTypes t).round.2.mode = s.round.2.mode := by
    rw [mode_round, mode_round]
    rfl
  have hlexer : (s.withTypes t).round.2.lexer = s.round.2.lexer := by
    rw [lexer_round, lexer_round, parseError?_round, parseError?_round]
    rfl
  generalize (s.withTypes t).round.2 = u at hmode hlexer ⊢
  obtain ⟨mode, lexer, types⟩ := u
  obtain rfl : mode = s.round.2.mode := hmode
  obtain rfl : lexer = s.round.2.lexer := hlexer
  rfl

/-! ### A run -/

/-- What rounds do to the interner. -/
theorem types_of_runs {s final : Session} {rounds : List Round} (h : Runs s rounds final) (ht : s.types.Lawful) :
    final.types.Lawful ∧ s.types.Extends final.types ∧
      (∀ a ∈ rounds.filterMap (·.verdict.accepted?),
        ∃ m, a.1.meaning = .ok m ∧ final.types.inFull? a.2 = some m) ∧
      ((∃ r ∈ rounds, r.verdict.isFull = true) → ∃ shape, TypeId.capacity ≤ (final.types.ofShape shape).size) := by
  induction h with
  | @last s _ =>
      obtain ⟨hu, hext, hmeant, hfull⟩ := types_round ht
      refine ⟨hu, hext, fun a ha => ?_, fun ⟨r, hr, hisFull⟩ => ?_⟩
      · obtain ⟨r, hr, ha⟩ := List.mem_filterMap.mp ha
        obtain rfl := List.mem_singleton.mp hr
        exact hmeant a ha
      · obtain rfl := List.mem_singleton.mp hr
        exact hfull hisFull
  | @more s final rounds hgoes _ ih =>
      obtain ⟨hu, hext, hmeant, -⟩ := types_round ht
      obtain ⟨hv, hext', hrest, hfull⟩ := ih hu
      refine ⟨hv, hext.trans hext', fun a ha => ?_, fun ⟨r, hr, hisFull⟩ => ?_⟩
      · obtain ⟨r, hr, ha⟩ := List.mem_filterMap.mp ha
        obtain rfl | hr := List.mem_cons.mp hr
        · obtain ⟨m, hm, hfull⟩ := hmeant a ha
          exact ⟨m, hm, hu.inFull?_mono hv hext' hfull⟩
        · exact hrest a (List.mem_filterMap.mpr ⟨r, hr, ha⟩)
      · obtain rfl | hr := List.mem_cons.mp hr
        · -- a session that is refused an id does not go on
          cases hverdict : s.round.1.verdict <;> simp_all [Verdict.isFull, Verdict.goesOn]
        · exact hfull ⟨r, hr, hisFull⟩

/-- Apart from ids a run does not depend on the interner, if it is not refused one. -/
theorem withoutIds_of_runs {s final : Session} {rounds : List Round} (h : Runs s rounds final) :
    ∀ {t : Interner} {final' : Session} {rounds' : List Round}, Runs (s.withTypes t) rounds' final' →
      s.types.Lawful → t.Lawful → (∀ r ∈ rounds, r.verdict.isFull = false) →
      (∀ r ∈ rounds', r.verdict.isFull = false) → rounds'.map Round.withoutIds = rounds.map Round.withoutIds := by
  have hgoesOn : ∀ {s : Session} {t : Interner}, (s.withTypes t).round.1.withoutIds = s.round.1.withoutIds →
      (s.withTypes t).round.1.verdict.goesOn s.mode = s.round.1.verdict.goesOn s.mode := by
    intro s t h
    rw [← Verdict.goesOn_withoutIds, ← Verdict.goesOn_withoutIds s.round.1.verdict]
    exact congrArg (fun r => r.verdict.goesOn s.mode) h
  induction h with
  | @last s hends =>
      intro t final' rounds' h' hs ht hroom hroom'
      have hfirst : s.round.1.verdict.isFull = false := hroom _ List.mem_cons_self
      cases h' with
      | last _ =>
          have hround := withoutIds_round hs ht hfirst (hroom' _ List.mem_cons_self)
          simp only [List.map_cons, List.map_nil, hround]
      | more hgoes _ =>
          have hround := withoutIds_round hs ht hfirst (hroom' _ List.mem_cons_self)
          have hends' := (hgoesOn hround).symm.trans hgoes
          rw [hends] at hends'
          cases hends'
  | @more s final rounds hgoes _ ih =>
      intro t final' rounds' h' hs ht hroom hroom'
      have hfirst : s.round.1.verdict.isFull = false := hroom _ List.mem_cons_self
      cases h' with
      | last hends =>
          have hround := withoutIds_round hs ht hfirst (hroom' _ List.mem_cons_self)
          have hgoes' := (hgoesOn hround).symm.trans hends
          rw [hgoes] at hgoes'
          cases hgoes'
      | more _ hrest =>
          have hround := withoutIds_round hs ht hfirst (hroom' _ List.mem_cons_self)
          rw [round_withTypes] at hrest
          have hlater := ih hrest (types_round hs).1 (types_round (s := s.withTypes t) ht).1
            (fun r hr => hroom r (List.mem_cons_of_mem _ hr)) fun r hr => hroom' r (List.mem_cons_of_mem _ hr)
          simp only [List.map_cons, hround, hlater]

/-- The run ends because all ids of a shape are given away. -/
def Refused (s : Session) : Prop := ∃ rounds final, Runs s rounds final ∧ ∃ r ∈ rounds, r.verdict.isFull = true

/-- A session is refused an id only where all ids of a shape are given away. -/
theorem full_of_refused {s : Session} (ht : s.types.Lawful) (h : s.Refused) :
    ∃ shape, TypeId.capacity ≤ (s.run.final.types.ofShape shape).size := by
  obtain ⟨rounds, final, hruns, hfull⟩ := h
  rw [run_of_runs hruns]
  exact (types_of_runs hruns ht).2.2.2 hfull

theorem Round.events_withoutIds (r : Round) : r.withoutIds.events = r.events := by
  simp only [events, withoutIds, Verdict.diagnostic?_withoutIds]

/-- The types of the accepted items in full are those that their annotations mean. -/
theorem Result.Consistent.inFull? {r : Result} (h : r.Consistent) :
    (r.accepted.map fun a => r.final.types.inFull? a.2) = (r.accepted.map (·.1)).map fun i => i.meaning.toOption := by
  rw [List.map_map]
  refine List.map_congr_left fun a ha => ?_
  obtain ⟨m, hmeaning, hfull⟩ := h.meant a ha
  simp only [Function.comp_apply, hmeaning, hfull, Except.toOption]

theorem Result.consistent {s : Session} (ht : s.types.Lawful) : s.run.Consistent := by
  obtain ⟨rounds, final, hruns⟩ := exists_runs s
  have hmeant := (types_of_runs hruns ht).2.2.1
  obtain ⟨-, herrors, hreported, -⟩ := run_eq_turns s
  refine ⟨by rw [List.length_map, List.length_map], herrors.trans (congrArg List.length hreported).symm, ?_, ?_⟩
  · rw [run_of_runs hruns]
    intro a ha
    obtain ⟨m, -, hm⟩ := hmeant a ha
    exact Interner.exists_of_inFull? hm
  · rw [run_of_runs hruns]
    exact hmeant

theorem Result.alike {s : Session} {t : Interner} (hs : s.types.Lawful) (ht : t.Lawful) (hroom : ¬ s.Refused)
    (hroom' : ¬ (s.withTypes t).Refused) : s.run.Alike (s.withTypes t).run := by
  obtain ⟨rounds, final, hruns⟩ := exists_runs s
  obtain ⟨rounds', final', hruns'⟩ := exists_runs (s.withTypes t)
  have hnone : ∀ r ∈ rounds, r.verdict.isFull = false := fun r hr =>
    Bool.eq_false_iff.mpr fun hfull => hroom ⟨rounds, final, hruns, r, hr, hfull⟩
  have hnone' : ∀ r ∈ rounds', r.verdict.isFull = false := fun r hr =>
    Bool.eq_false_iff.mpr fun hfull => hroom' ⟨rounds', final', hruns', r, hr, hfull⟩
  have hrounds := withoutIds_of_runs hruns hruns' hs ht hnone hnone'
  have hfound : ∀ {α : Type} (f : Round → Option α), (∀ r, f r.withoutIds = f r) →
      rounds'.filterMap f = rounds.filterMap f := by
    intro α f hf
    have := congrArg (List.filterMap f) hrounds
    simpa only [List.filterMap_map, Function.comp_def, hf] using this
  have hitems : (s.withTypes t).run.accepted.map (·.1) = s.run.accepted.map (·.1) := by
    rw [run_of_runs hruns, run_of_runs hruns']
    simp only [ofRounds, List.map_filterMap]
    refine hfound _ fun r => ?_
    unfold Round.withoutIds
    cases r.verdict <;> rfl
  have hdiagnostics : rounds'.filterMap (·.verdict.diagnostic?) = rounds.filterMap (·.verdict.diagnostic?) :=
    hfound _ fun r => r.verdict.diagnostic?_withoutIds
  have hevents : rounds'.flatMap Round.events = rounds.flatMap Round.events := by
    have := congrArg (List.flatMap Round.events) hrounds
    simpa only [List.flatMap_map, Round.events_withoutIds] using this
  refine ⟨hitems, ?_, ?_, ?_⟩
  · rw [run_of_runs hruns, run_of_runs hruns']
    simp only [ofRounds, hdiagnostics]
  · rw [run_of_runs hruns, run_of_runs hruns']
    simp only [ofRounds, hdiagnostics, hevents, withTypes]
  · rw [(Result.consistent hs).inFull?, (Result.consistent (s := s.withTypes t) ht).inFull?, hitems]

/-- Whatever a session reads and whatever its interner holds at the start, what it leaves behind agrees with itself.
From another interner it leaves the same behind but for the ids, unless one of both runs ends for want of ids; that
happens only where as many types of a shape are stored as ids can tell apart. -/
theorem run_consistent {s : Session} (hs : s.types.Reachable) :
    s.run.Consistent ∧
      (s.Refused → ∃ shape, TypeId.capacity ≤ (s.run.final.types.ofShape shape).size) ∧
      ∀ t : Interner, t.Reachable → ¬ s.Refused → ¬ (s.withTypes t).Refused → s.run.Alike (s.withTypes t).run :=
  ⟨Result.consistent hs.lawful, full_of_refused hs.lawful,
    fun _ ht hroom hroom' => Result.alike hs.lawful ht.lawful hroom hroom'⟩

/-- A session with a wrong annotation. -/
def twoTypes : Session := start .interactive .off "let a: sound[float] = 0; let b: x = 1;" .initial

/-- An interner in which others have stored a tuple and a sound. -/
def filled : Interner := Interner.initial.after
  [.intern (.tuple [Primitive.integer.id]), .intern (.sound (.ofParts .tuple 1))]

theorem run_consistent_twoTypes :
    (twoTypes.types.Reachable ∧ filled.Reachable ∧ ¬ twoTypes.Refused ∧ ¬ (twoTypes.withTypes filled).Refused) ∧
      twoTypes.run.Consistent ∧ twoTypes.run.Alike (twoTypes.withTypes filled).run ∧ twoTypes.run.errors = 1 ∧
      twoTypes.run.accepted.map (·.2.ids) = [[.ofParts .sound 0]] ∧
      (twoTypes.withTypes filled).run.accepted.map (·.2.ids) = [[.ofParts .sound 1]] := by
  have hs : twoTypes.types.Reachable := ⟨[], rfl⟩
  have ht : filled.Reachable := ⟨_, rfl⟩
  -- evaluated together, so that each session is run once
  have hruns : (∀ shape ∈ [Shape.primitive, .tuple, .function, .sound],
        (twoTypes.run.final.types.ofShape shape).size < TypeId.capacity ∧
          ((twoTypes.withTypes filled).run.final.types.ofShape shape).size < TypeId.capacity) ∧
      twoTypes.run.errors = 1 ∧ twoTypes.run.accepted.map (·.2.ids) = [[.ofParts .sound 0]] ∧
      (twoTypes.withTypes filled).run.accepted.map (·.2.ids) = [[.ofParts .sound 1]] := by
    decide +kernel
  have hroom := fun shape => hruns.1 shape (by cases shape <;> simp)
  have hs' : ¬ twoTypes.Refused := fun h => by
    obtain ⟨shape, hfull⟩ := (run_consistent hs).2.1 h
    exact Nat.not_lt.mpr hfull (hroom shape).1
  have ht' : ¬ (twoTypes.withTypes filled).Refused := fun h => by
    obtain ⟨shape, hfull⟩ := (run_consistent (s := twoTypes.withTypes filled) ht).2.1 h
    exact Nat.not_lt.mpr hfull (hroom shape).2
  obtain ⟨hconsistent, -, halike⟩ := run_consistent hs
  exact ⟨⟨hs, ht, hs', ht'⟩, hconsistent, halike filled ht hs' ht', hruns.2⟩

end Session

end SoundLang
