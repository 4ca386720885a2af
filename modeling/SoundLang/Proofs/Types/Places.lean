import SoundLang.Proofs.Source.Held
import SoundLang.Proofs.Types.Meaning

/-! # Where annotations are wrong

What is wrong with the annotations of an item is wrong at the span of one of them, or of a part of one
(`Item.span_of_meaning`).  So an error of lowering an item points to what a log holds, if the log holds the annotations
with all their parts (`Log.HoldsTypes.error`). -/

namespace SoundLang

mutual

/-- The spans of a type and of its parts. -/
def TypeExpr.places : TypeExpr Span → List Span
  | .named span _ => [span]
  | .applied span name args => span :: name.note :: TypeExpr.placesAll args
  | .tuple span elems => span :: TypeExpr.placesAll elems

/-- The spans of types and of their parts. -/
def TypeExpr.placesAll : List (TypeExpr Span) → List Span
  | [] => []
  | t :: ts => t.places ++ TypeExpr.placesAll ts

end

theorem TypeExpr.placesAll_append (ts us : List (TypeExpr Span)) :
    TypeExpr.placesAll (ts ++ us) = TypeExpr.placesAll ts ++ TypeExpr.placesAll us := by
  induction ts with
  | nil => rfl
  | cons t ts ih => rw [List.cons_append, placesAll, placesAll, ih, List.append_assoc]

/-- The annotations of an item, in the order of the source. -/
def Item.annotations : Item Span → List (TypeExpr Span)
  | .stmt s => s.annotations
  | .definition d => d.params.filterMap (·.type) ++ d.result.toList ++ Lowering.bodyAnnotations d.body

/-- The log holds the annotations with all their parts. -/
def Log.HoldsTypes (log : Log) (ts : List (TypeExpr Span)) : Prop := ∀ s ∈ TypeExpr.placesAll ts, log.Holds s

namespace Log.HoldsTypes

variable {log log' : Log} {ts us : List (TypeExpr Span)}

theorem nil : log.HoldsTypes [] := nofun

theorem mono (h : log.HoldsTypes ts) (hgrows : log.Grows log') : log'.HoldsTypes ts :=
  fun s hs => (h s hs).mono hgrows

theorem append (h : log.HoldsTypes ts) (h' : log.HoldsTypes us) : log.HoldsTypes (ts ++ us) := by
  rw [HoldsTypes, TypeExpr.placesAll_append]
  exact List.forall_mem_append.mpr ⟨h, h'⟩

theorem applied {span : Span} {n : Name Span} (h : log.Holds span) (hname : log.Holds n.note)
    (hargs : log.HoldsTypes ts) : log.HoldsTypes [.applied span n ts] := by
  simpa [HoldsTypes, TypeExpr.placesAll, TypeExpr.places] using ⟨h, hname, hargs⟩

theorem tuple {span : Span} (h : log.Holds span) (helems : log.HoldsTypes ts) : log.HoldsTypes [.tuple span ts] := by
  simpa [HoldsTypes, TypeExpr.placesAll, TypeExpr.places] using ⟨h, helems⟩

end Log.HoldsTypes

/-! ### Errors -/

theorem Except.bind_eq_error {ε α β : Type} {x : Except ε α} {f : α → Except ε β} {e : ε} (h : x >>= f = .error e) :
    x = .error e ∨ ∃ a, x = .ok a ∧ f a = .error e := by
  cases x with
  | error e' =>
      cases h
      exact .inl rfl
  | ok a => exact .inr ⟨a, rfl, h⟩

variable {e : TypeError}

mutual

theorem TypeExpr.span_of_meaning : (t : TypeExpr Span) → t.meaning = .error e → e.span ∈ t.places
  | .named span name => by
      unfold meaning
      intro h
      split at h
      · cases h
      · split at h <;> cases h <;> exact List.mem_singleton_self span
  | .applied span name args => by
      unfold meaning
      intro h
      split at h
      · split at h <;> cases h
        exact List.mem_cons_self
      · split at h
        · match args with
          | [inner] =>
              obtain h | ⟨ty, -, h⟩ := Except.bind_eq_error h
              · have hinner := TypeExpr.span_of_meaning inner h
                simp [places, placesAll, hinner]
              · cases h
          | [] | _ :: _ :: _ =>
              cases h
              exact List.mem_cons_self
        · cases h
          exact List.mem_cons_of_mem _ List.mem_cons_self
  | .tuple span elems => by
      intro h
      rw [meaning] at h
      obtain h | ⟨tys, -, h⟩ := Except.bind_eq_error h
      · exact List.mem_cons_of_mem _ (TypeExpr.span_of_meanings elems h)
      · cases h

theorem TypeExpr.span_of_meanings : (ts : List (TypeExpr Span)) → TypeExpr.meanings ts = .error e →
    e.span ∈ TypeExpr.placesAll ts
  | [] => nofun
  | t :: ts => by
      intro h
      rw [meanings] at h
      obtain h | ⟨ty, -, h⟩ := Except.bind_eq_error h
      · exact List.mem_append_left _ (TypeExpr.span_of_meaning t h)
      · obtain h | ⟨tys, -, h⟩ := Except.bind_eq_error h
        · exact List.mem_append_right _ (TypeExpr.span_of_meanings ts h)
        · cases h

end

theorem TypeExpr.span_of_located {ts : List (TypeExpr Span)} (h : TypeExpr.located ts = .error e) :
    e.span ∈ TypeExpr.placesAll ts := by
  obtain h | ⟨tys, -, h⟩ := Except.bind_eq_error h
  · exact TypeExpr.span_of_meanings ts h
  · cases h

/-- What is wrong with an item is wrong at one of its annotations. -/
theorem Item.span_of_meaning {i : Item Span} (h : i.meaning = .error e) :
    e.span ∈ TypeExpr.placesAll i.annotations := by
  cases i with
  | stmt s =>
      obtain h | ⟨found, -, h⟩ := Except.bind_eq_error h
      · exact TypeExpr.span_of_located h
      · cases h
  | definition d =>
      simp only [annotations, TypeExpr.placesAll_append, List.mem_append]
      obtain h | ⟨params, -, h⟩ := Except.bind_eq_error h
      · exact .inl (.inl (TypeExpr.span_of_located h))
      · obtain h | ⟨result, -, h⟩ := Except.bind_eq_error h
        · exact .inl (.inr (TypeExpr.span_of_located h))
        · obtain h | ⟨body, -, h⟩ := Except.bind_eq_error h
          · exact .inr (TypeExpr.span_of_located h)
          · cases h

/-- An error of lowering an item stands in a log that holds the annotations of the item. -/
theorem Log.HoldsTypes.error {log : Log} {i : Item Span} (h : log.HoldsTypes i.annotations) {t t' : Interner}
    (ht : t.Lawful) (he : Lowering.lowerItem i t = (.error (.error e), t')) : log.Holds e.span := by
  have hends := (Lowering.ends_item ht i).2.2
  have hrun : ((Lowering.item i).run.run t).1 = .error (.error e) := congrArg Prod.fst he
  rw [hrun] at hends
  exact h _ (Item.span_of_meaning hends)

end SoundLang
