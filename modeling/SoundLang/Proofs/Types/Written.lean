import SoundLang.Proofs.Lexer.Spelling
import SoundLang.Proofs.Parse.Sentence
import SoundLang.Proofs.Types.Run

/-! # Types as a source writes them

The text of a type without functions is scanned as the tokens it is written with (`Ty.Written.spells`).  Unless a tuple
of one element is in it they are an annotation (`Ty.Written.isType`), and that annotation is lowered to the id of the
type (`Ty.Denotes.run_type`). -/

namespace SoundLang

namespace Ty

mutual

/-- No function is in the type. -/
def functionFree : Ty → Bool
  | primitive _ => true
  | tuple ts => functionFreeAll ts
  | function .. => false
  | sound t => t.functionFree

/-- No function is in the types. -/
def functionFreeAll : List Ty → Bool
  | [] => true
  | t :: ts => t.functionFree && functionFreeAll ts

end

mutual

/-- A tuple of one element is in the type. -/
def hasSingle : Ty → Bool
  | primitive _ => false
  | tuple ts => ts.length == 1 || hasSingleAny ts
  | function params result => hasSingleAny params || result.hasSingle
  | sound t => t.hasSingle

/-- A tuple of one element is in one of the types. -/
def hasSingleAny : List Ty → Bool
  | [] => false
  | t :: ts => t.hasSingle || hasSingleAny ts

end

mutual

/-- The kinds of the tokens that a type without functions is written with. -/
inductive Written : Ty → List Token.Kind → Prop
  | primitive (p : Primitive) : Written (.primitive p) [.word p.name]
  | sound {t : Ty} {ks : List Token.Kind} (h : Written t ks) :
      Written (.sound t) (.word Lowering.soundWord :: .symbol .lbracket :: (ks ++ [.symbol .rbracket]))
  | unit : Written (.tuple []) [.symbol .lparen, .symbol .rparen]
  | single {t : Ty} {ks : List Token.Kind} (h : Written t ks) :
      Written (.tuple [t]) (.symbol .lparen :: (ks ++ [.symbol .comma, .symbol .rparen]))
  | tuple {t u : Ty} {ts : List Ty} {ks : List Token.Kind} (h : WrittenSeq (t :: u :: ts) ks) :
      Written (.tuple (t :: u :: ts)) (.symbol .lparen :: (ks ++ [.symbol .rparen]))

/-- The kinds of the tokens that types are written with, with commas between them. -/
inductive WrittenSeq : List Ty → List Token.Kind → Prop
  | one {t : Ty} {ks : List Token.Kind} (h : Written t ks) : WrittenSeq [t] ks
  | more {t u : Ty} {ts : List Ty} {ks ls : List Token.Kind} (h : Written t ks) (hs : WrittenSeq (u :: ts) ls) :
      WrittenSeq (t :: u :: ts) (ks ++ .symbol .comma :: ls)

end

mutual

theorem written_of_functionFree : (t : Ty) → t.functionFree = true → ∃ ks, Written t ks
  | .primitive p, _ => ⟨_, .primitive p⟩
  | .sound t, h => by
      obtain ⟨ks, hks⟩ := written_of_functionFree t h
      exact ⟨_, .sound hks⟩
  | .tuple ts, h => by
      obtain rfl | ⟨ks, hks⟩ := writtenSeq_of_functionFree ts h
      · exact ⟨_, .unit⟩
      · cases hks with
        -- one element alone is written with a comma behind it
        | one hw => exact ⟨_, .single hw⟩
        | more hw hs => exact ⟨_, .tuple (.more hw hs)⟩
  | .function .., h => nomatch h

theorem writtenSeq_of_functionFree : (ts : List Ty) → functionFreeAll ts = true → ts = [] ∨ ∃ ks, WrittenSeq ts ks
  | [], _ => .inl rfl
  | t :: ts, h => by
      rw [functionFreeAll, Bool.and_eq_true] at h
      obtain ⟨ks, hks⟩ := written_of_functionFree t h.1
      obtain rfl | ⟨ls, hls⟩ := writtenSeq_of_functionFree ts h.2
      · exact .inr ⟨ks, .one hks⟩
      · cases hls with
        | one hw => exact .inr ⟨_, .more hks (.one hw)⟩
        | more hw hs => exact .inr ⟨_, .more hks (.more hw hs)⟩

end

/-! ### The text is scanned as these tokens -/

section
open Lexer

mutual

theorem Written.spells {t : Ty} {ks ls : List Token.Kind} {tail : List Char} (h : Written t ks)
    (htail : ∀ d ∈ tail.head?, Lexeme.isWordPart d = false) (hs : SpellsAll tail ls) :
    SpellsAll (t.render.toList ++ tail) (ks ++ ls) := by
  cases h with
  | primitive p =>
      have hword : Lexeme.isWord p.name.toList = true := by cases p <;> decide
      rw [render]
      exact hs.word hword htail
  | @sound t ks h =>
      have hclosed : SpellsAll (']' :: tail) (.symbol .rbracket :: ls) := hs.separator (by decide) rfl
      have hinner := h.spells (fun d hd => by cases hd; rfl) hclosed
      have hopened : SpellsAll ('[' :: _) (.symbol .lbracket :: _) := hinner.separator (by decide) rfl
      have hword : Lexeme.isWord Lowering.soundWord.toList = true := by decide
      have htext := hopened.word hword fun d hd => by cases hd; rfl
      simpa [render, Lowering.soundWord] using htext
  | unit =>
      have hclosed : SpellsAll (')' :: tail) (.symbol .rparen :: ls) := hs.separator (by decide) rfl
      have hopened : SpellsAll ('(' :: _) (.symbol .lparen :: _) := hclosed.separator (by decide) rfl
      simpa [render, renderList] using hopened
  | @single t ks h =>
      have hclosed : SpellsAll (')' :: tail) (.symbol .rparen :: ls) := hs.separator (by decide) rfl
      have hcomma : SpellsAll (',' :: _) (.symbol .comma :: _) := hclosed.separator (by decide) rfl
      have hinner := h.spells (fun d hd => by cases hd; rfl) hcomma
      have hopened : SpellsAll ('(' :: _) (.symbol .lparen :: _) := hinner.separator (by decide) rfl
      simpa [render] using hopened
  | @tuple t u ts ks h =>
      have hclosed : SpellsAll (')' :: tail) (.symbol .rparen :: ls) := hs.separator (by decide) rfl
      have hinner := h.spells (fun d hd => by cases hd; rfl) hclosed
      have hopened : SpellsAll ('(' :: _) (.symbol .lparen :: _) := hinner.separator (by decide) rfl
      simpa [render] using hopened

theorem WrittenSeq.spells {ts : List Ty} {ks ls : List Token.Kind} {tail : List Char} (h : WrittenSeq ts ks)
    (htail : ∀ d ∈ tail.head?, Lexeme.isWordPart d = false) (hs : SpellsAll tail ls) :
    SpellsAll ((renderList ts).toList ++ tail) (ks ++ ls) := by
  cases h with
  | one h =>
      rw [renderList]
      exact h.spells htail hs
  | @more t u ts ks ls' h hseq =>
      have hrest := hseq.spells htail hs
      have hcomma : SpellsAll (',' :: ' ' :: _) (.symbol .comma :: _) := hrest.blank.separator (by decide) rfl
      have hfirst := h.spells (fun d hd => by cases hd; rfl) hcomma
      simpa [renderList] using hfirst

end

end

/-! ### The tokens are an annotation -/

open Phrase

mutual

/-- The annotation is one of the type. -/
inductive Denotes : TypeExpr Span → Ty → Prop
  | primitive {span : Span} (p : Primitive) : Denotes (.named span p.name) (.primitive p)
  | sound {span word : Span} {inner : TypeExpr Span} {t : Ty} (h : Denotes inner t) :
      Denotes (.applied span ⟨Lowering.soundWord, word⟩ [inner]) (.sound t)
  | tuple {span : Span} {elems : List (TypeExpr Span)} {ts : List Ty} (h : DenotesAll elems ts) :
      Denotes (.tuple span elems) (.tuple ts)

/-- The annotations are those of the types. -/
inductive DenotesAll : List (TypeExpr Span) → List Ty → Prop
  | nil : DenotesAll [] []
  | cons {type : TypeExpr Span} {types : List (TypeExpr Span)} {t : Ty} {ts : List Ty} (h : Denotes type t)
      (hs : DenotesAll types ts) : DenotesAll (type :: types) (t :: ts)

end

mutual

/-- Without a tuple of one element, a type is written as an annotation of it. -/
theorem Written.isType {t : Ty} {ts : List Token} (h : Written t (ts.map (·.kind))) (hsingle : t.hasSingle = false) :
    ∃ type, IsType spanOf ts type ∧ Denotes type t := by
  generalize hks : ts.map (·.kind) = ks at h
  cases h with
  | primitive p =>
      obtain ⟨n, ts, rfl, hn, hts⟩ := List.map_eq_cons_iff.mp hks
      obtain rfl := List.map_eq_nil_iff.mp hts
      have hname : n.kind.name? = some p.name := by rw [hn]; cases p <;> rfl
      exact ⟨_, .named hname, .primitive p⟩
  | sound h =>
      obtain ⟨n, ts, rfl, hn, hts⟩ := List.map_eq_cons_iff.mp hks
      obtain ⟨o, ts, rfl, ho, hts⟩ := List.map_eq_cons_iff.mp hts
      obtain ⟨us, vs, rfl, rfl, hvs⟩ := List.map_eq_append_iff.mp hts
      obtain ⟨c, vs, rfl, hc, hvs⟩ := List.map_eq_cons_iff.mp hvs
      obtain rfl := List.map_eq_nil_iff.mp hvs
      obtain ⟨inner, hinner, hd⟩ := h.isType (by simpa [hasSingle] using hsingle)
      have hname : n.kind.name? = some Lowering.soundWord := by rw [hn]; rfl
      exact ⟨_, .applied hname ho (.some (.one hinner)) hc, .sound hd⟩
  | unit =>
      obtain ⟨o, ts, rfl, ho, hts⟩ := List.map_eq_cons_iff.mp hks
      obtain ⟨c, ts, rfl, hc, hts⟩ := List.map_eq_cons_iff.mp hts
      obtain rfl := List.map_eq_nil_iff.mp hts
      have htype : IsType spanOf (o :: ([] ++ [c])) _ := .tuple ho .none hc
      exact ⟨_, htype, .tuple .nil⟩
  | single h => simp [hasSingle] at hsingle
  | tuple h =>
      obtain ⟨o, ts, rfl, ho, hts⟩ := List.map_eq_cons_iff.mp hks
      obtain ⟨us, vs, rfl, rfl, hvs⟩ := List.map_eq_append_iff.mp hts
      obtain ⟨c, vs, rfl, hc, hvs⟩ := List.map_eq_cons_iff.mp hvs
      obtain rfl := List.map_eq_nil_iff.mp hvs
      obtain ⟨elems, helems, hd⟩ := h.typeSeq (by simpa [hasSingle] using hsingle)
      exact ⟨_, .tuple ho (.some helems) hc, .tuple hd⟩

theorem WrittenSeq.typeSeq {tys : List Ty} {ts : List Token} (h : WrittenSeq tys (ts.map (·.kind)))
    (hsingle : hasSingleAny tys = false) : ∃ types, TypeSeq spanOf ts types ∧ DenotesAll types tys := by
  generalize hks : ts.map (·.kind) = ks at h
  cases h with
  | one h =>
      subst hks
      obtain ⟨type, htype, hd⟩ := h.isType (by simpa [hasSingleAny] using hsingle)
      exact ⟨[type], .one htype, .cons hd .nil⟩
  | more h hs =>
      rw [hasSingleAny, Bool.or_eq_false_iff] at hsingle
      obtain ⟨us, vs, rfl, rfl, hvs⟩ := List.map_eq_append_iff.mp hks
      obtain ⟨c, vs, rfl, hc, rfl⟩ := List.map_eq_cons_iff.mp hvs
      obtain ⟨type, htype, hd⟩ := h.isType hsingle.1
      obtain ⟨types, htypes, hds⟩ := hs.typeSeq hsingle.2
      exact ⟨type :: types, .more htype hc htypes, .cons hd hds⟩

end

/-! ### The annotation is lowered to the id -/

section
variable {t : Interner}

mutual

/-- An annotation of a type that is stored is lowered to its id, and nothing is stored. -/
theorem Denotes.run_type {type : TypeExpr Span} {ty : Ty} (h : Denotes type ty) (ht : t.Lawful) {n : Nat} {id : TypeId}
    (hid : t.expandWithin n id = some ty) : (Lowering.type type).run.run t = (.ok id, t) := by
  cases n with
  | zero => cases hid
  | succ n =>
      rw [Interner.expandWithin_succ, Option.bind_eq_some_iff] at hid
      obtain ⟨d, hd, hid⟩ := hid
      cases h with
      | primitive p =>
          obtain rfl := TypeData.assemble_eq_primitive hid
          obtain rfl := ht.get?_primitive.mp hd
          have hname : Primitive.ofName? p.name = some p := by cases p <;> rfl
          simp only [Lowering.type, Lowering.named, hname, Lowering.run_pure]
      | sound h =>
          obtain ⟨inner, rfl, hinner⟩ := TypeData.assemble_eq_sound hid
          have hname : Primitive.ofName? Lowering.soundWord = none := rfl
          -- its part is lowered with one layer less, then the layer itself is found again
          simp only [Lowering.type, hname, if_true]
          rw [Lowering.run_bind, h.run_type ht hinner]
          simp only [Lowering.run_intern, ht.intern_get? hd]
      | tuple h =>
          obtain ⟨ids, rfl, hids⟩ := TypeData.assemble_eq_tuple hid
          rw [Lowering.type, Lowering.run_bind, h.run_types ht hids]
          simp only [Lowering.run_intern, ht.intern_get? hd]

theorem DenotesAll.run_types {types : List (TypeExpr Span)} {tys : List Ty} (h : DenotesAll types tys)
    (ht : t.Lawful) {n : Nat} {ids : List TypeId} (hids : ids.mapM (t.expandWithin n) = some tys) :
    (Lowering.types types).run.run t = (.ok ids, t) := by
  cases h with
  | nil =>
      cases ids with
      | nil => rw [Lowering.types, Lowering.run_pure]
      | cons id ids => simp [Option.bind_eq_some_iff] at hids
  | cons h hs =>
      cases ids with
      | nil => cases hids
      | cons id ids =>
          simp only [List.mapM_cons, Option.bind_eq_bind, Option.bind_eq_some_iff] at hids
          obtain ⟨ty, hty, tys, htys, ⟨⟩⟩ := hids
          rw [Lowering.types, Lowering.run_bind, h.run_type ht hty]
          simp only [Lowering.run_bind, hs.run_types ht htys, Lowering.run_pure]

end

end

end Ty

end SoundLang
