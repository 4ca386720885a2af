import Mathlib.Data.List.Nodup
import SoundLang.Proofs.Outline.Headings
import SoundLang.Proofs.Outline.Unplaced
import SoundLang.Proofs.Types.Annotated

/-! # Trees and their outlines

In front of lines that are less deep, the outline of a tree tells the tree but for the places of names, so items with
one outline are equal but for these (`Item.Fits.eq_of_outline`).  A type that is applied to no arguments has the lines
of its bare name, and only its span tells the two apart (`TypeExpr.Fits`). -/

namespace SoundLang

open Outline Text

/-! ### Types -/

theorem TypeExpr.outlineAll_eq (d : Nat) (types : List (TypeExpr Span)) :
    outlineAll d types = types.flatMap (outline d) := by
  induction types with
  | nil => rfl
  | cons t types ih => rw [outlineAll, ih, List.flatMap_cons]

/-- Names are on one line.  The span of a bare name ends where the name does; arguments go on behind that. -/
inductive TypeExpr.Fits : TypeExpr Span → Prop
  | named {span : Span} {name : String} (hname : '\n' ∉ name.toList)
      (h : span.stop = span.start.advance name.toList) : Fits (.named span name)
  | applied {span : Span} {name : Name Span} {args : List (TypeExpr Span)} (hname : '\n' ∉ name.text.toList)
      (h : span.stop ≠ span.start.advance name.text.toList) (hargs : ∀ t ∈ args, t.Fits) :
      Fits (.applied span name args)
  | tuple {span : Span} {elems : List (TypeExpr Span)} (helems : ∀ t ∈ elems, t.Fits) : Fits (.tuple span elems)

def TypeExpr.heading : TypeExpr Span → Heading
  | .named _ name => .mk "type" (some name)
  | .applied _ name _ => .mk "type" (some name.text)
  | .tuple _ elems => .mk "tuple type" (some (toString elems.length))

theorem TypeExpr.opens (d : Nat) (t : TypeExpr Span) : Opens d t.note t.heading (t.outline d) := by
  cases t <;> exact ⟨_, rfl⟩

theorem TypeExpr.Fits.tells {t : TypeExpr Span} (h : t.Fits) : Tells outline Fits unplaced t := by
  induction h with
  | @named span name _ hstop =>
      refine .of_below opens fun t' ht' hspan hheading d rest rest' hr hr' heq => ?_
      cases ht' with
      | @named span' name' =>
          obtain rfl : span = span' := hspan
          obtain rfl : name = name' := by simpa [heading] using hheading
          exact ⟨rfl, heq⟩
      | @applied span' name' args' _ hstop' =>
          -- without arguments both have the same lines, but one span cannot fit both
          obtain rfl : span = span' := hspan
          obtain rfl : name = name'.text := by simpa [heading] using hheading
          exact absurd hstop hstop'
      | tuple => simp [heading] at hheading
  | @applied span name args _ hstop _ ih =>
      refine .of_below opens fun t' ht' hspan hheading d rest rest' hr hr' heq => ?_
      cases ht' with
      | @named span' name' _ hstop' =>
          obtain rfl : span = span' := hspan
          obtain rfl : name.text = name' := by simpa [heading] using hheading
          exact absurd hstop' hstop
      | @applied span' name' args' _ _ hargs' =>
          obtain rfl : span = span' := hspan
          have hname : name.text = name'.text := by simpa [heading] using hheading
          simp only [outline, List.tail_cons, outlineAll_eq] at heq
          obtain ⟨hargs, hrest⟩ := Tells.flatMap opens ih hargs' hr hr' heq
          simp only [unplaced, unplacedAll_eq, Name.unplaced, hname, hargs, hrest, and_self]
      | tuple => simp [heading] at hheading
  | @tuple span elems _ ih =>
      refine .of_below opens fun t' ht' hspan hheading d rest rest' hr hr' heq => ?_
      cases ht' with
      | @tuple span' elems' helems' =>
          obtain rfl : span = span' := hspan
          simp only [outline, List.tail_cons, outlineAll_eq] at heq
          obtain ⟨helems, hrest⟩ := Tells.flatMap opens ih helems' hr hr' heq
          simp only [unplaced, unplacedAll_eq, helems, hrest, and_self]
      | named | applied => simp [heading] at hheading

/-! ### Expressions -/

def UnaryOp.all : List UnaryOp :=
  [.plus, .minus, .recip, .logicalNot, .bitNot, .preInc, .preDec, .postInc, .postDec]

theorem UnaryOp.mem_all (op : UnaryOp) : op ∈ all := by cases op <;> decide

/-- No two unary operators have one name. -/
theorem UnaryOp.name_inj {op op' : UnaryOp} (h : op.name = op'.name) : op = op' :=
  List.inj_on_of_nodup_map (show (all.map name).Nodup by decide) op.mem_all op'.mem_all h

def BinaryOp.all : List BinaryOp :=
  [.add, .sub, .mul, .div, .rem, .leftShift, .rightShift, .forwardShift, .backwardShift, .equal, .notEqual, .less,
    .lessEqual, .greater, .greaterEqual, .logicalAnd, .logicalOr, .bitAnd, .bitOr, .bitXor, .assign, .addAssign,
    .subAssign, .mulAssign, .divAssign, .remAssign, .bitAndAssign, .bitOrAssign, .bitXorAssign, .leftShiftAssign,
    .rightShiftAssign, .forwardShiftAssign, .backwardShiftAssign]

theorem BinaryOp.mem_all (op : BinaryOp) : op ∈ all := by cases op <;> decide

/-- No two binary operators have one name. -/
theorem BinaryOp.name_inj {op op' : BinaryOp} (h : op.name = op'.name) : op = op' :=
  List.inj_on_of_nodup_map (show (all.map name).Nodup by decide) op.mem_all op'.mem_all h

theorem Expr.outlineAll_eq (d : Nat) (es : List (Expr Span)) : outlineAll d es = es.flatMap (outline d) := by
  induction es with
  | nil => rfl
  | cons e es ih => rw [outlineAll, ih, List.flatMap_cons]

def Expr.heading : Expr Span → Heading
  | .name _ text => .mk "identifier" (some text)
  | .number _ text => .mk "number" (some text)
  | .string _ value => .mk "string" (some (quote value))
  | .call .. => .mk "call" none
  | .unary _ op _ => .mk "unary operation" (some op.name)
  | .binary _ op .. => .mk "binary operation" (some op.name)
  | .index .. => .mk "index" none
  | .list _ items => .mk "list" (some (toString items.length))
  | .tuple _ items => .mk "tuple" (some (toString items.length))
  | .group .. => .mk "group" none

theorem Expr.opens (d : Nat) (e : Expr Span) : Opens d e.note e.heading (e.outline d) := by
  cases e <;> exact ⟨_, rfl⟩

/-- Two expressions whose outlines begin with the same line: they are of one sort, and have the same span and the same
text, value or operator. -/
inductive Expr.Alike : Expr Span → Expr Span → Prop
  | name {span : Span} {text : String} : Alike (.name span text) (.name span text)
  | number {span : Span} {text : String} : Alike (.number span text) (.number span text)
  | string {span : Span} {value : String} : Alike (.string span value) (.string span value)
  | call {span : Span} {callee : Expr Span} {args : List (Expr Span)} (callee' : Expr Span) (args' : List (Expr Span)) :
      Alike (.call span callee args) (.call span callee' args')
  | unary {span : Span} {op : UnaryOp} {operand : Expr Span} (operand' : Expr Span) :
      Alike (.unary span op operand) (.unary span op operand')
  | binary {span : Span} {op : BinaryOp} {left right : Expr Span} (left' right' : Expr Span) :
      Alike (.binary span op left right) (.binary span op left' right')
  | index {span : Span} {base i : Expr Span} (base' i' : Expr Span) : Alike (.index span base i) (.index span base' i')
  | list {span : Span} {items : List (Expr Span)} (items' : List (Expr Span)) :
      Alike (.list span items) (.list span items')
  | tuple {span : Span} {items : List (Expr Span)} (items' : List (Expr Span)) :
      Alike (.tuple span items) (.tuple span items')
  | group {span : Span} {inner : Expr Span} (inner' : Expr Span) : Alike (.group span inner) (.group span inner')

/-- A heading belongs to one sort of expressions. -/
theorem Expr.alike_of_heading {e e' : Expr Span} (hnote : e.note = e'.note) (hheading : e.heading = e'.heading) :
    Alike e e' := by
  cases e <;> cases e' <;> simp [note, heading] at hnote hheading <;> subst hnote
  case name.name | number.number =>
      subst hheading
      constructor
  case string.string =>
      obtain rfl := quote_inj hheading
      exact .string
  case unary.unary =>
      obtain rfl := UnaryOp.name_inj hheading
      exact .unary _
  case binary.binary =>
      obtain rfl := BinaryOp.name_inj hheading
      exact .binary _ _
  all_goals constructor

theorem Expr.under {d : Nat} (e : Expr Span) (rest : Outline) : Under (d + 1) (e.outline d ++ rest) :=
  ((e.opens d).append rest).under (Nat.lt_succ_self d)

/-- The outline of the expression tells the whole of it. -/
abbrev Expr.Told (e : Expr Span) : Prop := Tells outline (fun _ => True) id e

/-- What is left to tell when the outlines begin with the same line. -/
theorem Expr.Told.of_alike {e : Expr Span} (h : ∀ ⦃e' : Expr Span⦄, Alike e e' → ∀ ⦃d : Nat⦄ ⦃rest rest' : Outline⦄,
    Under (d + 1) rest → Under (d + 1) rest' → (e.outline d).tail ++ rest = (e'.outline d).tail ++ rest' →
      e = e' ∧ rest = rest') : e.Told :=
  .of_below opens fun _ _ hnote hheading => h (alike_of_heading hnote hheading)

theorem Expr.Told.eq {e e' : Expr Span} (h : e.Told) {d : Nat} {rest rest' : Outline} (hr : Under (d + 1) rest)
    (hr' : Under (d + 1) rest') (heq : e.outline d ++ rest = e'.outline d ++ rest') : e = e' ∧ rest = rest' :=
  h trivial hr hr' heq

/-- The outlines of some expressions tell them. -/
theorem Expr.Told.list {es es' : List (Expr Span)} (h : ∀ e ∈ es, Told e) {d : Nat} {rest rest' : Outline}
    (hr : Under d rest) (hr' : Under d rest') (heq : outlineAll d es ++ rest = outlineAll d es' ++ rest') :
    es = es' ∧ rest = rest' := by
  rw [outlineAll_eq, outlineAll_eq] at heq
  have := Tells.flatMap opens h (fun _ _ => trivial) hr hr' heq
  rwa [List.map_id, List.map_id] at this

mutual

theorem Expr.told : (e : Expr Span) → e.Told
  | .name .. | .number .. | .string .. => by
      refine .of_alike fun e' halike d rest rest' hr hr' heq => ?_
      cases halike
      exact ⟨rfl, heq⟩
  | .call span callee args => by
      refine .of_alike fun e' halike d rest rest' hr hr' heq => ?_
      cases halike with
      | call callee' args' =>
          simp only [outline, List.cons_append, List.tail_cons, List.append_assoc] at heq
          obtain ⟨rfl, hargs⟩ := (Expr.told callee).eq (under_part _ _ _) (under_part _ _ _) heq
          obtain ⟨rfl, hrest⟩ := Told.list (Expr.toldAll args) hr hr' (List.cons.inj hargs).2
          exact ⟨rfl, hrest⟩
  | .unary span op operand => by
      refine .of_alike fun e' halike d rest rest' hr hr' heq => ?_
      cases halike with
      | unary operand' =>
          simp only [outline, List.tail_cons] at heq
          obtain ⟨rfl, hrest⟩ := (Expr.told operand).eq hr.succ hr'.succ heq
          exact ⟨rfl, hrest⟩
  | .binary span op left right => by
      refine .of_alike fun e' halike d rest rest' hr hr' heq => ?_
      cases halike with
      | binary left' right' =>
          simp only [outline, List.cons_append, List.tail_cons, List.append_assoc] at heq
          obtain ⟨rfl, hright⟩ := (Expr.told left).eq (right.under rest) (right'.under rest') heq
          obtain ⟨rfl, hrest⟩ := (Expr.told right).eq hr.succ hr'.succ hright
          exact ⟨rfl, hrest⟩
  | .index span base i => by
      refine .of_alike fun e' halike d rest rest' hr hr' heq => ?_
      cases halike with
      | index base' i' =>
          simp only [outline, List.cons_append, List.tail_cons, List.append_assoc] at heq
          obtain ⟨rfl, hindex⟩ := (Expr.told base).eq (i.under rest) (i'.under rest') heq
          obtain ⟨rfl, hrest⟩ := (Expr.told i).eq hr.succ hr'.succ hindex
          exact ⟨rfl, hrest⟩
  | .list span items | .tuple span items => by
      refine .of_alike fun e' halike d rest rest' hr hr' heq => ?_
      cases halike
      obtain ⟨rfl, hrest⟩ := Told.list (Expr.toldAll items) hr hr' heq
      exact ⟨rfl, hrest⟩
  | .group span inner => by
      refine .of_alike fun e' halike d rest rest' hr hr' heq => ?_
      cases halike with
      | group inner' =>
          obtain ⟨rfl, hrest⟩ := (Expr.told inner).eq hr.succ hr'.succ heq
          exact ⟨rfl, hrest⟩

theorem Expr.toldAll : (es : List (Expr Span)) → ∀ e ∈ es, e.Told
  | [] => nofun
  | e :: es => List.forall_mem_cons.mpr ⟨Expr.told e, Expr.toldAll es⟩

end

/-- No expression has the heading of a type. -/
theorem Expr.heading_ne_type (e : Expr Span) (t : TypeExpr Span) : e.heading ≠ t.heading := by
  cases e <;> cases t <;> simp [heading, TypeExpr.heading]

/-! ### Statements -/

theorem Stmt.outlineAll_eq (d : Nat) (stmts : List (Stmt Span)) : outlineAll d stmts = stmts.flatMap (outline d) := by
  induction stmts with
  | nil => rfl
  | cons s stmts ih => rw [outlineAll, ih, List.flatMap_cons]

/-- The annotations in the statement fit. -/
def Stmt.Fits (s : Stmt Span) : Prop := ∀ t, s.Annotated t → t.Fits

def Stmt.heading : Stmt Span → Heading
  | .expr _ none => .mk "expression statement " (some "empty")
  | .expr _ (some _) => .mk "expression statement" none
  | .decl _ name .. => .mk "declaration" (some name.text)
  | .breakStmt _ => .mk "break" none
  | .continueStmt _ => .mk "continue" none
  | .returnStmt .. => .mk "return" none
  | .block .. => .mk "block" none
  | .whileStmt .. => .mk "while" none
  | .ifThen .. | .ifElse .. => .mk "if" none

theorem Stmt.opens (d : Nat) : (s : Stmt Span) → Opens d s.note s.heading (s.outline d)
  | .expr _ none | .expr _ (some _) | .decl .. | .breakStmt _ | .continueStmt _ | .returnStmt .. | .block ..
  | .whileStmt .. | .ifThen .. | .ifElse .. => ⟨_, rfl⟩

/-- Two statements whose outlines begin with the same line.  With and without an `else` branch the line of a condition
is the same. -/
inductive Stmt.Alike : Stmt Span → Stmt Span → Prop
  | empty {span : Span} : Alike (.expr span none) (.expr span none)
  | expr {span : Span} {e : Expr Span} (e' : Expr Span) : Alike (.expr span (some e)) (.expr span (some e'))
  | decl {span : Span} {name : Name Span} {type : Option (TypeExpr Span)} {value : Expr Span} (name' : Name Span)
      (type' : Option (TypeExpr Span)) (value' : Expr Span) (hname : name.text = name'.text) :
      Alike (.decl span name type value) (.decl span name' type' value')
  | breakStmt {span : Span} : Alike (.breakStmt span) (.breakStmt span)
  | continueStmt {span : Span} : Alike (.continueStmt span) (.continueStmt span)
  | returnStmt {span : Span} {value : Option (Expr Span)} (value' : Option (Expr Span)) :
      Alike (.returnStmt span value) (.returnStmt span value')
  | block {span : Span} {stmts : List (Stmt Span)} (stmts' : List (Stmt Span)) :
      Alike (.block span stmts) (.block span stmts')
  | whileStmt {span : Span} {cond : Expr Span} {body : Stmt Span} (cond' : Expr Span) (body' : Stmt Span) :
      Alike (.whileStmt span cond body) (.whileStmt span cond' body')
  | thenThen {span : Span} {cond : Expr Span} {yes : Stmt Span} (cond' : Expr Span) (yes' : Stmt Span) :
      Alike (.ifThen span cond yes) (.ifThen span cond' yes')
  | thenElse {span : Span} {cond : Expr Span} {yes : Stmt Span} (cond' : Expr Span) (yes' no' : Stmt Span) :
      Alike (.ifThen span cond yes) (.ifElse span cond' yes' no')
  | elseThen {span : Span} {cond : Expr Span} {yes no : Stmt Span} (cond' : Expr Span) (yes' : Stmt Span) :
      Alike (.ifElse span cond yes no) (.ifThen span cond' yes')
  | elseElse {span : Span} {cond : Expr Span} {yes no : Stmt Span} (cond' : Expr Span) (yes' no' : Stmt Span) :
      Alike (.ifElse span cond yes no) (.ifElse span cond' yes' no')

/-- A heading belongs to one sort of statements, or to conditions with and without an `else` branch. -/
theorem Stmt.alike_of_heading {s s' : Stmt Span} (hnote : s.note = s'.note) (hheading : s.heading = s'.heading) :
    Alike s s' := by
  rcases s with ⟨_, _ | _⟩ | _ | _ | _ | _ | _ | _ | _ | _ <;>
    rcases s' with ⟨_, _ | _⟩ | _ | _ | _ | _ | _ | _ | _ | _ <;>
      simp [note, heading] at hnote hheading <;> subst hnote <;> constructor
  exact hheading

/-- What is left to tell when the outlines begin with the same line. -/
theorem Stmt.tells_of_alike {s : Stmt Span} (h : ∀ ⦃s' : Stmt Span⦄, Alike s s' → s'.Fits → ∀ ⦃d : Nat⦄
    ⦃rest rest' : Outline⦄, Under (d + 1) rest → Under (d + 1) rest' →
      (s.outline d).tail ++ rest = (s'.outline d).tail ++ rest' → s.unplaced = s'.unplaced ∧ rest = rest') :
    Tells outline Fits unplaced s :=
  .of_below opens fun _ hs' hnote hheading => h (alike_of_heading hnote hheading) hs'

/-- A type that may be left out, and the expression behind it. -/
theorem TypeExpr.toldOf {type type' : Option (TypeExpr Span)} {e e' : Expr Span} (ht : ∀ t ∈ type, t.Fits)
    (ht' : ∀ t ∈ type', t.Fits) {d : Nat} {rest rest' : Outline} (hr : Under (d + 1) rest) (hr' : Under (d + 1) rest')
    (heq : outlineOf d type ++ (e.outline d ++ rest) = outlineOf d type' ++ (e'.outline d ++ rest')) :
    type.map unplaced = type'.map unplaced ∧ e = e' ∧ rest = rest' := by
  have hne (e : Expr Span) (t : TypeExpr Span) (rest rest' : Outline) :
      e.outline d ++ rest ≠ t.outline d ++ rest' := fun h =>
    e.heading_ne_type t (((e.opens d).append rest).unique (h ▸ (t.opens d).append rest')).2.2
  cases type with
  | none =>
      cases type' with
      | none => exact ⟨rfl, (Expr.told e).eq hr hr' heq⟩
      | some t' => exact absurd heq (hne e t' rest _)
  | some t =>
      cases type' with
      | none => exact absurd heq.symm (hne e' t rest' _)
      | some t' =>
          obtain ⟨htype, hvalue⟩ := (ht t rfl).tells (ht' t' rfl) (e.under rest) (e'.under rest') heq
          exact ⟨congrArg some htype, (Expr.told e).eq hr hr' hvalue⟩

/-- A condition and the statement behind it. -/
theorem Stmt.toldGoverned {cond cond' : Expr Span} {s s' : Stmt Span} (hs : Tells outline Fits unplaced s)
    (hs' : s'.Fits) {d : Nat} {label : String} {rest rest' : Outline} (hr : Under (d + 1 + 1) rest)
    (hr' : Under (d + 1 + 1) rest') (heq : cond.outline (d + 1) ++ ⟨d, label⟩ :: (s.outline (d + 1) ++ rest) =
      cond'.outline (d + 1) ++ ⟨d, label⟩ :: (s'.outline (d + 1) ++ rest')) :
    cond = cond' ∧ s.unplaced = s'.unplaced ∧ rest = rest' := by
  obtain ⟨hcond, hbehind⟩ := (Expr.told cond).eq (under_part d label _) (under_part d label _) heq
  exact ⟨hcond, hs hs' hr hr' (List.cons.inj hbehind).2⟩

mutual

theorem Stmt.Fits.tells : (s : Stmt Span) → s.Fits → Tells Stmt.outline Stmt.Fits Stmt.unplaced s
  | .expr _ none, _ | .breakStmt _, _ | .continueStmt _, _ => by
      refine Stmt.tells_of_alike fun s' halike _ d rest rest' hr hr' heq => ?_
      cases halike
      exact ⟨rfl, heq⟩
  | .expr span (some e), _ => by
      refine Stmt.tells_of_alike fun s' halike _ d rest rest' hr hr' heq => ?_
      cases halike with
      | expr e' =>
          obtain ⟨rfl, hrest⟩ := (Expr.told e).eq hr.succ hr'.succ heq
          exact ⟨rfl, hrest⟩
  | .decl span name type value, hs => by
      refine Stmt.tells_of_alike fun s' halike hs' d rest rest' hr hr' heq => ?_
      cases halike with
      | decl name' type' value' hname =>
          simp only [Stmt.outline, List.cons_append, List.tail_cons, List.append_assoc] at heq
          have hfits : ∀ t ∈ type, t.Fits := by
            rintro t rfl
            exact hs t .decl
          have hfits' : ∀ t ∈ type', t.Fits := by
            rintro t rfl
            exact hs' t .decl
          obtain ⟨htype, rfl, hrest⟩ := TypeExpr.toldOf hfits hfits' hr.succ hr'.succ heq
          simp only [Stmt.unplaced, Name.unplaced, hname, htype, hrest, and_self]
  | .returnStmt span value, _ => by
      refine Stmt.tells_of_alike fun s' halike _ d rest rest' hr hr' heq => ?_
      cases halike with
      | returnStmt value' =>
          obtain ⟨hvalue, hrest⟩ :=
            Tells.option Expr.opens (fun e _ => Expr.told e) (fun _ _ => trivial) hr hr' heq
          rw [Option.map_id, id, id] at hvalue
          rw [hvalue]
          exact ⟨rfl, hrest⟩
  | .block span stmts, hs => by
      refine Stmt.tells_of_alike fun s' halike hs' d rest rest' hr hr' heq => ?_
      cases halike with
      | block stmts' =>
          simp only [Stmt.outline, List.cons_append, List.nil_append, List.tail_cons, List.append_assoc,
            Stmt.outlineAll_eq] at heq
          have hfits : ∀ s ∈ stmts, s.Fits := fun s hmem t ht => hs t (.block hmem ht)
          have hfits' : ∀ s ∈ stmts', s.Fits := fun s hmem t ht => hs' t (.block hmem ht)
          obtain ⟨hstmts, htail⟩ := Tells.flatMap Stmt.opens (Stmt.Fits.tellsAll stmts hfits) hfits'
            (under_cons (Nat.lt_succ_self d)) (under_cons (Nat.lt_succ_self d)) heq
          simp only [Stmt.unplaced, Stmt.unplacedAll_eq, hstmts, (List.cons.inj htail).2, and_self]
  | .whileStmt span cond body, hs => by
      refine Stmt.tells_of_alike fun s' halike hs' d rest rest' hr hr' heq => ?_
      cases halike with
      | whileStmt cond' body' =>
          simp only [Stmt.outline, List.cons_append, List.nil_append, List.tail_cons, List.append_assoc] at heq
          have hbody := Stmt.Fits.tells body fun t ht => hs t (.whileStmt ht)
          obtain ⟨rfl, hbody, hend⟩ := Stmt.toldGoverned hbody (fun t ht => hs' t (.whileStmt ht)) (under_part d _ _)
            (under_part d _ _) heq
          simp only [Stmt.unplaced, hbody, (List.cons.inj hend).2, and_self]
  | .ifThen span cond yes, hs => by
      refine Stmt.tells_of_alike fun s' halike hs' d rest rest' hr hr' heq => ?_
      have hyes := Stmt.Fits.tells yes fun t ht => hs t (.ifThen ht)
      cases halike with
      | thenThen cond' yes' =>
          simp only [Stmt.outline, List.cons_append, List.nil_append, List.tail_cons, List.append_assoc] at heq
          obtain ⟨rfl, hyes, hend⟩ := Stmt.toldGoverned hyes (fun t ht => hs' t (.ifThen ht)) (under_part d _ _)
            (under_part d _ _) heq
          simp only [Stmt.unplaced, hyes, (List.cons.inj hend).2, and_self]
      | thenElse cond' yes' no' =>
          simp only [Stmt.outline, List.cons_append, List.nil_append, List.tail_cons, List.append_assoc] at heq
          obtain ⟨rfl, -, hend⟩ := Stmt.toldGoverned hyes (fun t ht => hs' t (.yes ht)) (under_part d _ _)
            (under_part d _ _) heq
          -- the first lines agree, so it is the line behind the branch that is another one
          simp at hend
  | .ifElse span cond yes no, hs => by
      refine Stmt.tells_of_alike fun s' halike hs' d rest rest' hr hr' heq => ?_
      have hyes := Stmt.Fits.tells yes fun t ht => hs t (.yes ht)
      cases halike with
      | elseThen cond' yes' =>
          simp only [Stmt.outline, List.cons_append, List.nil_append, List.tail_cons, List.append_assoc] at heq
          obtain ⟨rfl, -, hend⟩ := Stmt.toldGoverned hyes (fun t ht => hs' t (.ifThen ht)) (under_part d _ _)
            (under_part d _ _) heq
          simp at hend
      | elseElse cond' yes' no' =>
          simp only [Stmt.outline, List.cons_append, List.nil_append, List.tail_cons, List.append_assoc] at heq
          obtain ⟨rfl, hyes, helse⟩ := Stmt.toldGoverned hyes (fun t ht => hs' t (.yes ht)) (under_part d _ _)
            (under_part d _ _) heq
          have hno := Stmt.Fits.tells no fun t ht => hs t (.no ht)
          obtain ⟨hno, hend⟩ := hno (fun t ht => hs' t (.no ht)) (under_part d _ _) (under_part d _ _)
            (List.cons.inj helse).2
          simp only [Stmt.unplaced, hyes, hno, (List.cons.inj hend).2, and_self]

theorem Stmt.Fits.tellsAll : (stmts : List (Stmt Span)) → (∀ s ∈ stmts, s.Fits) →
    ∀ s ∈ stmts, Tells Stmt.outline Stmt.Fits Stmt.unplaced s
  | [], _ => nofun
  | s :: stmts, h => by
      rw [List.forall_mem_cons] at h ⊢
      exact ⟨Stmt.Fits.tells s h.1, Stmt.Fits.tellsAll stmts h.2⟩

end

/-! ### Definitions -/

def Param.heading (p : Param Span) : Heading := .mk "parameter" (some p.name.text)

theorem Param.opens (d : Nat) (p : Param Span) : Opens d p.note p.heading (p.outline d) := ⟨_, rfl⟩

/-- The annotation of the parameter fits. -/
def Param.Fits (p : Param Span) : Prop := ∀ t ∈ p.type, t.Fits

theorem Param.Fits.tells {p : Param Span} (hp : p.Fits) : Tells outline Fits unplaced p := by
  refine .of_below opens fun p' hp' hspan hheading d rest rest' hr hr' heq => ?_
  have hname : p.name.text = p'.name.text := by simpa [heading] using hheading
  obtain ⟨htype, hrest⟩ :=
    Tells.option TypeExpr.opens (fun t ht => (hp t ht).tells) (fun t ht => hp' t ht) hr hr' heq
  simp only [unplaced, Name.unplaced, hspan, hname, htype, hrest, and_self]

def Definition.heading (d : Definition Span) : Heading := .mk "definition" (some d.name.text)

theorem Definition.opens (d : Definition Span) : Opens 0 d.note d.heading d.outline := ⟨_, rfl⟩

theorem Definition.under_result (t : Option (TypeExpr Span)) (o : Outline) :
    Under 1 (resultOutline t ++ ⟨0, "body:"⟩ :: o) := by
  cases t <;> exact under_cons Nat.zero_lt_one

/-- The result that may be left out, and the body behind it. -/
theorem Definition.toldResult {t t' : Option (TypeExpr Span)} (ht : ∀ u ∈ t, u.Fits) (ht' : ∀ u ∈ t', u.Fits)
    {o o' : Outline} (heq : resultOutline t ++ ⟨0, "body:"⟩ :: o = resultOutline t' ++ ⟨0, "body:"⟩ :: o') :
    t.map TypeExpr.unplaced = t'.map TypeExpr.unplaced ∧ o = o' := by
  cases t with
  | none =>
      cases t' with
      | none => exact ⟨rfl, (List.cons.inj heq).2⟩
      | some u' => simp [resultOutline] at heq
  | some u =>
      cases t' with
      | none => simp [resultOutline] at heq
      | some u' =>
          obtain ⟨hu, hbody⟩ :=
            (ht u rfl).tells (ht' u' rfl) (under_part 0 _ _) (under_part 0 _ _) (List.cons.inj heq).2
          exact ⟨congrArg some hu, (List.cons.inj hbody).2⟩

/-- No expression has the heading of a statement. -/
theorem Expr.heading_ne_stmt (e : Expr Span) (s : Stmt Span) : e.heading ≠ s.heading := by
  unfold heading Stmt.heading
  split <;> split <;> simp

/-- The annotations in the body fit. -/
def Body.Fits : Body Span → Prop
  | .value _ => True
  | .block stmts => ∀ s ∈ stmts, s.Fits

theorem Body.Fits.tells {b b' : Body Span} (hb : b.Fits) (hb' : b'.Fits) {d : Nat} {rest rest' : Outline}
    (hr : Under d rest) (hr' : Under d rest') (heq : b.outline d ++ rest = b'.outline d ++ rest') :
    b.unplaced = b'.unplaced := by
  have hne (e : Expr Span) (stmts : List (Stmt Span)) {rest rest' : Outline} (hr : Under d rest) :
      e.outline d ++ rest' ≠ Stmt.outlineAll d stmts ++ rest := by
    intro h
    have he := (e.opens d).append rest'
    rw [h] at he
    cases stmts with
    | nil => exact he.not_under hr
    | cons s stmts =>
        rw [Stmt.outlineAll, List.append_assoc] at he
        exact e.heading_ne_stmt s (he.unique ((s.opens d).append _)).2.2
  cases b with
  | value e =>
      cases b' with
      | value e' => rw [((Expr.told e).eq hr.succ hr'.succ heq).1]
      | block stmts' => exact absurd heq (hne e stmts' hr')
  | block stmts =>
      cases b' with
      | value e' => exact absurd heq.symm (hne e' stmts hr)
      | block stmts' =>
          simp only [outline, Stmt.outlineAll_eq] at heq
          have hstmts := (Tells.flatMap Stmt.opens (Stmt.Fits.tellsAll stmts hb) hb' hr hr' heq).1
          simp only [unplaced, Stmt.unplacedAll_eq, hstmts]

/-! ### Items -/

/-- The annotations in the item fit. -/
def Item.Fits (i : Item Span) : Prop := ∀ t, i.Annotated t → t.Fits

theorem Item.Fits.params {d : Definition Span} (h : (Item.definition d).Fits) : ∀ p ∈ d.params, p.Fits :=
  fun _ hp t ht => h t (.param hp ht)

theorem Item.Fits.result {d : Definition Span} (h : (Item.definition d).Fits) : ∀ t ∈ d.result, t.Fits :=
  fun t ht => h t (.result ht)

theorem Item.Fits.body {d : Definition Span} (h : (Item.definition d).Fits) : d.body.Fits := by
  cases hbody : d.body with
  | value e => trivial
  | block stmts => exact fun s hs t ht => h t (.body hbody hs ht)

theorem Item.Fits.definition {d d' : Definition Span} (h : (Item.definition d).Fits) (h' : (Item.definition d').Fits)
    (heq : d.outline = d'.outline) : d.unplaced = d'.unplaced := by
  obtain ⟨-, hspan, hheading⟩ := d.opens.unique (heq ▸ d'.opens)
  have hname : d.name.text = d'.name.text := by simpa [Definition.heading] using hheading
  rw [Definition.outline_eq, Definition.outline_eq] at heq
  obtain ⟨hparams, hresult⟩ := Tells.flatMap Param.opens (fun p hp => (h.params p hp).tells) h'.params
    (Definition.under_result _ _) (Definition.under_result _ _) (List.cons.inj (List.cons.inj heq).2).2
  obtain ⟨hresult, hbody⟩ := Definition.toldResult h.result h'.result hresult
  have hbody := h.body.tells h'.body (under_cons Nat.zero_lt_one) (under_cons Nat.zero_lt_one) hbody
  simp only [Definition.unplaced, Name.unplaced, hspan, hname, hparams, hresult, hbody]

theorem Stmt.heading_ne_definition (s : Stmt Span) (d : Definition Span) : s.heading ≠ d.heading := by
  unfold heading Definition.heading
  split <;> simp

/-- Items with one outline are equal but for the places of the names that they declare or apply. -/
theorem Item.Fits.eq_of_outline {i j : Item Span} (hi : i.Fits) (hj : j.Fits) (heq : i.outline = j.outline) :
    i.unplaced = j.unplaced := by
  have hne (s : Stmt Span) (d : Definition Span) : s.outline 0 ≠ d.outline :=
    fun h => s.heading_ne_definition d ((s.opens 0).unique (h ▸ d.opens)).2.2
  cases i with
  | stmt s =>
      cases j with
      | stmt s' =>
          have hs := Stmt.Fits.tells s fun t ht => hi t (.stmt ht)
          have hheq : s.outline 0 ++ [] = s'.outline 0 ++ [] := by rw [List.append_nil, List.append_nil]; exact heq
          obtain ⟨hunplaced, -⟩ := hs (fun t ht => hj t (.stmt ht)) under_nil under_nil hheq
          exact congrArg Item.stmt hunplaced
      | definition d' => exact absurd heq (hne s d')
  | definition d =>
      cases j with
      | stmt s' => exact absurd heq.symm (hne s' d)
      | definition d' => exact congrArg Item.definition (hi.definition hj heq)

end SoundLang
