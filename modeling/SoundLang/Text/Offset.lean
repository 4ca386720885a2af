/-! # Byte offsets in a text

A place inside a line is a byte offset into its UTF-8 form, while all work on text is done on lists of
characters.  This module relates the two: `size` is the number of bytes of a list of characters, `split?`
cuts a list at a byte offset that falls between two characters (`split?_append`), `behind` is what stands behind it,
and `slice?` is the part between two offsets. -/

namespace SoundLang.Text

/-- The number of bytes of a text in UTF-8. -/
def size : List Char → Nat
  | [] => 0
  | c :: cs => c.utf8Size + size cs

@[simp] theorem size_nil : size [] = 0 := rfl

@[simp] theorem size_cons (c : Char) (cs : List Char) : size (c :: cs) = c.utf8Size + size cs := rfl

@[simp] theorem size_append (xs ys : List Char) : size (xs ++ ys) = size xs + size ys := by
  induction xs with
  | nil => simp
  | cons c cs ih => simp [ih, Nat.add_assoc]

theorem length_le_size (cs : List Char) : cs.length ≤ size cs := by
  induction cs with
  | nil => simp
  | cons c cs ih =>
    have := c.utf8Size_pos
    simp only [List.length_cons, size_cons]
    omega

theorem size_ofList (cs : List Char) : size cs = (String.ofList cs).utf8ByteSize := by
  induction cs with
  | nil => rfl
  | cons c cs ih =>
    have h : String.ofList (c :: cs) = String.ofList [c] ++ String.ofList cs := by
      rw [← String.ofList_append]
      rfl
    have h' : (String.ofList [c]).utf8ByteSize = c.utf8Size := by
      rw [← String.singleton_eq_ofList, String.utf8ByteSize_singleton]
    rw [size_cons, ih, h, String.utf8ByteSize_append, h']

/-- The bytes of a string are those of its characters. -/
theorem size_toList (s : String) : size s.toList = s.utf8ByteSize := by
  rw [size_ofList, String.ofList_toList]

/-- The text before and after the byte offset `n`, when `n` falls between two characters. -/
def split? : Nat → List Char → Option (List Char × List Char)
  | n, [] => if n = 0 then some ([], []) else none
  | n, c :: cs =>
    if n = 0 then some ([], c :: cs)
    else if c.utf8Size ≤ n then (split? (n - c.utf8Size) cs).map fun (before, after) => (c :: before, after)
    else none

@[simp] theorem split?_zero (cs : List Char) : split? 0 cs = some ([], cs) := by
  cases cs <;> simp [split?]

/-- A text can be cut after each of its beginnings. -/
theorem split?_append (xs ys : List Char) : split? (size xs) (xs ++ ys) = some (xs, ys) := by
  induction xs with
  | nil => simp
  | cons c cs ih =>
    have h : c.utf8Size + size cs ≠ 0 := by have := c.utf8Size_pos; omega
    rw [List.cons_append, size_cons, split?, if_neg h, if_pos (Nat.le_add_right ..),
      Nat.add_sub_cancel_left, ih]
    rfl

/-- The text behind the byte offset `n`; nothing when `n` does not fall between two characters. -/
def behind (n : Nat) (cs : List Char) : List Char := ((split? n cs).map (·.2)).getD []

theorem behind_append (xs ys : List Char) : behind (size xs) (xs ++ ys) = ys := by
  rw [behind, split?_append]
  rfl

/-- The text from byte `first` up to byte `last`; `none` when the offsets are out of order, outside the
text, or inside a character. -/
def slice? (first last : Nat) (cs : List Char) : Option (List Char) :=
  if first ≤ last then do
    let (_, after) ← split? first cs
    let (piece, _) ← split? (last - first) after
    return piece
  else none

end SoundLang.Text
