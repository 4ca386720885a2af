/-! # Tables of code point ranges

Properties of characters are given as tables of ranges in increasing order, searched by halving. -/

namespace SoundLang.Text

/-- The character lies in one of the ranges of the table, which are in increasing order. -/
def inRanges (table : Array (Nat × Nat)) (c : Char) : Bool :=
  table.binSearchContains (c.toNat, c.toNat) fun r s => r.2 < s.1

/-- Each range of the table ends before the next one starts, as the search needs. -/
def inOrder (table : Array (Nat × Nat)) : Bool :=
  let rs := table.toList
  rs.all (fun r => r.1 ≤ r.2) && (rs.zip rs.tail).all fun (r, s) => r.2 < s.1

end SoundLang.Text
