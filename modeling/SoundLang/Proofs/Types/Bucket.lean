import SoundLang.Types.Lowering

/-! # The types of one shape

A bucket holds its types twice: the types at their places, and the places by the parts of the types.  The two agree
(`Bucket.Lawful`), and the shape with the parts is the whole layer, so no layer has two places. -/

namespace SoundLang

/-- The shape and the parts of a layer tell the layer, unless it is primitive. -/
theorem TypeData.eq_of_children {d d' : TypeData} (hd : d.shape ≠ .primitive) (hs : d'.shape = d.shape)
    (hc : d'.children = d.children) : d' = d := by
  cases d <;> cases d' <;> simp_all [shape, children]

namespace TypeId

theorem place_lt (id : TypeId) : id.place < capacity := Nat.mod_lt _ (by decide)

/-- An id is made of its parts. -/
theorem ofParts_place {id : TypeId} {s : Shape} (h : Shape.ofNumber? id.shapeNumber = some s) :
    ofParts s id.place = id := by
  have hnumber : s.number = id.shapeNumber := by
    unfold Shape.ofNumber? at h
    split at h <;> cases h <;> simp_all [Shape.number]
  have hword := Nat.div_add_mod id.word.toNat capacity
  obtain ⟨word⟩ := id
  simp only [ofParts, hnumber, shapeNumber, place, Nat.mul_comm _ capacity, hword, UInt32.ofNat_toNat]

end TypeId

namespace Interner

namespace Bucket

/-- The types of the bucket have the shape `s`, and the parts of a type tell its place. -/
structure Lawful (b : Bucket) (s : Shape) : Prop where
  shape : ∀ {i : Nat} {e : Entry}, b.entries[i]? = some e → e.data.shape = s
  place_iff : ∀ {parts i}, b.place? parts = some i ↔ ∃ e, b.entries[i]? = some e ∧ e.data.children = parts
  size_le : b.size ≤ TypeId.capacity

@[simp] theorem size_push (b : Bucket) (e : Entry) : (b.push e).size = b.size + 1 := Array.size_push e

theorem entries_push (b : Bucket) (e : Entry) (i : Nat) :
    (b.push e).entries[i]? = if i = b.size then some e else b.entries[i]? :=
  Array.getElem?_push

theorem place?_push (b : Bucket) (e : Entry) (parts : List TypeId) :
    (b.push e).place? parts = if parts = e.data.children then some b.size else b.place? parts := by
  simp only [place?, push, List.lookup_cons]
  by_cases h : parts = e.data.children
  · rw [if_pos h, beq_iff_eq.mpr h]
  · rw [if_neg h, beq_eq_false_iff_ne.mpr h]

theorem lt_size {b : Bucket} {i : Nat} {e : Entry} (h : b.entries[i]? = some e) : i < b.size :=
  (Array.getElem?_eq_some_iff.mp h).choose

theorem lawful_empty (s : Shape) : empty.Lawful s where
  shape h := by simp [empty] at h
  place_iff := by simp [empty, place?]
  size_le := Nat.zero_le _

theorem Lawful.push {b : Bucket} {s : Shape} (h : b.Lawful s) {e : Entry} (hs : e.data.shape = s)
    (hnew : b.place? e.data.children = none) (hroom : b.size < TypeId.capacity) : (b.push e).Lawful s where
  shape {i e'} he' := by
    rw [entries_push] at he'
    split at he'
    · cases he'
      exact hs
    · exact h.shape he'
  place_iff {parts i} := by
    rw [place?_push, entries_push]
    by_cases hparts : parts = e.data.children
    · subst hparts
      rw [if_pos rfl]
      constructor
      · rintro ⟨rfl⟩
        exact ⟨e, if_pos rfl, rfl⟩
      · rintro ⟨e', he', hc⟩
        split at he'
        · next hi => rw [hi]
        · -- the parts would have had a place before
          rw [h.place_iff.mpr ⟨e', he', hc⟩] at hnew
          cases hnew
    · rw [if_neg hparts, h.place_iff]
      constructor
      · rintro ⟨e', he', hc⟩
        exact ⟨e', by rwa [if_neg (Nat.ne_of_lt (lt_size he'))], hc⟩
      · rintro ⟨e', he', hc⟩
        split at he'
        · cases he'
          exact absurd hc.symm hparts
        · exact ⟨e', he', hc⟩
  size_le := by
    rw [size_push]
    exact hroom

end Bucket

end Interner

end SoundLang
