import Mathlib

/-! # A buffer of a fixed size

Pieces are stored at offsets of a buffer and read from it. A piece which is held stays there
while something is stored beside it.
-/

universe u

/-- A buffer of `n` cells. -/
structure Region (α : Type u) (n : Nat) where
  cells : List α
  size_eq : cells.length = n

namespace Region

variable {α : Type u} {n : Nat}

/-- The cells from `off` on are overwritten. -/
def splice (r : Region α n) (off : Nat) (piece : List α) (inside : off + piece.length ≤ n) :
    Region α n where
  cells := r.cells.take off ++ piece ++ r.cells.drop (off + piece.length)
  size_eq := by
    have size := r.size_eq
    simp only [List.length_append, List.length_take, List.length_drop]
    omega

def store (r : Region α n) (off : Nat) (piece : List α) : Option (Region α n) :=
  if inside : off + piece.length ≤ n then some (r.splice off piece inside) else none

def load (r : Region α n) (off count : Nat) : Option (List α) :=
  if off + count ≤ n then some ((r.cells.drop off).take count) else none

/-- `piece` stands at `off`. -/
def Holds (r : Region α n) (off : Nat) (piece : List α) : Prop :=
  ∀ i, i < piece.length → r.cells[off + i]? = piece[i]?

theorem holds_nil (r : Region α n) (off : Nat) : r.Holds off [] := fun _ none => by cases none

theorem holds_append {r : Region α n} {off : Nat} {piece more : List α} :
    r.Holds off (piece ++ more) ↔ r.Holds off piece ∧ r.Holds (off + piece.length) more := by
  constructor
  · intro h
    refine ⟨fun i inside => ?_, fun i inside => ?_⟩
    · rw [h i (by simp; omega), List.getElem?_append_left inside]
    · have there := h (piece.length + i) (by simp; omega)
      rwa [List.getElem?_append_right (by omega), Nat.add_sub_cancel_left, ← Nat.add_assoc]
        at there
  · rintro ⟨h, h'⟩ i inside
    by_cases first : i < piece.length
    · rw [List.getElem?_append_left first, h i first]
    · rw [List.length_append] at inside
      have there := h' (i - piece.length) (by omega)
      rwa [List.getElem?_append_right (by omega),
        show off + i = off + piece.length + (i - piece.length) by omega]

theorem Holds.take {r : Region α n} {off : Nat} {piece : List α} (h : r.Holds off piece)
    (count : Nat) : r.Holds off (piece.take count) := by
  rw [← List.take_append_drop count piece] at h
  exact (holds_append.mp h).1

theorem getElem?_splice (r : Region α n) {off : Nat} {piece : List α}
    (inside : off + piece.length ≤ n) (i : Nat) :
    (r.splice off piece inside).cells[i]? =
      if off ≤ i ∧ i < off + piece.length then piece[i - off]? else r.cells[i]? := by
  have size := r.size_eq
  have start : (r.cells.take off).length = off := by simp; omega
  simp only [splice]
  by_cases before : i < off
  · rw [List.getElem?_append_left (by simp; omega), List.getElem?_append_left (by omega),
      if_neg (by omega), List.getElem?_take_of_lt before]
  · by_cases within : i < off + piece.length
    · rw [List.getElem?_append_left (by simp; omega), List.getElem?_append_right (by omega), start,
        if_pos ⟨by omega, within⟩]
    · rw [List.getElem?_append_right (by simp; omega), if_neg (by omega), List.getElem?_drop]
      congr 1
      simp only [List.length_append, start]
      omega

theorem splice_holds (r : Region α n) {off : Nat} {piece : List α}
    (inside : off + piece.length ≤ n) : (r.splice off piece inside).Holds off piece := by
  intro i within
  rw [getElem?_splice, if_pos ⟨by omega, by omega⟩, Nat.add_sub_cancel_left]

/-- What stands beside the piece is not changed. -/
theorem Holds.splice {r : Region α n} {off off' : Nat} {piece piece' : List α}
    (h : r.Holds off piece) (inside : off' + piece'.length ≤ n)
    (apart : off + piece.length ≤ off' ∨ off' + piece'.length ≤ off) :
    (r.splice off' piece' inside).Holds off piece := by
  intro i within
  rw [getElem?_splice, if_neg (by omega), h i within]

theorem load_of_holds {r : Region α n} {off : Nat} {piece : List α} (h : r.Holds off piece)
    (inside : off + piece.length ≤ n) : r.load off piece.length = some piece := by
  have size := r.size_eq
  rw [load, if_pos inside]
  refine congrArg some (List.ext_getElem? fun i => ?_)
  by_cases within : i < piece.length
  · rw [List.getElem?_take_of_lt within, List.getElem?_drop, h i within]
  · rw [List.getElem?_eq_none (by simp; omega), List.getElem?_eq_none (by omega)]

end Region
