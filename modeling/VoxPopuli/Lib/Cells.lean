import Mathlib

/-! # A row of cells

A row which is written to from the left to the right, cell by cell, at the place of a cursor.
A row which is blank from some place on is given by the cells before it; what is written over
it is then written over a list.
-/

universe u

namespace Cells

variable {α : Type u}

structure Row (α : Type u) where
  cells : Nat → α
  col : Nat

def Row.put (r : Row α) (c : α) : Row α := ⟨Function.update r.cells r.col c, r.col + 1⟩

def Row.write (r : Row α) (text : List α) : Row α := text.foldl Row.put r

/-- The cells of a list and then only blanks. -/
def ofList (blank : α) (s : List α) : Nat → α := fun i => s.getD i blank

variable {blank : α}

@[simp] theorem ofList_append_replicate (s : List α) (n : Nat) :
    ofList blank (s ++ List.replicate n blank) = ofList blank s := by
  funext i
  simp only [ofList, List.getD_eq_getElem?_getD]
  by_cases inside : i < s.length
  · rw [List.getElem?_append_left inside]
  · rw [List.getElem?_append_right (by omega), List.getElem?_eq_none (l := s) (by omega)]
    simp only [List.getElem?_replicate, Option.getD_none]
    split <;> rfl

theorem put_ofList (a b : List α) (c : α) :
    Row.put ⟨ofList blank (a ++ b), a.length⟩ c = ⟨ofList blank (a ++ c :: b.tail), a.length + 1⟩ := by
  refine congrArg₂ Row.mk ?_ rfl
  funext i
  simp only [Function.update_apply, ofList, List.getD_eq_getElem?_getD]
  rcases Nat.lt_trichotomy i a.length with before | rfl | behind
  · rw [if_neg (by omega), List.getElem?_append_left before, List.getElem?_append_left before]
  · simp
  · obtain ⟨k, rfl⟩ : ∃ k, i = a.length + (k + 1) := ⟨i - a.length - 1, by omega⟩
    rw [if_neg (by omega), List.getElem?_append_right (by omega),
      List.getElem?_append_right (by omega)]
    simp

/-- What is written stands behind what the cursor has passed, and before the cells it has not
    come to. -/
theorem write_ofList (a b text : List α) :
    Row.write ⟨ofList blank (a ++ b), a.length⟩ text =
      ⟨ofList blank (a ++ text ++ b.drop text.length), (a ++ text).length⟩ := by
  induction text generalizing a b with
  | nil => simp [Row.write]
  | cons c text ih =>
      have later := ih (a ++ [c]) b.tail
      have joined : a ++ [c] ++ b.tail = a ++ c :: b.tail := by simp
      have col : (a ++ [c]).length = a.length + 1 := by simp
      rw [joined, col, ← put_ofList] at later
      rw [Row.write, List.foldl_cons]
      refine later.trans ?_
      simp [List.drop_tail]

/-- Blanks over everything that stands there. -/
theorem write_blanks (s : List α) {n : Nat} (enough : s.length ≤ n) :
    Row.write ⟨ofList blank s, 0⟩ (List.replicate n blank) = ⟨ofList blank [], n⟩ := by
  have written : Row.write ⟨ofList blank s, 0⟩ (List.replicate n blank) =
      ⟨ofList blank ([] ++ List.replicate n blank ++ s.drop (List.replicate n blank).length),
        ([] ++ List.replicate n blank).length⟩ := write_ofList [] s (List.replicate n blank)
  rw [List.length_replicate, List.drop_eq_nil_of_le enough, List.append_nil,
    ofList_append_replicate, List.nil_append, List.length_replicate] at written
  exact written

end Cells
