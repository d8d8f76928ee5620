import Mathlib

/-! # The longest common prefix

Two lists agree up to the first place where they differ or one of them ends. Cutting a list
there, for one list after the other, leaves the longest prefix which all of them have; it may
be given up as soon as it is empty.
-/

universe u

namespace CommonPrefix

variable {α : Type u} [DecidableEq α]

/-- How many elements two lists have in common at their start. -/
def agreement : List α → List α → Nat
  | x :: a, y :: b => if x = y then agreement a b + 1 else 0
  | _, _ => 0

/-- One list cut where the next one differs, and so on; nothing once it is empty. -/
def shorten (a : List α) : List (List α) → List α
  | [] => a
  | b :: rest => if a.take (agreement a b) = [] then [] else shorten (a.take (agreement a b)) rest

/-- The cut leaves exactly the common prefixes. -/
theorem prefix_take_agreement {s a b : List α} :
    s <+: a.take (agreement a b) ↔ s <+: a ∧ s <+: b := by
  induction a generalizing s b with
  | nil => simp +contextual [agreement, List.prefix_nil]
  | cons x a ih =>
      cases s with
      | nil => simp
      | cons z s =>
          cases b with
          | nil => simp [agreement]
          | cons y b =>
              rw [agreement]
              split
              · rename_i same
                subst same
                rw [List.take_succ_cons, List.cons_prefix_cons, List.cons_prefix_cons,
                  List.cons_prefix_cons, ih]
                tauto
              · rename_i different
                rw [List.take_zero, List.cons_prefix_cons, List.cons_prefix_cons]
                refine iff_of_false (by simp) ?_
                rintro ⟨⟨first, -⟩, second, -⟩
                exact different (first.symm.trans second)

/-- The prefixes of what is left are the prefixes of all of the lists. -/
theorem prefix_shorten {s a : List α} {l : List (List α)} :
    s <+: shorten a l ↔ s <+: a ∧ ∀ b ∈ l, s <+: b := by
  induction l generalizing a with
  | nil => simp [shorten]
  | cons b rest ih =>
      have cut : s <+: a.take (agreement a b) ↔ s <+: a ∧ s <+: b := prefix_take_agreement
      rw [shorten, List.forall_mem_cons, ← and_assoc, ← cut]
      split
      · rename_i empty
        rw [empty, List.prefix_nil]
        constructor
        · rintro rfl
          exact ⟨rfl, fun b _ => List.nil_prefix⟩
        · exact fun h => h.1
      · exact ih

theorem shorten_prefix {a b : List α} {l : List (List α)} (member : b ∈ a :: l) :
    shorten a l <+: b := by
  obtain ⟨first, others⟩ := prefix_shorten.mp (List.prefix_refl (shorten a l))
  rcases List.mem_cons.mp member with rfl | later
  · exact first
  · exact others b later

end CommonPrefix
