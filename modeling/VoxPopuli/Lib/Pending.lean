import Mathlib

/-! # A set kept up to date by messages

A set follows another one through a queue of updates. An element which updates are
pending for is decided by the last of them; any other is decided by whether the set
holds it now.
-/

universe u

namespace Pending

variable {α : Type u} [DecidableEq α]

inductive Update (α : Type u) where
  | add (a : α)
  | remove (a : α)
  deriving DecidableEq, Repr

namespace Update

/-- What an update is about. -/
def key : Update α → α
  | add a => a
  | remove a => a

/-- Whether the element is there after an update. -/
def holds : Update α → Bool
  | add _ => true
  | remove _ => false

end Update

/-- Whether `a` is there after the updates, if it is now as `present` says. -/
def settled (present : Bool) (updates : List (Update α)) (a : α) : Bool :=
  updates.foldl (fun p u => if u.key = a then u.holds else p) present

/-- No update is about `a`. -/
def Quiet (updates : List (Update α)) (a : α) : Prop := ∀ u ∈ updates, u.key ≠ a

variable {present : Bool} {updates more : List (Update α)} {a : α} {u : Update α}

theorem settled_append :
    settled present (updates ++ more) a = settled (settled present updates a) more a :=
  List.foldl_append

theorem settled_cons :
    settled present (u :: updates) a =
      settled (if u.key = a then u.holds else present) updates a := rfl

theorem settled_quiet (quiet : Quiet updates a) : settled present updates a = present := by
  induction updates with
  | nil => rfl
  | cons u updates ih =>
      rw [settled_cons, if_neg (quiet u List.mem_cons_self)]
      exact ih fun v member => quiet v (List.mem_cons_of_mem u member)

/-- A pending update decides, whether the element is there now or not. -/
theorem settled_pending (pending : ¬Quiet updates a) (present' : Bool) :
    settled present updates a = settled present' updates a := by
  induction updates generalizing present present' with
  | nil => exact absurd (fun u member => absurd member List.not_mem_nil) pending
  | cons u updates ih =>
      rw [settled_cons, settled_cons]
      by_cases own : u.key = a
      · rw [if_pos own, if_pos own]
      · rw [if_neg own, if_neg own]
        refine ih ?_ present'
        intro quiet
        refine pending fun v member => ?_
        rcases List.mem_cons.mp member with rfl | later
        · exact own
        · exact quiet v later

/-- An update counts when only updates of other elements follow. -/
theorem settled_last (last : Quiet more u.key) :
    settled present (updates ++ u :: more) u.key = u.holds := by
  rw [settled_append, settled_cons, if_pos rfl, settled_quiet last]

/-- It does not matter for the other elements. -/
theorem settled_other (other : u.key ≠ a) :
    settled present (updates ++ u :: more) a = settled present (updates ++ more) a := by
  rw [settled_append, settled_cons, if_neg other, settled_append]

/-- What an update which is put in says about its element, when no later one does. -/
theorem settled_insert (last : Quiet more u.key) :
    settled present (updates ++ u :: more) a =
      if u.key = a then u.holds else settled present (updates ++ more) a := by
  split
  · rename_i own
    subst own
    exact settled_last last
  · rename_i other
    exact settled_other other

omit [DecidableEq α] in
theorem Quiet.append (h : Quiet updates a) (h' : Quiet more a) : Quiet (updates ++ more) a :=
  fun u member => (List.mem_append.mp member).elim (h u) (h' u)

end Pending
