import Mathlib

/-! # How a fallible computation ends

`Ends err x post` is a postcondition for a computation in `Except`: its result
satisfies `post`, and an error it raises satisfies `err`. With no error allowed
it is total correctness, with every error allowed partial correctness; in
between, `err` singles out the errors which must not occur.
-/

universe u v

variable {ε α β : Type u}

def Ends (err : ε → Prop) (x : Except ε α) (post : α → Prop) : Prop :=
  match x with
  | .ok a => post a
  | .error e => err e

instance {err : ε → Prop} {post : α → Prop} [DecidablePred err] [DecidablePred post] :
    (x : Except ε α) → Decidable (Ends err x post)
  | .ok a => inferInstanceAs (Decidable (post a))
  | .error e => inferInstanceAs (Decidable (err e))

@[simp] theorem ends_pure {err : ε → Prop} {a : α} {post : α → Prop} :
    Ends err (pure a) post ↔ post a := Iff.rfl

@[simp] theorem ends_ok {err : ε → Prop} {a : α} {post : α → Prop} :
    Ends err (.ok a) post ↔ post a := Iff.rfl

@[simp] theorem ends_throw {err : ε → Prop} {e : ε} {post : α → Prop} :
    Ends err (throw e) post ↔ err e := Iff.rfl

/-- With no error allowed the computation has a result. -/
theorem ends_total {x : Except ε α} {post : α → Prop} :
    Ends (fun _ => False) x post ↔ ∃ a, x = .ok a ∧ post a := by
  cases x <;> simp [Ends]

/-- With every error allowed only the results matter. -/
theorem ends_whenever {x : Except ε α} {post : α → Prop} :
    Ends (fun _ => True) x post ↔ ∀ a, x = .ok a → post a := by
  cases x <;> simp [Ends]

/-- A result of two computations in a row is one of the second. -/
theorem bind_eq_ok {x : Except ε α} {f : α → Except ε β} {b : β} :
    x >>= f = .ok b ↔ ∃ a, x = .ok a ∧ f a = .ok b := by
  cases x <;> simp [bind, Except.bind]

namespace Ends

variable {err err' : ε → Prop} {x : Except ε α} {post post' : α → Prop}

theorem mono (h : Ends err x post) (weaker : ∀ a, post a → post' a) : Ends err x post' := by
  cases x with
  | ok a => exact weaker a h
  | error e => exact h

theorem mono_err (h : Ends err x post) (weaker : ∀ e, err e → err' e) : Ends err' x post := by
  cases x with
  | ok a => exact h
  | error e => exact weaker e h

/-- Every error may be allowed. -/
theorem of_any (h : Ends err x post) : Ends (fun _ => True) x post := h.mono_err fun _ _ => trivial

theorem and (h : Ends err x post) (h' : Ends err x post') :
    Ends err x fun a => post a ∧ post' a := by
  cases x with
  | ok a => exact ⟨h, h'⟩
  | error e => exact h

/-- The errors and the results may be looked at one after the other. -/
theorem join (errors : Ends err x fun _ => True) (results : Ends (fun _ => True) x post) :
    Ends err x post := by
  cases x with
  | ok a => exact results
  | error e => exact errors

theorem of_ok (h : Ends err x post) {a : α} (run : x = .ok a) : post a := by
  subst run
  exact h

theorem of_error (h : Ends err x post) {e : ε} (run : x = .error e) : err e := by
  subst run
  exact h

theorem bind {f : α → Except ε β} {post : β → Prop} {M : α → Prop} (first : Ends err x M)
    (next : ∀ a, M a → Ends err (f a) post) : Ends err (x >>= f) post := by
  cases x with
  | ok a => exact next a first
  | error e => exact first

theorem map {f : α → β} {post : β → Prop} (h : Ends err x fun a => post (f a)) :
    Ends err (f <$> x) post := by
  cases x with
  | ok a => exact h
  | error e => exact h

/-- A loop over a list. The invariant speaks about the elements still to come. -/
theorem foldlM {ι : Type v} {f : α → ι → Except ε α} {I : List ι → α → Prop} {l : List ι}
    {a : α} (start : I l a)
    (step : ∀ i rest a, I (i :: rest) a → Ends err (f a i) (I rest)) :
    Ends err (l.foldlM f a) (I []) := by
  induction l generalizing a with
  | nil => exact start
  | cons i rest ih =>
      rw [List.foldlM_cons]
      exact bind (step i rest a start) fun a kept => ih kept

end Ends
