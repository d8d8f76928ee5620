import Mathlib

/-! # Loops which may not end

A `while` loop as the iteration of one turn, which either goes on with a new state
or leaves with a result. Fuel bounds the number of turns; a loop halts when some
amount of it is enough.
-/

universe u v

namespace While

variable {σ : Type u} {ρ : Type v}

def run (turn : σ → σ ⊕ ρ) : Nat → σ → Option ρ
  | 0, _ => none
  | fuel + 1, s =>
      match turn s with
      | .inl s => run turn fuel s
      | .inr r => some r

/-- The loop leaves with `r`. -/
def Yields (turn : σ → σ ⊕ ρ) (s : σ) (r : ρ) : Prop := ∃ fuel, run turn fuel s = some r

variable {turn : σ → σ ⊕ ρ}

theorem run_mono {s : σ} {r : ρ} {fuel fuel' : Nat} (h : run turn fuel s = some r)
    (more : fuel ≤ fuel') : run turn fuel' s = some r := by
  induction fuel generalizing s fuel' with
  | zero => simp [run] at h
  | succ fuel ih =>
      cases fuel' with
      | zero => omega
      | succ fuel' =>
          simp only [run] at h ⊢
          cases step : turn s with
          | inl s' =>
              simp only [step] at h
              exact ih h (by omega)
          | inr r' => simpa only [step] using h

theorem yields_of_inr {s : σ} {r r' : ρ} (leaves : turn s = .inr r') :
    Yields turn s r ↔ r' = r := by
  constructor
  · rintro ⟨fuel, h⟩
    cases fuel with
    | zero => simp [run] at h
    | succ fuel => simpa [run, leaves] using h
  · rintro rfl
    exact ⟨1, by simp [run, leaves]⟩

theorem yields_of_inl {s s' : σ} {r : ρ} (goesOn : turn s = .inl s') :
    Yields turn s r ↔ Yields turn s' r := by
  constructor
  · rintro ⟨fuel, h⟩
    cases fuel with
    | zero => simp [run] at h
    | succ fuel => exact ⟨fuel, by simpa [run, goesOn] using h⟩
  · rintro ⟨fuel, h⟩
    exact ⟨fuel + 1, by simpa [run, goesOn] using h⟩

/-- Induction on the turns of a loop which ends. -/
theorem Yields.induction {r : ρ} {motive : σ → Prop} {s : σ} (h : Yields turn s r)
    (leaves : ∀ s, turn s = .inr r → motive s)
    (goesOn : ∀ s s', turn s = .inl s' → Yields turn s' r → motive s' → motive s) : motive s := by
  obtain ⟨fuel, h⟩ := h
  induction fuel generalizing s with
  | zero => simp [run] at h
  | succ fuel ih =>
      simp only [run] at h
      cases step : turn s with
      | inl s' =>
          simp only [step] at h
          exact goesOn s s' step ⟨fuel, h⟩ (ih h)
      | inr r' =>
          simp only [step, Option.some.injEq] at h
          exact leaves s (h ▸ step)

/-- A loop whose turns keep `I` and shrink `size` ends within as many turns as the size says. -/
theorem run_total {I : σ → Prop} {post : ρ → Prop} (size : σ → Nat)
    (leaves : ∀ s r, I s → turn s = .inr r → post r)
    (goesOn : ∀ s s', I s → turn s = .inl s' → I s' ∧ size s' < size s)
    {s : σ} (start : I s) {fuel : Nat} (enough : size s < fuel) :
    ∃ r, run turn fuel s = some r ∧ post r := by
  induction fuel generalizing s with
  | zero => omega
  | succ fuel ih =>
      rw [run]
      cases step : turn s with
      | inl s' =>
          obtain ⟨kept, smaller⟩ := goesOn s s' start step
          exact ih kept (by omega)
      | inr r => exact ⟨r, rfl, leaves s r start step⟩

/-- A loop whose turns keep `value` and shrink `size` ends with `value`, within as
    many turns as the size says. -/
theorem run_eq_some {value : σ → ρ} (size : σ → Nat)
    (leaves : ∀ s r, turn s = .inr r → r = value s)
    (goesOn : ∀ s s', turn s = .inl s' → value s' = value s ∧ size s' < size s)
    (s : σ) {fuel : Nat} (enough : size s < fuel) : run turn fuel s = some (value s) := by
  have loop : ∃ r, run turn fuel s = some r ∧ r = value s :=
    run_total (I := fun s' => value s' = value s) size
      (fun s' r kept leaving => (leaves s' r leaving).trans kept)
      (fun s' s'' kept going => ⟨(goesOn s' s'' going).1.trans kept, (goesOn s' s'' going).2⟩)
      rfl enough
  obtain ⟨r, yields, rfl⟩ := loop
  exact yields

/-! ## Searching -/

/-- Counting up until `p` holds. -/
def search (p : Nat → Bool) (n : Nat) : Nat ⊕ Nat := if p n then .inr n else .inl (n + 1)

/-- The search ends at the first number from its start on for which `p` holds. -/
theorem yields_search {p : Nat → Bool} {n k : Nat} (start : n ≤ k) (found : p k)
    (before : ∀ m, n ≤ m → m < k → ¬p m) : Yields (search p) n k := by
  obtain ⟨d, rfl⟩ := Nat.exists_eq_add_of_le start
  induction d generalizing n with
  | zero =>
      have leaves : search p n = .inr n := if_pos found
      exact (yields_of_inr leaves).mpr rfl
  | succ d ih =>
      have goesOn : search p n = .inl (n + 1) := if_neg (before n (Nat.le_refl n) (by omega))
      rw [yields_of_inl goesOn]
      have later := @ih (n + 1)
      rw [Nat.add_assoc, Nat.add_comm 1 d] at later
      exact later (by omega) found fun m low high => before m (by omega) high

end While
