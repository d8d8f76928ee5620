import VoxPopuli.Lib.Ends

/-! # Runs of a fallible step

A run takes step after step until the events are used up or a step fails. A condition may
be asked of every step, in the state which the step is taken from; an invariant which the
steps keep that meet the condition then holds in every state a run reaches.
-/

universe u v

namespace Runs

variable {σ : Type u} {ι : Type v} {ε : Type u} {step : σ → ι → Except ε σ}

/-- Every step of the run from `s` meets `C` in the state it is taken from. -/
def Throughout (step : σ → ι → Except ε σ) (C : σ → ι → Prop) (s : σ) : List ι → Prop
  | [] => True
  | i :: rest => C s i ∧ ∀ s', step s i = .ok s' → Throughout step C s' rest

/-- The run from `s` comes through `s'`. -/
inductive Reaches (step : σ → ι → Except ε σ) : σ → List ι → σ → Prop where
  | here (s : σ) (is : List ι) : Reaches step s is s
  | there {s s' s'' : σ} {i : ι} {rest : List ι} (first : step s i = .ok s')
      (later : Reaches step s' rest s'') : Reaches step s (i :: rest) s''

variable {C : σ → ι → Prop} {I : σ → Prop} {s s' : σ} {is : List ι}

/-- A finished run comes through its last state. -/
theorem Reaches.of_run (run : is.foldlM step s = .ok s') : Reaches step s is s' := by
  induction is generalizing s with
  | nil =>
      cases run
      exact .here _ []
  | cons i rest ih =>
      rw [List.foldlM_cons] at run
      cases first : step s i with
      | error e =>
          rw [first] at run
          cases run
      | ok s₁ =>
          rw [first] at run
          exact .there first (ih run)

/-- The invariant rule. -/
theorem Reaches.invariant (h : Reaches step s is s') (start : I s)
    (every : Throughout step C s is)
    (keeps : ∀ s i s', I s → C s i → step s i = .ok s' → I s') : I s' := by
  induction h with
  | here s is => exact start
  | there first later ih => exact ih (keeps _ _ _ start every.1 first) (every.2 _ first)

/-- The invariant rule for what every step keeps. -/
theorem Reaches.always (h : Reaches step s is s') (start : I s)
    (keeps : ∀ s i s', I s → step s i = .ok s' → I s') : I s' := by
  induction h with
  | here s is => exact start
  | there first later ih => exact ih (keeps _ _ _ start first)

/-- When the steps which keep `I` and do not fail badly are exactly those which meet `C`, a run
    of admissible steps stays in `I` without a bad end exactly when all of its steps meet `C`. -/
theorem sound_iff {J : σ → Prop} {A : σ → ι → Prop} {bad : ε → Prop} (start : I s) (side : J s)
    (admissible : Throughout step A s is)
    (keeps : ∀ s i s', J s → I s → A s i → step s i = .ok s' → J s')
    (meets : ∀ s i s', J s → I s → A s i → step s i = .ok s' → (I s' ↔ C s i))
    (safe : ∀ s i e, J s → I s → A s i → step s i = .error e → (¬ bad e ↔ C s i)) :
    ((∀ s', Reaches step s is s' → I s') ∧ ∀ e, is.foldlM step s = .error e → ¬ bad e) ↔
      Throughout step C s is := by
  induction is generalizing s with
  | nil =>
      refine iff_of_true ⟨fun s' reached => ?_, fun e failed => by cases failed⟩ trivial
      cases reached
      exact start
  | cons i rest ih =>
      obtain ⟨here, later⟩ := admissible
      cases first : step s i with
      | error e =>
          have met := safe s i e side start here first
          rw [List.foldlM_cons, first, Throughout, ← met]
          constructor
          · rintro ⟨-, good⟩
            exact ⟨good e rfl, fun s₁ other => by cases first.symm.trans other⟩
          · rintro ⟨good, -⟩
            refine ⟨fun s' reached => ?_, fun e' failed => ?_⟩
            · cases reached with
              | here => exact start
              | there other => cases first.symm.trans other
            · cases failed
              exact good
      | ok s₁ =>
          have met := meets s i s₁ side start here first
          have side₁ := keeps s i s₁ side start here first
          rw [List.foldlM_cons, first, Throughout, ← met]
          constructor
          · rintro ⟨inside, good⟩
            have start₁ := inside s₁ (.there first (.here s₁ rest))
            refine ⟨start₁, fun s₂ same => ?_⟩
            cases first.symm.trans same
            exact (ih start₁ side₁ (later s₁ first)).mp
              ⟨fun s' reached => inside s' (.there first reached), good⟩
          · rintro ⟨start₁, every⟩
            obtain ⟨inside, good⟩ := (ih start₁ side₁ (later s₁ first)).mpr (every s₁ first)
            refine ⟨fun s' reached => ?_, good⟩
            cases reached with
            | here => exact start
            | there same reached =>
                cases first.symm.trans same
                exact inside s' reached

/-- Every step may be admissible. -/
theorem throughout_true : Throughout step (fun _ _ => True) s is := by
  induction is generalizing s with
  | nil => trivial
  | cons i rest ih => exact ⟨trivial, fun s' _ => ih⟩

/-- When the steps which keep `I` are exactly those which meet `C`, a run stays in `I`
    exactly when all of its steps meet `C`. -/
theorem reaches_iff {J : σ → Prop} (start : I s) (side : J s)
    (keeps : ∀ s i s', J s → step s i = .ok s' → J s')
    (meets : ∀ s i s', J s → I s → step s i = .ok s' → (I s' ↔ C s i))
    (safe : ∀ s i e, J s → step s i = .error e → C s i) :
    (∀ s', Reaches step s is s' → I s') ↔ Throughout step C s is := by
  have sound : ((∀ s', Reaches step s is s' → I s') ∧
      ∀ e, is.foldlM step s = .error e → ¬ False) ↔ Throughout step C s is :=
    sound_iff start side throughout_true (fun s i s' inside _ _ => keeps s i s' inside)
      (fun s i s' inside holds _ => meets s i s' inside holds)
      (fun s i e inside _ _ failed => iff_of_true id (safe s i e inside failed))
  simpa using sound

/-- A run stays in `I` exactly when it starts there and every step comes back to it. -/
theorem reaches_iff_throughout : (∀ s', Reaches step s is s' → I s') ↔
    I s ∧ Throughout step (fun s i => ∀ s', step s i = .ok s' → I s') s is := by
  constructor
  · intro inside
    refine ⟨inside s (.here s is), ?_⟩
    induction is generalizing s with
    | nil => trivial
    | cons i rest ih =>
        refine ⟨fun s' first => inside s' (.there first (.here s' rest)), fun s' first => ?_⟩
        exact ih fun s'' later => inside s'' (.there first later)
  · intro h s' reached
    exact reached.invariant h.1 h.2 fun s i s' _ back first => back s' first

theorem throughout_and {D : σ → ι → Prop} :
    Throughout step C s is ∧ Throughout step D s is ↔
      Throughout step (fun s i => C s i ∧ D s i) s is := by
  induction is generalizing s with
  | nil => simp [Throughout]
  | cons i rest ih =>
      simp only [Throughout, ← ih]
      constructor
      · intro h
        exact ⟨⟨h.1.1, h.2.1⟩, fun s' first => ⟨h.1.2 s' first, h.2.2 s' first⟩⟩
      · intro h
        exact ⟨⟨h.1.1, fun s' first => (h.2 s' first).1⟩, h.1.2, fun s' first => (h.2 s' first).2⟩

/-- A step meets the condition in the state which the steps before it end in. -/
theorem Throughout.after {i : ι} {rest : List ι} (every : Throughout step C s (is ++ i :: rest))
    (run : is.foldlM step s = .ok s') : C s' i := by
  induction is generalizing s with
  | nil =>
      cases run
      exact every.1
  | cons j before ih =>
      rw [List.foldlM_cons] at run
      obtain ⟨s₁, first, later⟩ := bind_eq_ok.mp run
      exact ih (every.2 s₁ first) later

/-- What the invariant gives for one step holds of every step of the run. -/
theorem Throughout.implies {D : σ → ι → Prop} (every : Throughout step C s is) (start : I s)
    (keeps : ∀ s i s', I s → C s i → step s i = .ok s' → I s')
    (gives : ∀ s i, I s → C s i → D s i) : Throughout step D s is := by
  induction is generalizing s with
  | nil => trivial
  | cons i rest ih =>
      refine ⟨gives s i start every.1, fun s' first => ?_⟩
      exact ih (every.2 s' first) (keeps s i s' start every.1 first)

/-- Steps which keep the invariant and do not fail take a run to its end. -/
theorem Throughout.ends (every : Throughout step C s is) (start : I s)
    (keeps : ∀ s i, I s → C s i → Ends (fun _ => False) (step s i) I) :
    Ends (fun _ => False) (is.foldlM step s) I := by
  induction is generalizing s with
  | nil => exact start
  | cons i rest ih =>
      obtain ⟨s', first, inside⟩ := ends_total.mp (keeps s i start every.1)
      rw [List.foldlM_cons, first]
      exact ih (every.2 s' first) inside

/-- Conditions which agree in the states of an invariant agree throughout a run. -/
theorem throughout_congr {D : σ → ι → Prop} (start : I s) (same : ∀ s i, I s → (C s i ↔ D s i))
    (keeps : ∀ s i s', I s → C s i → step s i = .ok s' → I s') :
    Throughout step C s is ↔ Throughout step D s is := by
  induction is generalizing s with
  | nil => exact Iff.rfl
  | cons i rest ih =>
      simp only [Throughout, ← same s i start]
      refine and_congr_right fun here => forall_congr' fun s' => forall_congr' fun first => ?_
      exact ih (keeps s i s' start here first)

/-- Where a step fails exactly when it does not meet `D`, a run comes to its end exactly
    when all of its steps meet `D`. -/
theorem finishes_iff {D : σ → ι → Prop} (start : I s) (every : Throughout step C s is)
    (keeps : ∀ s i s', I s → C s i → step s i = .ok s' → I s')
    (ends : ∀ s i, I s → Ends (fun _ => ¬D s i) (step s i) fun _ => D s i) :
    (∃ s', is.foldlM step s = .ok s') ↔ Throughout step D s is := by
  induction is generalizing s with
  | nil => exact iff_of_true ⟨s, rfl⟩ trivial
  | cons i rest ih =>
      have first := ends s i start
      rw [List.foldlM_cons, Throughout]
      cases result : step s i with
      | error e =>
          rw [result] at first
          refine iff_of_false ?_ fun h => first h.1
          rintro ⟨s', run⟩
          cases run
      | ok s₁ =>
          rw [result] at first
          have later := ih (keeps s i s₁ start every.1 result) (every.2 s₁ result)
          refine later.trans ⟨fun h => ⟨first, fun s₂ same => ?_⟩, fun h => h.2 s₁ rfl⟩
          cases same
          exact h

end Runs
