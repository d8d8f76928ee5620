import Mathlib

/-! # Variables which refer to cells

A heap of cells and variables which refer to them, against variables which have values of
their own. Binding a variable to a new cell and making it refer to the cell of another one
keep the two in step; changing a cell, giving it back and moving a variable to a new cell do
so exactly when no other variable refers to the cell.
-/

universe u v

/-- Cells in the order in which they were allocated; one which was given back has nothing. -/
structure Heap (α : Type u) where
  cells : List (Option α) := []

namespace Heap

variable {α : Type u}

def read (h : Heap α) (i : Nat) : Option α := h.cells[i]?.join

/-- A new cell and the heap with it. -/
def alloc (h : Heap α) (a : α) : Heap α × Nat := (⟨h.cells ++ [some a]⟩, h.cells.length)

def write (h : Heap α) (i : Nat) (a : α) : Heap α := ⟨h.cells.set i (some a)⟩

def free (h : Heap α) (i : Nat) : Heap α := ⟨h.cells.set i none⟩

variable {h : Heap α} {i j : Nat} {a b : α}

theorem lt_of_read (found : h.read i = some a) : i < h.cells.length := by
  by_contra outside
  rw [read, List.getElem?_eq_none (by omega)] at found
  cases found

@[simp] theorem read_alloc_self : (h.alloc a).1.read (h.alloc a).2 = some a := by
  simp [alloc, read]

theorem read_alloc_of_read (found : h.read i = some b) : (h.alloc a).1.read i = some b := by
  have inside := lt_of_read found
  rw [read] at found
  simpa [alloc, read, List.getElem?_append_left inside] using found

theorem alloc_ne_of_read (found : h.read i = some b) : (h.alloc a).2 ≠ i :=
  (lt_of_read found).ne'

theorem read_write_self (found : h.read i = some b) : (h.write i a).read i = some a := by
  simp [write, read, lt_of_read found]

theorem read_write_of_ne (other : i ≠ j) : (h.write i a).read j = h.read j := by
  simp [write, read, List.getElem?_set_ne other]

theorem read_free_self : (h.free i).read i = none := by
  rw [free, read, List.getElem?_set, if_pos rfl]
  split_ifs <;> rfl

theorem read_free_of_ne (other : i ≠ j) : (h.free i).read j = h.read j := by
  simp [free, read, List.getElem?_set_ne other]

theorem read_temporary (a : α) (j : Nat) :
    ((h.alloc a).1.free (h.alloc a).2).read j = h.read j := by
  simp only [alloc, free, read, List.set_append_right _ _ le_rfl, Nat.sub_self, List.set_cons_zero]
  by_cases inside : j < h.cells.length
  · rw [List.getElem?_append_left inside]
  · rw [List.getElem?_eq_none (not_lt.mp inside), List.getElem?_append_right (not_lt.mp inside)]
    cases j - h.cells.length <;> rfl

theorem write_self (found : h.read i = some a) : h.write i a = h := by
  have inside := lt_of_read found
  have same : some a = h.cells[i] := by
    rw [read, List.getElem?_eq_getElem inside] at found
    exact found.symm
  rw [write, same, List.set_getElem_self]

theorem write_write (i : Nat) (a b : α) : (h.write i a).write i b = h.write i b := by
  simp [write]

end Heap

/-- Variables and the cells they refer to. -/
structure References (ν : Type v) (α : Type u) where
  heap : Heap α := {}
  vars : ν → Option Nat := fun _ => none

namespace References

variable {ν : Type v} {α : Type u}

/-- A variable reads as the value it has. -/
structure Represents (s : References ν α) (values : ν → Option α) : Prop where
  live : ∀ x, s.vars x = none ↔ values x = none
  reads : ∀ x i, s.vars x = some i → s.heap.read i = values x

/-- Another variable refers to the same cell. -/
def Shared (s : References ν α) (x : ν) : Prop := ∃ y, y ≠ x ∧ s.vars y ≠ none ∧ s.vars y = s.vars x

variable {s : References ν α} {values : ν → Option α} {x y : ν} {i : Nat} {a b : α}

theorem Represents.empty : Represents ({} : References ν α) fun _ => none :=
  ⟨fun _ => iff_of_true rfl rfl, fun x i found => by cases found⟩

theorem Represents.lookup (h : Represents s values) (found : values x = some a) :
    ∃ i, s.vars x = some i ∧ s.heap.read i = some a := by
  cases ref : s.vars x with
  | none => simp [(h.live x).mp ref] at found
  | some i => exact ⟨i, rfl, (h.reads x i ref).trans found⟩

theorem Represents.value (h : Represents s values) (ref : s.vars x = some i) :
    ∃ a, values x = some a ∧ s.heap.read i = some a := by
  cases found : values x with
  | none => simp [(h.live x).mpr found] at ref
  | some a => exact ⟨a, rfl, (h.reads x i ref).trans found⟩

/-- A cell nobody refers to may come and go. -/
theorem represents_temporary (a : α) :
    Represents { s with heap := (s.heap.alloc a).1.free (s.heap.alloc a).2 } values ↔
      Represents s values := by
  constructor
  · rintro ⟨live, reads⟩
    exact ⟨live, fun y j ref => Heap.read_temporary (h := s.heap) a j ▸ reads y j ref⟩
  · rintro ⟨live, reads⟩
    exact ⟨live, fun y j ref => (Heap.read_temporary a j).trans (reads y j ref)⟩

theorem not_shared (ref : s.vars x = some i) (alone : ¬s.Shared x) (other : y ≠ x) :
    s.vars y ≠ some i := by
  intro same
  exact alone ⟨y, other, by simp [same], same.trans ref.symm⟩

variable [DecidableEq ν]

/-- The variable refers to a new cell. -/
theorem Represents.bind (h : Represents s values) (x : ν) (a : α) :
    Represents ⟨(s.heap.alloc a).1, Function.update s.vars x (some (s.heap.alloc a).2)⟩
      (Function.update values x (some a)) := by
  refine ⟨fun y => ?_, fun y j ref => ?_⟩
  · by_cases own : y = x
    · simp [own]
    · simp [own, h.live]
  · dsimp only at ref ⊢
    by_cases own : y = x
    · subst own
      rw [Function.update_self, Option.some.injEq] at ref
      rw [← ref, Function.update_self, Heap.read_alloc_self]
    · rw [Function.update_of_ne own] at ref ⊢
      obtain ⟨b, found, read⟩ := h.value ref
      rw [Heap.read_alloc_of_read read, found]

/-- The variable refers to the cell of another one. -/
theorem Represents.share (h : Represents s values) (x y : ν) :
    Represents ⟨s.heap, Function.update s.vars x (s.vars y)⟩
      (Function.update values x (values y)) := by
  refine ⟨fun z => ?_, fun z j ref => ?_⟩
  · by_cases own : z = x
    · simp [own, h.live]
    · simp [own, h.live]
  · dsimp only at ref ⊢
    by_cases own : z = x
    · subst own
      rw [Function.update_self] at ref ⊢
      exact h.reads y j ref
    · rw [Function.update_of_ne own] at ref ⊢
      exact h.reads z j ref

/-- The cell of the variable changes. -/
theorem Represents.write_iff (h : Represents s values) (ref : s.vars x = some i)
    (found : values x = some b) (a : α) :
    Represents ⟨s.heap.write i a, s.vars⟩ (Function.update values x (some a)) ↔
      a = b ∨ ¬s.Shared x := by
  have here : s.heap.read i = some b := (h.reads x i ref).trans found
  constructor
  · rintro h'
    by_contra neither
    obtain ⟨different, shared⟩ := not_or.mp neither
    obtain ⟨y, other, -, same⟩ := not_not.mp shared
    have ref' : s.vars y = some i := same.trans ref
    have old := h.reads y i ref'
    have new := h'.reads y i ref'
    rw [Function.update_of_ne other, Heap.read_write_self here, ← old, here] at new
    exact different (Option.some.inj new)
  · intro either
    refine ⟨fun y => ?_, fun y j ref' => ?_⟩
    · by_cases own : y = x
      · simp [own, ref]
      · simp [own, h.live]
    · dsimp only at ref' ⊢
      by_cases own : y = x
      · subst own
        obtain rfl : i = j := Option.some.inj (ref.symm.trans ref')
        rw [Function.update_self, Heap.read_write_self here]
      · rw [Function.update_of_ne own, ← h.reads y j ref']
        by_cases same : i = j
        · subst same
          rcases either with rfl | alone
          · rw [Heap.read_write_self here, here]
          · exact absurd ref' (not_shared ref alone own)
        · exact Heap.read_write_of_ne same

/-- The variable is gone and its cell is given back. -/
theorem Represents.drop_iff (h : Represents s values) (ref : s.vars x = some i) :
    Represents ⟨s.heap.free i, Function.update s.vars x .none⟩ (Function.update values x .none) ↔
      ¬s.Shared x := by
  constructor
  · rintro h' ⟨y, other, -, same⟩
    have ref' : s.vars y = some i := same.trans ref
    obtain ⟨a, found, -⟩ := h.value ref'
    have new := h'.reads y i (by simpa [other] using ref')
    simp [Heap.read_free_self, other, found] at new
  · intro alone
    refine ⟨fun y => ?_, fun y j ref' => ?_⟩
    · by_cases own : y = x
      · simp [own]
      · simp [own, h.live]
    · dsimp only at ref' ⊢
      by_cases own : y = x
      · simp [own] at ref'
      · rw [Function.update_of_ne own] at ref' ⊢
        have apart : i ≠ j := fun same => not_shared ref alone own (same ▸ ref')
        rw [Heap.read_free_of_ne apart, h.reads y j ref']

/-- The variable moves to a new cell and the old one is given back. -/
theorem Represents.replace_iff (h : Represents s values) (ref : s.vars x = some i) (a : α) :
    Represents ⟨(s.heap.alloc a).1.free i, Function.update s.vars x (some (s.heap.alloc a).2)⟩
        (Function.update values x (some a)) ↔ ¬s.Shared x := by
  obtain ⟨b, -, here⟩ := h.value ref
  constructor
  · rintro h' ⟨y, other, -, same⟩
    have ref' : s.vars y = some i := same.trans ref
    obtain ⟨c, found, -⟩ := h.value ref'
    have new := h'.reads y i (by simpa [other] using ref')
    simp [Heap.read_free_self, other, found] at new
  · intro alone
    have bound := h.bind x a
    refine ⟨bound.live, fun y j ref' => ?_⟩
    dsimp only at ref' ⊢
    rw [← bound.reads y j ref', Heap.read_free_of_ne]
    by_cases own : y = x
    · subst own
      rw [Function.update_self, Option.some.injEq] at ref'
      exact ref' ▸ (Heap.alloc_ne_of_read here).symm
    · rw [Function.update_of_ne own] at ref'
      exact fun same => not_shared ref alone own (same ▸ ref')

end References
