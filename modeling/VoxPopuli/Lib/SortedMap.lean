import Mathlib

/-! # Ordered maps as sorted association lists

A dictionary whose iteration order is the key order, as red-black tree maps
offer it. The raw operations work on bare entry lists, so that an inductive type
may nest them; `SortedMap` packages the order invariant with the entries.
Lookups need no invariant, only extensionality does.
-/

universe u v

namespace Assoc

variable {κ : Type u} {ν : Type v} [LinearOrder κ]

/-- The value of a key, by the first entry which has it. -/
def lookup (k : κ) : List (κ × ν) → Option ν
  | [] => none
  | (k', x) :: rest => if k = k' then some x else lookup k rest

/-- Insert in key order, replacing the value of a key which is present. -/
def insert (k : κ) (x : ν) : List (κ × ν) → List (κ × ν)
  | [] => [(k, x)]
  | (k', x') :: rest =>
      if k < k' then (k, x) :: (k', x') :: rest
      else if k = k' then (k, x) :: rest
      else (k', x') :: insert k x rest

def erase (k : κ) (l : List (κ × ν)) : List (κ × ν) :=
  l.filter fun e => e.1 ≠ k

def Sorted (l : List (κ × ν)) : Prop :=
  l.Pairwise fun a b => a.1 < b.1

@[simp] theorem lookup_nil (k : κ) : lookup k ([] : List (κ × ν)) = none := rfl

@[simp] theorem lookup_cons_self (k : κ) (x : ν) (l : List (κ × ν)) :
    lookup k ((k, x) :: l) = some x :=
  if_pos rfl

theorem lookup_cons_of_ne {k k' : κ} (h : k' ≠ k) (x : ν) (l : List (κ × ν)) :
    lookup k' ((k, x) :: l) = lookup k' l :=
  if_neg h

/-- A lookup fails exactly when no entry has the key. -/
theorem lookup_eq_none_iff {k : κ} {l : List (κ × ν)} :
    lookup k l = none ↔ ∀ e ∈ l, e.1 ≠ k := by
  induction l with
  | nil => simp
  | cons e rest ih =>
      obtain ⟨k', x'⟩ := e
      by_cases same : k = k'
      · subst same
        simp
      · rw [lookup_cons_of_ne same, ih]
        simp [Ne.symm same]

@[simp] theorem lookup_insert_self (k : κ) (x : ν) (l : List (κ × ν)) :
    lookup k (insert k x l) = some x := by
  induction l with
  | nil => simp [insert]
  | cons e rest ih =>
      obtain ⟨k', x'⟩ := e
      simp only [insert]
      split
      · simp
      · split
        · simp
        · rename_i different
          rw [lookup_cons_of_ne different, ih]

@[simp] theorem lookup_insert_of_ne {k k' : κ} (h : k' ≠ k) (x : ν) (l : List (κ × ν)) :
    lookup k' (insert k x l) = lookup k' l := by
  induction l with
  | nil => exact lookup_cons_of_ne h x []
  | cons e rest ih =>
      obtain ⟨k'', x''⟩ := e
      simp only [insert]
      split
      · exact lookup_cons_of_ne h x _
      · split
        · rename_i same
          subst same
          rw [lookup_cons_of_ne h, lookup_cons_of_ne h]
        · simp only [lookup, ih]

theorem lookup_insert (k k' : κ) (x : ν) (l : List (κ × ν)) :
    lookup k' (insert k x l) = if k' = k then some x else lookup k' l := by
  by_cases h : k' = k
  · simp [h]
  · simp [h]

@[simp] theorem lookup_erase_self (k : κ) (l : List (κ × ν)) : lookup k (erase k l) = none := by
  rw [lookup_eq_none_iff]
  intro e member
  simpa using (List.mem_filter.mp member).2

@[simp] theorem lookup_erase_of_ne {k k' : κ} (h : k' ≠ k) (l : List (κ × ν)) :
    lookup k' (erase k l) = lookup k' l := by
  induction l with
  | nil => rfl
  | cons e rest ih =>
      obtain ⟨k'', x''⟩ := e
      by_cases same : k'' = k
      · subst same
        have dropped : erase k'' ((k'', x'') :: rest) = erase k'' rest := by simp [erase]
        rw [dropped, ih, lookup_cons_of_ne h]
      · have kept : erase k ((k'', x'') :: rest) = (k'', x'') :: erase k rest := by
          simp [erase, same]
        simp only [kept, lookup, ih]

theorem insert_insert (k : κ) (x y : ν) (l : List (κ × ν)) :
    insert k x (insert k y l) = insert k x l := by
  induction l with
  | nil => simp [insert]
  | cons e rest ih =>
      obtain ⟨k', x'⟩ := e
      simp only [insert]
      split
      · simp [insert]
      · split
        · simp [insert]
        · rename_i above other
          simp [insert, above, other, ih]

theorem mem_insert {k : κ} {x : ν} {e : κ × ν} {l : List (κ × ν)} (h : e ∈ insert k x l) :
    e = (k, x) ∨ e ∈ l := by
  induction l with
  | nil => simpa [insert] using h
  | cons e' rest ih =>
      obtain ⟨k', x'⟩ := e'
      simp only [insert] at h
      split at h
      · simpa using h
      · split at h
        · rcases List.mem_cons.mp h with rfl | h
          · exact .inl rfl
          · exact .inr (List.mem_cons_of_mem _ h)
        · rcases List.mem_cons.mp h with rfl | h
          · exact .inr List.mem_cons_self
          · exact (ih h).imp_right (List.mem_cons_of_mem _)

theorem insert_sorted (k : κ) (x : ν) {l : List (κ × ν)} (h : Sorted l) :
    Sorted (insert k x l) := by
  induction l with
  | nil => simp [insert, Sorted]
  | cons e rest ih =>
      obtain ⟨k', x'⟩ := e
      obtain ⟨least, tail⟩ := List.pairwise_cons.mp h
      simp only [insert]
      split
      · rename_i below
        refine List.pairwise_cons.mpr ⟨?_, h⟩
        intro e member
        rcases List.mem_cons.mp member with rfl | member
        · exact below
        · exact below.trans (least e member)
      · split
        · rename_i same
          subst same
          exact List.pairwise_cons.mpr ⟨least, tail⟩
        · rename_i notBelow different
          refine List.pairwise_cons.mpr ⟨?_, ih tail⟩
          intro e member
          rcases mem_insert member with rfl | member
          · exact lt_of_le_of_ne (not_lt.mp notBelow) (Ne.symm different)
          · exact least e member

theorem erase_sorted (k : κ) {l : List (κ × ν)} (h : Sorted l) : Sorted (erase k l) :=
  h.sublist List.filter_sublist

/-- The head key of a sorted list is absent from its tail. -/
theorem lookup_tail_head {e : κ × ν} {rest : List (κ × ν)} (h : Sorted (e :: rest)) {k : κ}
    (low : k ≤ e.1) : lookup k rest = none := by
  rw [lookup_eq_none_iff]
  intro e' member
  exact (lt_of_le_of_lt low ((List.pairwise_cons.mp h).1 e' member)).ne'

/-- In a sorted list an entry is found under its key. -/
theorem lookup_eq_some_iff {l : List (κ × ν)} (h : Sorted l) {k : κ} {x : ν} :
    lookup k l = some x ↔ (k, x) ∈ l := by
  induction l with
  | nil => simp
  | cons e rest ih =>
      obtain ⟨k', x'⟩ := e
      by_cases same : k = k'
      · subst same
        have absent : (k, x) ∉ rest := fun member =>
          lookup_eq_none_iff.mp (lookup_tail_head h le_rfl) _ member rfl
        simp [absent, eq_comm]
      · rw [lookup_cons_of_ne same, ih (List.pairwise_cons.mp h).2]
        simp [same]

/-- Sorted lists with the same lookups are equal. -/
theorem eq_of_lookup_eq {l₁ l₂ : List (κ × ν)} (h₁ : Sorted l₁) (h₂ : Sorted l₂)
    (h : ∀ k, lookup k l₁ = lookup k l₂) : l₁ = l₂ := by
  induction l₁ generalizing l₂ with
  | nil =>
      cases l₂ with
      | nil => rfl
      | cons e rest =>
          obtain ⟨k, x⟩ := e
          simpa using h k
  | cons e₁ rest₁ ih =>
      obtain ⟨k₁, x₁⟩ := e₁
      cases l₂ with
      | nil => simpa using h k₁
      | cons e₂ rest₂ =>
          obtain ⟨k₂, x₂⟩ := e₂
          -- A smaller head on either side would be missing on the other.
          have keys : k₁ = k₂ := by
            rcases lt_trichotomy k₁ k₂ with below | same | above
            · have := h k₁
              rw [lookup_cons_self, lookup_cons_of_ne below.ne,
                lookup_tail_head h₂ below.le] at this
              cases this
            · exact same
            · have := h k₂
              rw [lookup_cons_self, lookup_cons_of_ne above.ne,
                lookup_tail_head h₁ above.le] at this
              cases this
          subst keys
          have values : x₁ = x₂ := by simpa using h k₁
          subst values
          have tails : rest₁ = rest₂ := by
            apply ih (List.pairwise_cons.mp h₁).2 (List.pairwise_cons.mp h₂).2
            intro k
            by_cases same : k = k₁
            · subst same
              rw [lookup_tail_head h₁ le_rfl, lookup_tail_head h₂ le_rfl]
            · simpa only [lookup_cons_of_ne same] using h k
          rw [tails]

/-- Inserting the value which a key has already changes nothing. -/
theorem insert_of_lookup {l : List (κ × ν)} (h : Sorted l) {k : κ} {x : ν}
    (found : lookup k l = some x) : insert k x l = l := by
  refine eq_of_lookup_eq (insert_sorted k x h) h fun k' => ?_
  rw [lookup_insert]
  split
  · rename_i same
    rw [same, found]
  · rfl

/-! Values are replaced one by one, under their keys. -/

section MapValues

variable {μ : Type u}

def mapValues (f : ν → μ) (l : List (κ × ν)) : List (κ × μ) := l.map fun e => (e.1, f e.2)

omit [LinearOrder κ] in
@[simp] theorem mapValues_cons (f : ν → μ) (k : κ) (x : ν) (l : List (κ × ν)) :
    mapValues f ((k, x) :: l) = (k, f x) :: mapValues f l := rfl

theorem lookup_mapValues (f : ν → μ) (k : κ) (l : List (κ × ν)) :
    lookup k (mapValues f l) = (lookup k l).map f := by
  induction l with
  | nil => rfl
  | cons e rest ih =>
      obtain ⟨k', x'⟩ := e
      by_cases same : k = k'
      · simp [lookup, same]
      · simpa [lookup, same] using ih

theorem insert_mapValues (f : ν → μ) (k : κ) (x : ν) (l : List (κ × ν)) :
    insert k (f x) (mapValues f l) = mapValues f (insert k x l) := by
  induction l with
  | nil => rfl
  | cons e rest ih =>
      obtain ⟨k', x'⟩ := e
      simp only [insert, mapValues_cons]
      split
      · rfl
      · split
        · rfl
        · rw [ih, mapValues_cons]

theorem erase_mapValues (f : ν → μ) (k : κ) (l : List (κ × ν)) :
    erase k (mapValues f l) = mapValues f (erase k l) := by
  simp only [erase, mapValues, List.filter_map]
  rfl

end MapValues

end Assoc

/-- A map with its entries in strictly increasing key order. -/
structure SortedMap (κ : Type u) (ν : Type v) [LinearOrder κ] where
  entries : List (κ × ν)
  sorted : Assoc.Sorted entries
  deriving DecidableEq

namespace SortedMap

variable {κ : Type u} {ν : Type v} [LinearOrder κ]

def empty : SortedMap κ ν := ⟨[], List.Pairwise.nil⟩

instance : EmptyCollection (SortedMap κ ν) := ⟨empty⟩
instance : Inhabited (SortedMap κ ν) := ⟨empty⟩

def find? (m : SortedMap κ ν) (k : κ) : Option ν := Assoc.lookup k m.entries

def insert (m : SortedMap κ ν) (k : κ) (x : ν) : SortedMap κ ν :=
  ⟨Assoc.insert k x m.entries, Assoc.insert_sorted k x m.sorted⟩

def erase (m : SortedMap κ ν) (k : κ) : SortedMap κ ν :=
  ⟨Assoc.erase k m.entries, Assoc.erase_sorted k m.sorted⟩

def keys (m : SortedMap κ ν) : List κ := m.entries.map Prod.fst

def values (m : SortedMap κ ν) : List ν := m.entries.map Prod.snd

@[simp] theorem find?_empty (k : κ) : (∅ : SortedMap κ ν).find? k = none := rfl

@[simp] theorem find?_insert_self (m : SortedMap κ ν) (k : κ) (x : ν) :
    (m.insert k x).find? k = some x :=
  Assoc.lookup_insert_self k x m.entries

@[simp] theorem find?_insert_of_ne (m : SortedMap κ ν) {k k' : κ} (h : k' ≠ k) (x : ν) :
    (m.insert k x).find? k' = m.find? k' :=
  Assoc.lookup_insert_of_ne h x m.entries

@[simp] theorem find?_erase_self (m : SortedMap κ ν) (k : κ) : (m.erase k).find? k = none :=
  Assoc.lookup_erase_self k m.entries

@[simp] theorem find?_erase_of_ne (m : SortedMap κ ν) {k k' : κ} (h : k' ≠ k) :
    (m.erase k).find? k' = m.find? k' :=
  Assoc.lookup_erase_of_ne h m.entries

/-- A map is determined by its lookups. -/
theorem ext_find? {m₁ m₂ : SortedMap κ ν} (h : ∀ k, m₁.find? k = m₂.find? k) : m₁ = m₂ := by
  have same := Assoc.eq_of_lookup_eq m₁.sorted m₂.sorted h
  cases m₁
  cases m₂
  simpa using same

/-- Every value is replaced in its place. -/
def mapEntries {μ : Type*} (f : κ → ν → μ) (m : SortedMap κ ν) : SortedMap κ μ where
  entries := m.entries.map fun e => (e.1, f e.1 e.2)
  sorted := by
    rw [Assoc.Sorted, List.pairwise_map]
    exact m.sorted

theorem find?_mapEntries {μ : Type*} (f : κ → ν → μ) (m : SortedMap κ ν) (k : κ) :
    (m.mapEntries f).find? k = (m.find? k).map (f k) := by
  show Assoc.lookup k (m.entries.map fun e => (e.1, f e.1 e.2)) = (Assoc.lookup k m.entries).map (f k)
  induction m.entries with
  | nil => rfl
  | cons e rest ih =>
      obtain ⟨k', x⟩ := e
      by_cases same : k = k'
      · subst same
        simp
      · simp only [List.map_cons, Assoc.lookup_cons_of_ne same, ih]

@[simp] theorem keys_mapEntries {μ : Type*} (f : κ → ν → μ) (m : SortedMap κ ν) :
    (m.mapEntries f).keys = m.keys := by
  simp [keys, mapEntries, Function.comp_def]

/-! Keys. -/

theorem mem_keys {m : SortedMap κ ν} {k : κ} : k ∈ m.keys ↔ (m.find? k).isSome := by
  rw [Option.isSome_iff_ne_none, find?, ne_eq, Assoc.lookup_eq_none_iff]
  simp [keys]

theorem nodup_keys (m : SortedMap κ ν) : m.keys.Nodup :=
  List.pairwise_map.mpr (m.sorted.imp fun below => below.ne)

theorem keys_insert_perm {m : SortedMap κ ν} {k : κ} (new : k ∉ m.keys) (x : ν) :
    (m.insert k x).keys.Perm (k :: m.keys) := by
  apply (List.perm_ext_iff_of_nodup (nodup_keys _) (List.nodup_cons.mpr ⟨new, m.nodup_keys⟩)).mpr
  intro k'
  rw [mem_keys, List.mem_cons, mem_keys]
  by_cases same : k' = k
  · subst same
    simp
  · simp [same]

/-- Only a key which is there can be erased. -/
theorem erase_of_not_mem {m : SortedMap κ ν} {k : κ} (absent : k ∉ m.keys) : m.erase k = m := by
  apply ext_find?
  intro k'
  by_cases same : k' = k
  · subst same
    have gone : m.find? k' = none := by simpa [mem_keys] using absent
    rw [find?_erase_self, gone]
  · exact find?_erase_of_ne m same

/-- A value which is there already changes nothing. -/
theorem insert_of_find? {m : SortedMap κ ν} {k : κ} {x : ν} (there : m.find? k = some x) :
    m.insert k x = m := by
  apply ext_find?
  intro k'
  by_cases same : k' = k
  · subst same
    rw [find?_insert_self, there]
  · exact find?_insert_of_ne m same x

end SortedMap
