import VoxPopuli.Lib.SortedMap

/-! # Adjacency rows

A many-to-many relation is often kept twice: for each left key the ordered list
of its partners, and the same again from the right. One side is a map to rows.
`Tidy` rows have no duplicates and are never empty; two maps are `Converse` when
they describe the same pairs. The update rules say which single-row changes keep
the two sides in agreement, and what a row is after a whole key is unlinked.
-/

universe u v

namespace Rows

variable {κ : Type u} {ν : Type v} [LinearOrder κ]

/-- The partners of a key; a missing key has none. -/
def row (m : SortedMap κ (List ν)) (k : κ) : List ν := (m.find? k).getD []

theorem row_of_find? {m : SortedMap κ (List ν)} {k : κ} {l : List ν} (h : m.find? k = some l) :
    row m k = l := by
  simp [row, h]

@[simp] theorem row_empty (k : κ) : row (∅ : SortedMap κ (List ν)) k = [] := rfl

@[simp] theorem row_erase_self (m : SortedMap κ (List ν)) (k : κ) : row (m.erase k) k = [] := by
  simp [row]

@[simp] theorem row_erase_of_ne (m : SortedMap κ (List ν)) {k k' : κ} (h : k' ≠ k) :
    row (m.erase k) k' = row m k' := by
  simp [row, h]

structure Tidy (m : SortedMap κ (List ν)) : Prop where
  nodup : ∀ k, (row m k).Nodup
  nonempty : ∀ k, m.find? k ≠ some []

theorem tidy_empty : Tidy (∅ : SortedMap κ (List ν)) := ⟨by simp, by simp⟩

theorem Tidy.find?_eq_none {m : SortedMap κ (List ν)} (tidy : Tidy m) {k : κ} :
    m.find? k = none ↔ row m k = [] := by
  constructor
  · intro missing
    simp [row, missing]
  · intro none
    cases found : m.find? k with
    | none => rfl
    | some l =>
        have := row_of_find? found
        exact absurd (found.trans (by rw [← this, none])) (tidy.nonempty k)

theorem Tidy.find?_eq_some {m : SortedMap κ (List ν)} (tidy : Tidy m) {k : κ} (h : row m k ≠ []) :
    m.find? k = some (row m k) := by
  cases found : m.find? k with
  | none => exact absurd (tidy.find?_eq_none.mp found) h
  | some l => rw [row_of_find? found]

theorem Tidy.erase {m : SortedMap κ (List ν)} (tidy : Tidy m) (k : κ) : Tidy (m.erase k) where
  nodup k' := by
    by_cases same : k' = k
    · simp [same]
    · simpa [same] using tidy.nodup k'
  nonempty k' := by
    by_cases same : k' = k
    · simp [same]
    · simpa [same] using tidy.nonempty k'

/-- Tidy maps are determined by their rows. -/
theorem Tidy.ext {m m' : SortedMap κ (List ν)} (tidy : Tidy m) (tidy' : Tidy m')
    (h : ∀ k, row m k = row m' k) : m = m' := by
  apply SortedMap.ext_find?
  intro k
  by_cases none : row m k = []
  · rw [tidy.find?_eq_none.mpr none, tidy'.find?_eq_none.mpr (h k ▸ none)]
  · rw [tidy.find?_eq_some none, tidy'.find?_eq_some (h k ▸ none), h k]

section Link

variable [DecidableEq ν]

/-- The keys of the rows which have a partner. -/
def holders (es : List (κ × List ν)) (x : ν) : List κ :=
  (es.filter fun e => x ∈ e.2).map Prod.fst

omit [LinearOrder κ] in
theorem holders_cons (k : κ) (l : List ν) (es : List (κ × List ν)) (x : ν) :
    holders ((k, l) :: es) x = if x ∈ l then k :: holders es x else holders es x := by
  by_cases member : x ∈ l <;> simp [holders, member]

theorem holders_sorted (m : SortedMap κ (List ν)) (x : ν) :
    (holders m.entries x).Pairwise (· < ·) :=
  (m.sorted.sublist List.filter_sublist).map _ fun _ _ below => below

/-- Remove the first occurrence. -/
def removeOne (l : List ν) (x : ν) : List ν := l.erase x

/-- Append a partner to the row of a key, creating the row when it is missing;
    `none` when the partner is there already. -/
def link? (m : SortedMap κ (List ν)) (k : κ) (x : ν) : Option (SortedMap κ (List ν)) :=
  match m.find? k with
  | none => some (m.insert k [x])
  | some l => if x ∈ l then none else some (m.insert k (l ++ [x]))

/-- Remove a partner from the row of a key, and the row when it becomes empty. -/
def unlink (m : SortedMap κ (List ν)) (k : κ) (x : ν) : SortedMap κ (List ν) :=
  let rest := removeOne (row m k) x
  if rest = [] then m.erase k else m.insert k rest

theorem link?_eq_none {m : SortedMap κ (List ν)} {k : κ} {x : ν} :
    link? m k x = none ↔ x ∈ row m k := by
  unfold link? row
  cases m.find? k with
  | none => simp
  | some l => simp

theorem link?_eq_some {m m' : SortedMap κ (List ν)} {k : κ} {x : ν} (h : link? m k x = some m') :
    x ∉ row m k ∧ m' = m.insert k (row m k ++ [x]) := by
  unfold link? at h
  unfold row
  cases found : m.find? k with
  | none => simpa [found, eq_comm] using h
  | some l =>
      simp only [found] at h
      split at h
      · cases h
      · rename_i fresh
        exact ⟨by simpa using fresh, by simpa using (Option.some.inj h).symm⟩

theorem row_link? {m m' : SortedMap κ (List ν)} {k : κ} {x : ν} (h : link? m k x = some m')
    (k' : κ) : row m' k' = if k' = k then row m k ++ [x] else row m k' := by
  obtain ⟨-, rfl⟩ := link?_eq_some h
  by_cases same : k' = k
  · simp [row, same]
  · simp [row, same]

theorem row_unlink (m : SortedMap κ (List ν)) (k : κ) (x : ν) (k' : κ) :
    row (unlink m k x) k' = if k' = k then removeOne (row m k) x else row m k' := by
  unfold unlink
  by_cases same : k' = k
  · subst same
    simp only [if_true]
    split
    · rename_i emptied
      rw [row_erase_self, emptied]
    · exact row_of_find? (SortedMap.find?_insert_self ..)
  · simp only [same, if_false]
    split
    · exact row_erase_of_ne m same
    · simp [row, same]

theorem Tidy.link? {m m' : SortedMap κ (List ν)} (tidy : Tidy m) {k : κ} {x : ν}
    (h : link? m k x = some m') : Tidy m' where
  nodup k' := by
    rw [row_link? h]
    split
    · exact List.nodup_append.mpr ⟨tidy.nodup k, by simp, by
        intro a member b single
        rw [List.mem_singleton.mp single]
        rintro rfl
        exact (link?_eq_some h).1 member⟩
    · exact tidy.nodup k'
  nonempty k' := by
    obtain ⟨-, rfl⟩ := link?_eq_some h
    by_cases same : k' = k
    · simp [same]
    · simpa [same] using tidy.nonempty k'

theorem Tidy.unlink {m : SortedMap κ (List ν)} (tidy : Tidy m) (k : κ) (x : ν) :
    Tidy (unlink m k x) where
  nodup k' := by
    rw [row_unlink]
    split
    · exact (tidy.nodup k).erase x
    · exact tidy.nodup k'
  nonempty k' := by
    unfold Rows.unlink
    by_cases same : k' = k
    · subst same
      simp only
      split
      · simp
      · rename_i remaining
        rw [SortedMap.find?_insert_self]
        exact fun emptied => remaining (Option.some.inj emptied)
    · simp only
      split
      · simpa [same] using tidy.nonempty k'
      · simpa [same] using tidy.nonempty k'

/-- Unlinking a partner which is not there changes nothing. -/
theorem unlink_of_not_mem {m : SortedMap κ (List ν)} (tidy : Tidy m) {k : κ} {x : ν}
    (h : x ∉ row m k) : unlink m k x = m := by
  apply SortedMap.ext_find?
  intro k'
  simp only [unlink, removeOne, List.erase_of_not_mem h]
  by_cases same : k' = k
  · subst same
    split
    · rename_i emptied
      rw [SortedMap.find?_erase_self, tidy.find?_eq_none.mpr emptied]
    · rename_i remaining
      rw [SortedMap.find?_insert_self, tidy.find?_eq_some remaining]
  · split <;> simp [same]

/-- In a tidy map a partner is unlinked exactly by losing its membership. -/
theorem mem_row_unlink {m : SortedMap κ (List ν)} (tidy : Tidy m) {k k' : κ} {x x' : ν} :
    x' ∈ row (unlink m k x) k' ↔ x' ∈ row m k' ∧ ¬(k' = k ∧ x' = x) := by
  rw [row_unlink]
  by_cases same : k' = k
  · subst same
    rw [if_pos rfl, removeOne, (tidy.nodup k').mem_erase_iff]
    tauto
  · simp [same]

theorem mem_row_link? {m m' : SortedMap κ (List ν)} {k k' : κ} {x x' : ν}
    (h : link? m k x = some m') :
    x' ∈ row m' k' ↔ x' ∈ row m k' ∨ (k' = k ∧ x' = x) := by
  rw [row_link? h]
  by_cases same : k' = k
  · subst same
    simp
  · simp [same]

/-- Unlink one partner from several keys, one key after the other. -/
def unlinkAll (m : SortedMap κ (List ν)) (ks : List κ) (x : ν) : SortedMap κ (List ν) :=
  ks.foldl (fun m k => unlink m k x) m

theorem Tidy.unlinkAll {m : SortedMap κ (List ν)} (tidy : Tidy m) (ks : List κ) (x : ν) :
    Tidy (unlinkAll m ks x) := by
  induction ks generalizing m with
  | nil => exact tidy
  | cons k ks ih => exact ih (tidy.unlink k x)

theorem mem_row_unlinkAll {m : SortedMap κ (List ν)} (tidy : Tidy m) {ks : List κ} {k' : κ}
    {x x' : ν} : x' ∈ row (unlinkAll m ks x) k' ↔ x' ∈ row m k' ∧ ¬(k' ∈ ks ∧ x' = x) := by
  induction ks generalizing m with
  | nil => simp [unlinkAll]
  | cons k ks ih =>
      have step := ih (tidy.unlink k x)
      rw [mem_row_unlink tidy] at step
      simp only [unlinkAll, List.foldl_cons, List.mem_cons] at step ⊢
      rw [step]
      tauto

end Link

section Converse

variable [LinearOrder ν]

/-- Two tidy maps which describe the same pairs. -/
structure Converse (m : SortedMap κ (List ν)) (m' : SortedMap ν (List κ)) : Prop where
  tidy : Tidy m
  tidy' : Tidy m'
  mem_iff : ∀ k x, x ∈ row m k ↔ k ∈ row m' x

theorem converse_empty : Converse (∅ : SortedMap κ (List ν)) ∅ :=
  ⟨tidy_empty, tidy_empty, by simp⟩

theorem Converse.symm {m : SortedMap κ (List ν)} {m' : SortedMap ν (List κ)}
    (h : Converse m m') : Converse m' m :=
  ⟨h.tidy', h.tidy, fun x k => (h.mem_iff k x).symm⟩

variable [DecidableEq κ]

/-- Dropping a whole row and unlinking its key from every partner keeps the two
    sides converse. -/
theorem Converse.erase {m : SortedMap κ (List ν)} {m' : SortedMap ν (List κ)}
    (h : Converse m m') (k : κ) : Converse (m.erase k) (unlinkAll m' (row m k) k) where
  tidy := h.tidy.erase k
  tidy' := h.tidy'.unlinkAll _ k
  mem_iff k₁ x₁ := by
    rw [mem_row_unlinkAll h.tidy', h.mem_iff k x₁]
    by_cases same : k₁ = k
    · subst same
      simp
    · simp [same, h.mem_iff]

variable [DecidableEq ν]

theorem Converse.link? {m n : SortedMap κ (List ν)} {m' n' : SortedMap ν (List κ)}
    (h : Converse m m') {k : κ} {x : ν} (left : link? m k x = some n)
    (right : link? m' x k = some n') : Converse n n' where
  tidy := h.tidy.link? left
  tidy' := h.tidy'.link? right
  mem_iff k₁ x₁ := by
    rw [mem_row_link? left, mem_row_link? right, h.mem_iff]
    tauto

theorem Converse.unlink {m : SortedMap κ (List ν)} {m' : SortedMap ν (List κ)}
    (h : Converse m m') (k : κ) (x : ν) : Converse (unlink m k x) (Rows.unlink m' x k) where
  tidy := h.tidy.unlink k x
  tidy' := h.tidy'.unlink x k
  mem_iff k₁ x₁ := by
    rw [mem_row_unlink h.tidy, mem_row_unlink h.tidy', h.mem_iff]
    tauto

end Converse

end Rows
