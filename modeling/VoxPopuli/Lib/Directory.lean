import Mathlib

/-! # Directories

A container keeps its children in a list and an entry for each of them under its name. The
names are distinct, so a child is known by its name. Another list may hold the same children
once more; the directory is complete when it does and no entry is left without a child.
-/

universe u v

variable {α : Type u} {κ : Type v}

/-- The children have distinct names, and there is an entry for each of them. -/
structure Listed (children : List α) (name : α → κ) (entry : κ → Prop) : Prop where
  nodup : (children.map name).Nodup
  entries : ∀ a ∈ children, entry (name a)

/-- The other list holds the same children, and every entry belongs to one of them. -/
structure Complete (children others : List α) (name : α → κ) (entry : κ → Prop) : Prop
    extends Listed children name entry where
  perm : others.Perm children
  only : ∀ k, entry k → k ∈ children.map name

variable {children children' others : List α} {name name' : α → κ} {entry entry' : κ → Prop} {a b : α}

namespace Listed

theorem nil (name : α → κ) (entry : κ → Prop) : Listed [] name entry :=
  ⟨List.nodup_nil, fun _ member => absurd member List.not_mem_nil⟩

theorem children_nodup (h : Listed children name entry) : children.Nodup := List.Nodup.of_map _ h.nodup

theorem inj (h : Listed children name entry) (inside : a ∈ children) (inside' : b ∈ children)
    (same : name a = name b) : a = b :=
  List.inj_on_of_nodup_map h.nodup inside inside' same

/-- The children keep their names and their entries. -/
theorem congr (h : Listed children name entry) (same : ∀ a ∈ children, name' a = name a)
    (kept : ∀ k, entry k → entry' k) : Listed children name' entry' := by
  refine ⟨?_, fun a member => ?_⟩
  · rw [List.map_congr_left same]
    exact h.nodup
  · rw [same a member]
    exact kept _ (h.entries a member)

theorem reorder (h : Listed children name entry) (perm : children'.Perm children) :
    Listed children' name entry :=
  ⟨(perm.map name).nodup_iff.mpr h.nodup, fun a member => h.entries a (perm.subset member)⟩

/-- A child joins under a name which no other has. -/
theorem append (h : Listed children name entry) (new : name a ∉ children.map name)
    (kept : ∀ k, entry k → entry' k) (own : entry' (name a)) :
    Listed (children ++ [a]) name entry' := by
  constructor
  · rw [List.map_append, List.map_singleton]
    exact List.nodup_append.mpr ⟨h.nodup, List.nodup_singleton _, fun k old k' single same =>
      new (List.mem_singleton.mp single ▸ same ▸ old)⟩
  · intro b member
    rcases List.mem_append.mp member with old | single
    · exact kept _ (h.entries b old)
    · rwa [List.mem_singleton.mp single]

section

variable [DecidableEq α]

/-- A child leaves, and its entry with it. -/
theorem erase (h : Listed children name entry) (inside : a ∈ children)
    (kept : ∀ k, k ≠ name a → entry k → entry' k) : Listed (children.erase a) name entry' := by
  refine ⟨h.nodup.sublist (List.erase_sublist.map name), fun b member => ?_⟩
  obtain ⟨other, old⟩ := h.children_nodup.mem_erase_iff.mp member
  exact kept _ (fun same => other (h.inj old inside same)) (h.entries b old)

end

/-- A child takes a name for which there is no entry. -/
theorem rename (h : Listed children name entry) (inside : a ∈ children)
    (same : ∀ b ∈ children, b ≠ a → name' b = name b) (free : ¬entry (name' a))
    (kept : ∀ k, k ≠ name a → entry k → entry' k) (own : entry' (name' a)) :
    Listed children name' entry' := by
  have taken : ∀ b ∈ children, name b ≠ name' a := fun b member named =>
    free (named ▸ h.entries b member)
  constructor
  · refine List.Nodup.map_on ?_ h.children_nodup
    intro b member b' member' named
    by_cases here : b = a
    · by_cases here' : b' = a
      · rw [here, here']
      · rw [here, same b' member' here'] at named
        exact absurd named.symm (taken b' member')
    · by_cases here' : b' = a
      · rw [here', same b member here] at named
        exact absurd named (taken b member)
      · rw [same b member here, same b' member' here'] at named
        exact h.inj member member' named
  · intro b member
    by_cases here : b = a
    · rwa [here]
    · rw [same b member here]
      exact kept _ (fun named => here (h.inj member inside named)) (h.entries b member)

end Listed

namespace Complete

theorem nil (name : α → κ) (none : ∀ k, ¬entry k) : Complete [] [] name entry :=
  ⟨.nil name entry, .refl _, fun k there => absurd there (none k)⟩

theorem entry_iff (h : Complete children others name entry) (k : κ) :
    entry k ↔ k ∈ children.map name := by
  refine ⟨h.only k, fun member => ?_⟩
  obtain ⟨a, inside, rfl⟩ := List.mem_map.mp member
  exact h.entries a inside

theorem congr (h : Complete children others name entry) (same : ∀ a ∈ children, name' a = name a)
    (entries : ∀ k, entry' k ↔ entry k) : Complete children others name' entry' where
  toListed := h.toListed.congr same fun k => (entries k).mpr
  perm := h.perm
  only k there := by
    rw [List.map_congr_left same]
    exact h.only k ((entries k).mp there)

theorem reorder (h : Complete children others name entry) (perm : children'.Perm children) :
    Complete children' others name entry where
  toListed := h.toListed.reorder perm
  perm := h.perm.trans perm.symm
  only k there := (perm.map name).symm.subset (h.only k there)

theorem append (h : Complete children others name entry) (new : name a ∉ children.map name)
    (entries : ∀ k, entry' k ↔ entry k ∨ k = name a) :
    Complete (children ++ [a]) (others ++ [a]) name entry' where
  toListed := h.toListed.append new (fun k there => (entries k).mpr (.inl there))
    ((entries _).mpr (.inr rfl))
  perm := h.perm.append_right [a]
  only k there := by
    rw [List.map_append, List.mem_append]
    exact ((entries k).mp there).imp (h.only k) fun own => List.mem_singleton.mpr own

theorem erase [DecidableEq α] (h : Complete children others name entry) (inside : a ∈ children)
    (entries : ∀ k, entry' k ↔ k ≠ name a ∧ entry k) :
    Complete (children.erase a) (others.erase a) name entry' where
  toListed := h.toListed.erase inside fun k other there => (entries k).mpr ⟨other, there⟩
  perm := h.perm.erase a
  only k there := by
    obtain ⟨other, old⟩ := (entries k).mp there
    obtain ⟨b, member, rfl⟩ := List.mem_map.mp (h.only k old)
    refine List.mem_map_of_mem (h.children_nodup.mem_erase_iff.mpr ⟨?_, member⟩)
    exact fun same => other (congrArg name same)

theorem rename (h : Complete children others name entry) (inside : a ∈ children)
    (same : ∀ b ∈ children, b ≠ a → name' b = name b) (free : ¬entry (name' a))
    (entries : ∀ k, entry' k ↔ k = name' a ∨ k ≠ name a ∧ entry k) :
    Complete children others name' entry' where
  toListed := h.toListed.rename inside same free
    (fun k other there => (entries k).mpr (.inr ⟨other, there⟩)) ((entries _).mpr (.inl rfl))
  perm := h.perm
  only k there := by
    rcases (entries k).mp there with rfl | ⟨other, old⟩
    · exact List.mem_map_of_mem inside
    · obtain ⟨b, member, rfl⟩ := List.mem_map.mp (h.only k old)
      have differ : b ≠ a := fun same => other (congrArg name same)
      exact List.mem_map.mpr ⟨b, member, same b member differ⟩

end Complete

/-! ## Keys -/

/-- All elements but one keep their keys. The keys are still distinct exactly when no other
    element has the key of that one. -/
theorem injOn_iff_of_apart {key key' : α → κ} {s s' : Set α} {x : α}
    (distinct : Set.InjOn key s) (same : ∀ a ∈ s', a ≠ x → a ∈ s ∧ key' a = key a) :
    Set.InjOn key' s' ↔ (x ∈ s' → ∀ a ∈ s', a ≠ x → key' a ≠ key' x) := by
  constructor
  · exact fun distinct' inside a inside' other shared => other (distinct' inside' inside shared)
  · intro alone a inside b inside' shared
    by_cases own : a = x
    · subst own
      by_contra differ
      exact alone inside b inside' (Ne.symm differ) shared.symm
    · by_cases own' : b = x
      · subst own'
        exact absurd shared (alone inside' a inside own)
      · obtain ⟨before, keeps⟩ := same a inside own
        obtain ⟨before', keeps'⟩ := same b inside' own'
        exact distinct before before' (keeps.symm.trans (shared.trans keeps'))

/-- Whatever the order, a search finds the same element when only one is sought. -/
theorem find?_perm {l l' : List α} {sought : α → Bool} (perm : l'.Perm l)
    (only : ∀ a ∈ l, ∀ b ∈ l, sought a → sought b → a = b) : l'.find? sought = l.find? sought := by
  cases found : l.find? sought with
  | none =>
      rw [List.find?_eq_none] at found ⊢
      exact fun a inside => found a (perm.subset inside)
  | some a =>
      have inside := List.mem_of_find?_eq_some found
      cases found' : l'.find? sought with
      | none =>
          exact absurd (List.find?_some found)
            (List.find?_eq_none.mp found' a (perm.symm.subset inside))
      | some b =>
          have inside' := perm.subset (List.mem_of_find?_eq_some found')
          rw [only b inside' a inside (List.find?_some found') (List.find?_some found)]
