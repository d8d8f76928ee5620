import Mathlib

/-! # Streams cut at a delimiter

A receiver which collects symbols until a delimiter ends a block. What it has
delivered and what it still holds are functions of the whole stream, so they
compose over any way of cutting the stream into pieces; a list of blocks without
the delimiter survives being sent with one delimiter after each.
-/

universe u

namespace Delimited

variable {α : Type u} [DecidableEq α]

/-- The blocks ended in a stream, the first of them starting with `pending`. -/
def blocks (d : α) (pending : List α) : List α → List (List α)
  | [] => []
  | x :: rest => if x = d then pending :: blocks d [] rest else blocks d (pending ++ [x]) rest

/-- What follows the last delimiter. -/
def remainder (d : α) (pending : List α) : List α → List α
  | [] => pending
  | x :: rest => if x = d then remainder d [] rest else remainder d (pending ++ [x]) rest

/-- The stream of a list of blocks. -/
def encode (d : α) (bs : List (List α)) : List α := bs.flatMap fun b => b ++ [d]

variable {d : α}

theorem blocks_append (pending s t : List α) :
    blocks d pending (s ++ t) = blocks d pending s ++ blocks d (remainder d pending s) t := by
  induction s generalizing pending with
  | nil => rfl
  | cons x s ih =>
      simp only [List.cons_append, blocks, remainder]
      split
      · rw [ih, List.cons_append]
      · exact ih _

theorem remainder_append (pending s t : List α) :
    remainder d pending (s ++ t) = remainder d (remainder d pending s) t := by
  induction s generalizing pending with
  | nil => rfl
  | cons x s ih =>
      simp only [List.cons_append, remainder]
      split <;> exact ih _

/-- Every delimiter ends exactly one block. -/
theorem length_blocks (pending s : List α) : (blocks d pending s).length = s.count d := by
  induction s generalizing pending with
  | nil => rfl
  | cons x s ih =>
      simp only [blocks]
      split
      · rename_i same
        simp [same, ih]
      · rename_i different
        simp [different, ih]

theorem blocks_of_not_mem {s : List α} (h : d ∉ s) (pending : List α) :
    blocks d pending s = [] := by
  rw [← List.length_eq_zero_iff, length_blocks, List.count_eq_zero_of_not_mem h]

theorem remainder_of_not_mem {s : List α} (h : d ∉ s) (pending : List α) :
    remainder d pending s = pending ++ s := by
  induction s generalizing pending with
  | nil => simp [remainder]
  | cons x s ih =>
      have ⟨different, absent⟩ : d ≠ x ∧ d ∉ s := by simpa using h
      simp only [remainder, Ne.symm different, if_false]
      rw [ih absent]
      simp

/-- A stream is recovered from its blocks and its remainder. -/
theorem encode_blocks_append_remainder (pending s : List α) :
    encode d (blocks d pending s) ++ remainder d pending s = pending ++ s := by
  induction s generalizing pending with
  | nil => simp [encode, blocks, remainder]
  | cons x s ih =>
      simp only [blocks, remainder]
      split
      · rename_i same
        subst same
        have tail := ih []
        simp only [encode, List.flatMap_cons, List.append_assoc, List.nil_append] at tail ⊢
        rw [tail]
        simp
      · simpa using ih (pending ++ [x])

theorem not_mem_remainder {pending s : List α} (free : d ∉ pending) :
    d ∉ remainder d pending s := by
  induction s generalizing pending with
  | nil => exact free
  | cons x s ih =>
      rw [remainder]
      split
      · exact ih (by simp)
      · rename_i different
        refine ih ?_
        simpa [Ne.symm different] using free

theorem remainder_encode {bs : List (List α)} (free : ∀ b ∈ bs, d ∉ b) :
    remainder d [] (encode d bs) = [] := by
  induction bs with
  | nil => rfl
  | cons b bs ih =>
      have tail := ih fun b' member => free b' (List.mem_cons_of_mem b member)
      rw [encode, List.flatMap_cons, remainder_append, remainder_append,
        remainder_of_not_mem (free b List.mem_cons_self)]
      simpa [remainder, encode] using tail

/-- Sending blocks and cutting the stream again is the identity. -/
theorem blocks_encode {bs : List (List α)} (free : ∀ b ∈ bs, d ∉ b) :
    blocks d [] (encode d bs) = bs := by
  induction bs with
  | nil => rfl
  | cons b bs ih =>
      have absent := free b List.mem_cons_self
      have tail := ih fun b' member => free b' (List.mem_cons_of_mem b member)
      have head : blocks d [] (b ++ [d]) = [b] := by
        rw [blocks_append, blocks_of_not_mem absent, remainder_of_not_mem absent]
        simp [blocks]
      have done : remainder d [] (b ++ [d]) = [] := by
        rw [remainder_append]
        simp [remainder]
      rw [encode, List.flatMap_cons, blocks_append, head, done, List.singleton_append]
      exact congrArg (b :: ·) tail

/-- A nonempty stream with nothing left over ends a block. -/
theorem exists_block {pending s : List α} {x : α} (complete : remainder d pending (x :: s) = []) :
    ∃ b bs, blocks d pending (x :: s) = b :: bs := by
  cases ended : blocks d pending (x :: s) with
  | nil =>
      have whole := encode_blocks_append_remainder (d := d) pending (x :: s)
      rw [ended, complete] at whole
      simp [encode] at whole
  | cons b bs => exact ⟨b, bs, rfl⟩

/-- A block which ends later starts with what is pending now. -/
theorem pending_isPrefix {pending s b : List α} {bs : List (List α)}
    (h : blocks d pending s = b :: bs) : pending <+: b := by
  induction s generalizing pending with
  | nil => simp [blocks] at h
  | cons x s ih =>
      simp only [blocks] at h
      split at h
      · rw [(List.cons.inj h).1]
      · exact (List.prefix_append pending [x]).trans (ih h)

/-- The blocks and the remainder are the segments between the delimiters. -/
theorem blocks_concat_remainder {pending : List α} (free : d ∉ pending) (s : List α) :
    blocks d pending s ++ [remainder d pending s] = (pending ++ s).splitOn d := by
  induction s generalizing pending with
  | nil => simpa [blocks, remainder] using (List.splitOn_eq_singleton free).symm
  | cons x s ih =>
      simp only [blocks, remainder]
      split
      · rename_i same
        subst same
        rw [List.cons_append, ih (by simp), List.splitOn_append_cons_self_of_not_mem free]
        simp
      · rename_i different
        rw [ih (by simpa [Ne.symm different] using free)]
        simp

theorem length_splitOn (d : α) (s : List α) : (s.splitOn d).length = s.count d + 1 := by
  have parts := blocks_concat_remainder (d := d) List.not_mem_nil s
  rw [List.nil_append] at parts
  rw [← parts, List.length_append, length_blocks, List.length_singleton]

/-! ## Text of lines -/

omit [DecidableEq α] in
theorem foldl_encode (d : α) (bs : List (List α)) (acc : List α) :
    bs.foldl (fun acc b => acc ++ (b ++ [d])) acc = acc ++ encode d bs := by
  induction bs generalizing acc with
  | nil => simp [encode]
  | cons b bs ih =>
      rw [List.foldl_cons, ih, encode, encode, List.flatMap_cons, List.append_assoc]

omit [DecidableEq α] in
theorem encode_eq_intercalate {bs : List (List α)} (some : bs ≠ []) :
    encode d bs = [d].intercalate bs ++ [d] := by
  induction bs with
  | nil => exact absurd rfl some
  | cons b bs ih =>
      cases bs with
      | nil => simp [encode]
      | cons b' bs =>
          have tail := ih (by simp)
          rw [encode, List.flatMap_cons, ← encode, tail, List.intercalate_cons_cons]
          simp

/-- Removing a character everywhere takes the delimiter off the end exactly when it is the
    delimiter, and occurs nowhere else. -/
theorem filter_concat_eq_iff (t : List α) (c : α) :
    (t ++ [d]).filter (· ≠ c) = t ↔ d = c ∧ d ∉ t := by
  constructor
  · intro same
    by_cases last : d = c
    · subst last
      refine ⟨rfl, fun member => ?_⟩
      rw [← same] at member
      simpa using (List.mem_filter.mp member).2
    · -- The delimiter stays, so the text would end with it and be free of `c`, and one longer.
      have free : ∀ x ∈ t, x ≠ c := fun x member => by
        rw [← same] at member
        simpa using (List.mem_filter.mp member).2
      have all : (t ++ [d]).filter (· ≠ c) = t ++ [d] := by
        rw [List.filter_eq_self]
        intro x member
        rcases List.mem_append.mp member with inside | end'
        · simpa using free x inside
        · simpa [List.mem_singleton.mp end'] using last
      simpa using congrArg List.length (all.symm.trans same)
  · rintro ⟨rfl, free⟩
    have kept : t.filter (· ≠ d) = t := by
      rw [List.filter_eq_self]
      intro x member
      simpa using fun same : x = d => free (same ▸ member)
    rw [List.filter_append, kept]
    simp

end Delimited
