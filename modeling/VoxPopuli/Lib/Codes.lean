import Mathlib

/-! # Codes of several symbols

A decoder which reads a code word of one or several symbols at a time, and puts a mark for
every symbol where no code word starts. The symbols behind the first of a word start no word
themselves, so a stream decodes piece by piece exactly where no word lies across a cut.
-/

universe u v

/-- What the first symbol and the ones behind it stand for, and how many of those behind it
    belong to the word. -/
structure Code (α : Type u) (β : Type v) [DecidableEq β] where
  word : α → List α → Option (List β × Nat)
  mark : β
  /-- A word is a word whatever is behind it. -/
  own : ∀ {b s u n}, word b s = some (u, n) →
    n ≤ s.length ∧ ∀ t, word b (s.take n ++ t) = some (u, n)
  /-- A part of a word is none. -/
  part : ∀ {b s u n}, word b s = some (u, n) → ∀ m < n, word b (s.take m) = none
  /-- No word starts inside a word. -/
  inner : ∀ {b s u n}, word b s = some (u, n) → ∀ c ∈ s.take n, ∀ t, word c t = none
  /-- A word has fewer marks than symbols. -/
  fewer : ∀ {b s u n}, word b s = some (u, n) → 0 < n → u.count mark ≤ n

namespace Code

variable {α : Type u} {β : Type v} [DecidableEq β] (code : Code α β)

/-- The first symbols belong to a word which has been read. -/
def decodeFrom : Nat → List α → List β
  | _, [] => []
  | k + 1, _ :: s => decodeFrom k s
  | 0, b :: s =>
      match code.word b s with
      | some (u, n) => u ++ decodeFrom n s
      | none => code.mark :: decodeFrom 0 s

def decode (s : List α) : List β := code.decodeFrom 0 s

/-- A word begins in `s` and ends in `t`. -/
def across : List α → List α → Bool
  | [], _ => false
  | b :: s, t => ((code.word b (s ++ t)).any fun w => s.length < w.2) || across s t

variable {code}

theorem decodeFrom_eq (k : Nat) (s : List α) : code.decodeFrom k s = code.decode (s.drop k) := by
  induction s generalizing k with
  | nil => cases k <;> simp [decode, decodeFrom]
  | cons b s ih =>
      cases k with
      | zero => rfl
      | succ k => exact ih k

@[simp] theorem decode_nil : code.decode [] = [] := rfl

theorem decode_word {b : α} {s : List α} {u : List β} {n : Nat}
    (found : code.word b s = some (u, n)) :
    code.decode (b :: s) = u ++ code.decode (s.drop n) := by
  rw [← decodeFrom_eq, decode, decodeFrom, found]

theorem decode_mark {b : α} {s : List α} (none : code.word b s = none) :
    code.decode (b :: s) = code.mark :: code.decode s := by
  rw [decode, decodeFrom, none]
  rfl

/-- A word stays one when more follows. -/
theorem word_longer {b : α} {s : List α} {u : List β} {n : Nat}
    (found : code.word b s = some (u, n)) (t : List α) : code.word b (s ++ t) = some (u, n) := by
  have again := (code.own found).2 (s.drop n ++ t)
  rwa [← List.append_assoc, List.take_append_drop] at again

/-- Where no word starts in `s ++ t`, none starts in `s`. -/
theorem word_none {b : α} {s t : List α} (none : code.word b (s ++ t) = none) :
    code.word b s = Option.none := by
  cases found : code.word b s with
  | none => rfl
  | some w =>
      rw [word_longer found t] at none
      cases none

theorem word_append {b : α} {s t : List α} {u : List β} {n : Nat}
    (found : code.word b (s ++ t) = some (u, n)) (inside : n ≤ s.length) :
    code.word b s = some (u, n) := by
  have again := (code.own found).2 (s.drop n)
  rwa [List.take_append_of_le_length inside, List.take_append_drop] at again

theorem across_drop {s t : List α} (n : Nat) (apart : code.across s t = false) :
    code.across (s.drop n) t = false := by
  induction s generalizing n with
  | nil => simpa using apart
  | cons b s ih =>
      cases n with
      | zero => exact apart
      | succ n => exact ih n (Bool.or_eq_false_iff.mp apart).2

/-- A word across a cut is one whatever follows. -/
theorem across_append {s t : List α} (cut : code.across s t) (r : List α) :
    code.across s (t ++ r) := by
  induction s with
  | nil => exact cut
  | cons b s ih =>
      rcases Bool.or_eq_true_iff.mp cut with here | later
      · obtain ⟨w, found, long⟩ := (Option.any_eq_true _ _).mp here
        rw [across, ← List.append_assoc, word_longer found r, Option.any_some, long, Bool.true_or]
      · rw [across, ih later, Bool.or_true]

/-- A stream decodes piece by piece where no word lies across the cut. -/
theorem decode_append {s t : List α} (apart : code.across s t = false) :
    code.decode (s ++ t) = code.decode s ++ code.decode t := by
  induction length : s.length using Nat.strong_induction_on generalizing s with
  | _ k ih =>
      cases s with
      | nil => rfl
      | cons b s =>
          have shorter : s.length < k := by simp [← length]
          cases found : code.word b (s ++ t) with
          | none =>
              rw [List.cons_append, decode_mark found, decode_mark (word_none found),
                ih _ shorter (Bool.or_eq_false_iff.mp apart).2 rfl, List.cons_append]
          | some w =>
              obtain ⟨u, n⟩ := w
              have inside : n ≤ s.length := by
                have ends := (Bool.or_eq_false_iff.mp apart).1
                simpa [found] using ends
              have rest : (s.drop n).length < k := by
                rw [List.length_drop]
                omega
              rw [List.cons_append, decode_word found, decode_word (word_append found inside),
                List.drop_append_of_le_length inside,
                ih _ rest (across_drop n (Bool.or_eq_false_iff.mp apart).2) rfl, List.append_assoc]

/-- Symbols which start no word are marked one by one. -/
theorem decode_marks {s t : List α} (noWord : ∀ c ∈ s, ∀ t, code.word c t = none) :
    code.decode (s ++ t) = List.replicate s.length code.mark ++ code.decode t := by
  induction s with
  | nil => rfl
  | cons b s ih =>
      rw [List.cons_append, decode_mark (noWord b List.mem_cons_self _),
        ih fun c member => noWord c (List.mem_cons_of_mem b member)]
      rfl

/-- Behind a word no symbol of it starts a word which lies across a cut. -/
theorem across_of_inner {s t : List α} {n : Nat} (inside : n ≤ s.length)
    (noWord : ∀ c ∈ s.take n, ∀ t, code.word c t = none) (cut : code.across s t) :
    code.across (s.drop n) t := by
  induction s generalizing n with
  | nil => simp [across] at cut
  | cons b s ih =>
      cases n with
      | zero => exact cut
      | succ n =>
          have first := noWord b (by simp) (s ++ t)
          rw [across, first] at cut
          exact ih (by simpa using inside) (fun c member => noWord c (by simp [member]))
            (by simpa using cut)

/-- A cut through a word adds marks. -/
theorem count_decode_lt {s t : List α} (cut : code.across s t) :
    (code.decode (s ++ t)).count code.mark <
      (code.decode s).count code.mark + (code.decode t).count code.mark := by
  induction length : s.length using Nat.strong_induction_on generalizing s with
  | _ k ih =>
      cases s with
      | nil => simp [across] at cut
      | cons b s =>
          have shorter : s.length < k := by simp [← length]
          cases found : code.word b (s ++ t) with
          | none =>
              rw [across, found] at cut
              have later := ih _ shorter (by simpa using cut) rfl
              rw [List.cons_append, decode_mark found, decode_mark (word_none found),
                List.count_cons_self, List.count_cons_self]
              omega
          | some w =>
              obtain ⟨u, n⟩ := w
              obtain ⟨fits, -⟩ := code.own found
              have noWord := code.inner found
              rw [List.cons_append, decode_word found, List.count_append]
              by_cases inside : n ≤ s.length
              · -- The word ends in `s`: the cut goes through one behind it.
                rw [across, found] at cut
                have behind : code.across s t := by simpa [Nat.not_lt.mpr inside] using cut
                rw [List.take_append_of_le_length inside] at noWord
                have later := ih (s.drop n).length (by rw [List.length_drop]; omega)
                  (across_of_inner inside noWord behind) rfl
                rw [decode_word (word_append found inside), List.count_append,
                  List.drop_append_of_le_length inside]
                omega
              · -- The word itself is cut: all its symbols are marked.
                obtain ⟨m, rfl⟩ := Nat.exists_eq_add_of_le (Nat.le_of_not_le inside)
                have few := code.fewer found (by omega)
                have broken : code.word b s = none := by
                  have none := code.part found s.length (by omega)
                  rwa [List.take_left] at none
                rw [List.take_length_add_append] at noWord
                have front := decode_marks (t := [])
                  fun c member => noWord c (List.mem_append_left _ member)
                have back := decode_marks (t := t.drop m)
                  fun c member => noWord c (List.mem_append_right _ member)
                have known : m ≤ t.length := by
                  rw [List.length_append] at fits
                  omega
                rw [List.append_nil] at front
                rw [List.take_append_drop, List.length_take_of_le known] at back
                rw [decode_mark broken, front, back, List.drop_append, List.count_cons_self,
                  List.count_append, List.count_append, List.count_replicate_self,
                  List.count_replicate_self, decode_nil, List.count_nil,
                  List.drop_eq_nil_of_le (by omega), List.nil_append, Nat.add_sub_cancel_left]
                have positive : 0 < m := by omega
                omega

/-- A symbol which always starts a word lies in no other one. -/
theorem across_cons {s t : List α} {c : α} (starts : ∀ t, (code.word c t).isSome) :
    code.across s (c :: t) = false := by
  induction s with
  | nil => rfl
  | cons b s ih =>
      rw [across, ih, Bool.or_false]
      cases found : code.word b (s ++ c :: t) with
      | none => rfl
      | some w =>
          obtain ⟨u, n⟩ := w
          by_contra long
          have long : s.length < n := by simpa using long
          have member : c ∈ (s ++ c :: t).take n := by
            obtain ⟨m, rfl⟩ := Nat.exists_eq_add_of_lt long
            rw [Nat.add_assoc, List.take_length_add_append]
            simp
          have none := code.inner found c member []
          simpa [none] using starts []

/-! ## Streams in parts -/

/-- No word lies across the cuts behind `before` and between the parts. -/
def seamless (code : Code α β) (before : List α) : List (List α) → Bool
  | [] => true
  | part :: rest =>
      !code.across before (part :: rest).flatten && seamless code (before ++ part) rest

/-- Nothing is cut in front of nothing. -/
theorem across_nil (s : List α) : code.across s [] = false := by
  induction s with
  | nil => rfl
  | cons b s ih =>
      rw [across, ih, Bool.or_false, List.append_nil]
      cases found : code.word b s with
      | none => rfl
      | some w => simpa using (code.own found).1

theorem across_of_seamless {before : List α} {parts : List (List α)}
    (whole : code.seamless before parts) : code.across before parts.flatten = false := by
  cases parts with
  | nil => exact across_nil before
  | cons part rest => simpa using (Bool.and_eq_true_iff.mp whole).1

theorem decode_flatten {before : List α} {parts : List (List α)}
    (whole : code.seamless before parts) :
    code.decode (before ++ parts.flatten) = code.decode before ++ parts.flatMap code.decode := by
  induction parts generalizing before with
  | nil => simp
  | cons part rest ih =>
      have apart := across_of_seamless whole
      have later := (Bool.and_eq_true_iff.mp whole).2
      have front : code.across before part = false := by
        by_contra cut
        have cut : code.across before part := by simpa using cut
        rw [List.flatten_cons, across_append cut] at apart
        cases apart
      rw [List.flatten_cons, ← List.append_assoc, ih later, decode_append front,
        List.flatMap_cons, List.append_assoc]

theorem count_decode_append_le (s t : List α) :
    (code.decode (s ++ t)).count code.mark ≤
      (code.decode s).count code.mark + (code.decode t).count code.mark := by
  cases cut : code.across s t with
  | true => exact (count_decode_lt cut).le
  | false => rw [decode_append cut, List.count_append]

theorem count_decode_flatten_le (parts : List (List α)) :
    (code.decode parts.flatten).count code.mark ≤
      (parts.flatMap code.decode).count code.mark := by
  induction parts with
  | nil => simp
  | cons part rest ih =>
      rw [List.flatten_cons, List.flatMap_cons, List.count_append]
      exact (count_decode_append_le part rest.flatten).trans (Nat.add_le_add_left ih _)

/-- Decoding the parts one by one gives no new marks only if no word lies across a cut. -/
theorem seamless_of_count {before : List α} {parts : List (List α)}
    (same : (code.decode before).count code.mark + (parts.flatMap code.decode).count code.mark ≤
      (code.decode (before ++ parts.flatten)).count code.mark) :
    code.seamless before parts := by
  induction parts generalizing before with
  | nil => rfl
  | cons part rest ih =>
      rw [List.flatMap_cons, List.count_append] at same
      have joined : (code.decode (before ++ part)).count code.mark ≤ _ :=
        count_decode_append_le before part
      have behind : (code.decode (part ++ rest.flatten)).count code.mark ≤ _ :=
        count_decode_append_le part rest.flatten
      have others : (code.decode rest.flatten).count code.mark ≤ _ := count_decode_flatten_le rest
      have apart : code.across before (part :: rest).flatten = false := by
        by_contra cut
        have cut : code.across before (part :: rest).flatten := by simpa using cut
        have more := count_decode_lt cut
        rw [List.flatten_cons] at more same
        omega
      have later : code.seamless (before ++ part) rest := by
        apply ih
        rw [List.flatten_cons, ← List.append_assoc] at same
        omega
      rw [seamless, apart, later]
      rfl

end Code
