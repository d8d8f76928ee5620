import VoxPopuli.Concatenation
import VoxPopuli.Lib.While

/-! # `HexData` from text and as a number

The constructor for text makes room for two bytes a character and fills one of them. `toInt`
runs a counter of 64 bits down until it wraps, and sums in 32 bits what may be 32 bytes.
-/

namespace VoxPopuli

namespace HexData

/-- `HexData(const string&)`. -/
def ofString (data : StdString) : Except Fault HexData :=
  fill (List.replicate (2 * data.length) 0) data 0 data.length

/-- `HexData(const char*, size)`, of an array. -/
def ofArray (data : List Byte) (size : Nat) : Except Fault HexData :=
  fill (List.replicate size 0) data 0 size

/-- A turn of the loop of `toInt`, with the counter and the sum. -/
def toIntTurn (d : HexData) : Nat × Nat → (Nat × Nat) ⊕ Except Fault Nat
  | (i, r) =>
      if (i + 1) % 2 ^ 64 > 0 then
        match d[i]? with
        | some b => .inl ((i + (2 ^ 64 - 1)) % 2 ^ 64, (r * 256 % 2 ^ 32 + b.val) % 2 ^ 32)
        | none => .inr (.error .outOfRange)
      else .inr (.ok r)

/-- `toInt(r)`: what is returned, and what `r` is then. Fuel bounds the turns of the loop. -/
def toIntInto (fuel : Nat) (d : HexData) (r : Nat) : Option (Except Fault (Bool × Nat)) :=
  if d.length > 32 then some (.ok (false, r))
  else
    (While.run (toIntTurn d) fuel ((d.length + (2 ^ 64 - 1)) % 2 ^ 64, 0)).map
      (·.map fun r => (true, r))

/-- The number the bytes stand for, the least byte first. -/
def littleEndian (d : HexData) : Nat := (d.mapIdx fun i b => b.val * 256 ^ i).sum

/-! ## Text -/

/-- Behind the bytes of the text stand as many zeros. -/
theorem ofString_eq (data : StdString) : ofString data = .ok (Init.string data).data := by
  have room : data.length + (2 * data.length - data.length) = 2 * data.length := by omega
  rw [ofString, fill_eq, if_pos (.inr ⟨Nat.le_refl _, by simp; omega⟩)]
  simp only [List.take_zero, List.nil_append, List.take_length, Nat.zero_add, List.drop_replicate,
    Init.data]
  congr 3
  omega

/-- The constructor for an array keeps the bytes. -/
theorem ofArray_eq {data : List Byte} {size : Nat} (inside : size ≤ data.length) :
    ofArray data size = .ok (data.take size) := by
  rw [ofArray, fill_eq, if_pos (.inr ⟨inside, by simp⟩)]
  simp

theorem ofString_faithful_iff (s : StdString) :
    (ofString s = .ok s ∧ (ofString s).map strData = .ok s) ↔ s = [] := by
  rw [ofString_eq]
  constructor
  · rintro ⟨same, -⟩
    have bytes : s ++ List.replicate s.length 0 = s := Except.ok.inj same
    simpa using congrArg List.length bytes
  · rintro rfl
    exact ⟨rfl, rfl⟩

/-! ## The loop -/

/-- With `k` bytes to go the loop takes them in, the last of them first, and then the counter
    wraps. -/
theorem run_toIntTurn {d : HexData} (size : d.length < 2 ^ 64) {k : Nat} (inside : k ≤ d.length)
    (r fuel : Nat) :
    While.run (toIntTurn d) (k + 1 + fuel) ((k + (2 ^ 64 - 1)) % 2 ^ 64, r) =
      some (.ok ((d.take k).foldr (fun b r => (r * 256 + b.val) % 2 ^ 32) r)) := by
  induction k generalizing r with
  | zero =>
      have leaves : toIntTurn d ((0 + (2 ^ 64 - 1)) % 2 ^ 64, r) = .inr (.ok r) := by
        simp [toIntTurn]
      rw [Nat.add_comm, Nat.add_comm 0 1, ← Nat.add_assoc, Nat.add_zero, While.run, leaves]
      rfl
  | succ k ih =>
      have counter : (k + 1 + (2 ^ 64 - 1)) % 2 ^ 64 = k := by omega
      have here : d[k]? = some d[k] := List.getElem?_eq_getElem (by omega)
      have going : (k + 1) % 2 ^ 64 > 0 := by omega
      have goesOn : toIntTurn d (k, r) =
          .inl ((k + (2 ^ 64 - 1)) % 2 ^ 64, (r * 256 + d[k].val) % 2 ^ 32) := by
        simp only [toIntTurn, if_pos going, here, Nat.mod_add_mod]
      have turns : k + 1 + 1 + fuel = k + 1 + fuel + 1 := by omega
      rw [counter, turns, While.run, goesOn]
      simp only [ih (by omega), List.take_add_one, here, Option.toList_some, List.foldr_append,
        List.foldr_cons, List.foldr_nil]

/-- The sum of the loop is the number modulo `2 ^ 32`. -/
theorem foldr_eq_mod (d : HexData) :
    d.foldr (fun b r => (r * 256 + b.val) % 2 ^ 32) 0 =
      Nat.ofDigits 256 (d.map Fin.val) % 2 ^ 32 := by
  induction d with
  | nil => rfl
  | cons b d ih =>
      rw [List.foldr_cons, ih, List.map_cons, Nat.ofDigits_cons]
      push_cast
      omega

theorem littleEndian_eq (d : HexData) : littleEndian d = Nat.ofDigits 256 (d.map Fin.val) := by
  have terms : (d.map Fin.val).mapIdx (fun i a => a * 256 ^ i) =
      d.mapIdx fun i b => b.val * 256 ^ i := by
    apply List.ext_getElem?
    intro i
    simp [Option.map_map, Function.comp_def]
  rw [littleEndian, Nat.ofDigits_eq_sum_mapIdx, terms]

/-- For every length the loop ends: either it is not entered, or it ends within a turn for each
    byte and one more. -/
theorem toIntInto_eq (d : HexData) (r fuel : Nat) :
    toIntInto (d.length + 1 + fuel) d r =
      some (.ok (if d.length > 32 then (false, r) else (true, littleEndian d % 2 ^ 32))) := by
  unfold toIntInto
  split_ifs with long
  · rfl
  · rw [run_toIntTurn (by omega) (Nat.le_refl d.length), List.take_length, foldr_eq_mod,
      littleEndian_eq]
    rfl

/-- `toInt()` is what `toInt(r)` leaves in an `r` which is 0. -/
theorem toInt_eq (d : HexData) : d.toInt = if d.length > 32 then 0 else littleEndian d % 2 ^ 32 := by
  rw [HexData.toInt, foldr_eq_mod, littleEndian_eq]

/-! ## When the number fits -/

theorem littleEndian_lt_iff (d : HexData) : littleEndian d < 2 ^ 32 ↔ ∀ b ∈ d.drop 4, b = 0 := by
  have bytes : ∀ x ∈ (d.take 4).map Fin.val, x < 256 := by
    intro x member
    obtain ⟨b, -, rfl⟩ := List.mem_map.mp member
    exact b.isLt
  have low := Nat.ofDigits_lt_base_pow_length (by decide) bytes
  have few : ((d.take 4).map Fin.val).length ≤ 4 := by simp
  have bound : 256 ^ ((d.take 4).map Fin.val).length ≤ 2 ^ 32 :=
    (Nat.pow_le_pow_right (by decide) few).trans (by decide)
  have split : littleEndian d = Nat.ofDigits 256 ((d.take 4).map Fin.val) +
      256 ^ ((d.take 4).map Fin.val).length * Nat.ofDigits 256 ((d.drop 4).map Fin.val) := by
    rw [littleEndian_eq, ← Nat.ofDigits_append, ← List.map_append, List.take_append_drop]
  constructor
  · intro fits b member
    have long : 4 < d.length := by
      by_contra short
      simp [List.drop_eq_nil_of_le (by omega : d.length ≤ 4)] at member
    have four : ((d.take 4).map Fin.val).length = 4 := by
      simp
      omega
    rw [split, four] at fits
    have none : Nat.ofDigits 256 ((d.drop 4).map Fin.val) = 0 := by omega
    exact Fin.ext (Nat.digits_zero_of_eq_zero (by decide) none b.val
      (List.mem_map.mpr ⟨b, member, rfl⟩))
  · intro zeros
    have none : (d.drop 4).map Fin.val = List.replicate (d.drop 4).length 0 := by
      rw [List.eq_replicate_iff]
      refine ⟨by simp, fun x member => ?_⟩
      obtain ⟨b, there, rfl⟩ := List.mem_map.mp member
      rw [zeros b there]
      rfl
    have nothing : Nat.ofDigits 256 ((d.drop 4).map Fin.val) = 0 := by
      rw [none, ← List.nil_append (List.replicate _ 0), Nat.ofDigits_append_replicate_zero]
      rfl
    rw [split, nothing, Nat.mul_zero, Nat.add_zero]
    omega

/-- The conversions are faithful for the empty text only, and for the bytes which are too many
    for `toInt` or are zero from the fifth on; but `toInt` ends for all of them. -/
theorem conversions_iff (s : StdString) (b : HexData) (r : Nat) :
    ((ofString s = .ok s ∧ (ofString s).map strData = .ok s) ↔ s = []) ∧
      ∃ accepted number, (∃ fuel, toIntInto fuel b r = some (.ok (accepted, number))) ∧
        ((accepted = true → number = littleEndian b) ↔
          32 < b.length ∨ ∀ x ∈ b.drop 4, x = 0) := by
  refine ⟨ofString_faithful_iff s, ?_⟩
  have ends := toIntInto_eq b r 0
  by_cases long : b.length > 32
  · rw [if_pos long] at ends
    exact ⟨false, r, ⟨_, ends⟩, by simp [long]⟩
  · rw [if_neg long] at ends
    refine ⟨true, littleEndian b % 2 ^ 32, ⟨_, ends⟩, ?_⟩
    rw [← littleEndian_lt_iff]
    constructor
    · intro exact
      exact .inr ((exact rfl) ▸ Nat.mod_lt _ (by decide))
    · rintro (tooLong | fits) -
      · exact absurd tooLong long
      · exact Nat.mod_eq_of_lt fits

/-- A text of one character becomes two bytes, and five bytes wrap. -/
theorem conversions_unfaithful :
    (ofString [65]).map strData ≠ .ok [65] ∧
      toIntInto 6 [0, 0, 0, 0, 1] 0 = some (.ok (true, 0)) ∧
        littleEndian [0, 0, 0, 0, 1] = 2 ^ 32 := by
  refine ⟨fun same => ?_, rfl, rfl⟩
  exact absurd (Except.ok.inj same) (by decide)

end HexData

end VoxPopuli
