import Mathlib

/-! # Numbers of a fixed width

A number as a fixed count of digits, the lowest one first, and back. A word of a machine is
written so in little endian order, and reversed in big endian order.
-/

namespace Numeral

variable {b : Nat} [NeZero b]

/-- The lowest `w` digits. -/
def digits (b : Nat) [NeZero b] : Nat → Nat → List (Fin b)
  | 0, _ => []
  | w + 1, n => Fin.ofNat b n :: digits b w (n / b)

def value : List (Fin b) → Nat
  | [] => 0
  | d :: ds => d + b * value ds

@[simp] theorem length_digits (w n : Nat) : (digits b w n).length = w := by
  induction w generalizing n with
  | zero => rfl
  | succ w ih => rw [digits, List.length_cons, ih]

theorem value_digits (w n : Nat) : value (digits b w n) = n % b ^ w := by
  induction w generalizing n with
  | zero => rw [pow_zero, Nat.mod_one]; rfl
  | succ w ih => rw [digits, value, ih, Fin.val_ofNat, pow_succ', Nat.mod_mul]

theorem value_digits_of_lt {w n : Nat} (small : n < b ^ w) : value (digits b w n) = n := by
  rw [value_digits, Nat.mod_eq_of_lt small]

omit [NeZero b] in
theorem value_lt (ds : List (Fin b)) : value ds < b ^ ds.length := by
  induction ds with
  | nil => exact Nat.one_pos
  | cons d ds ih =>
      have digit := d.isLt
      have more : b * value ds + b ≤ b * b ^ ds.length := by
        rw [← Nat.mul_succ]
        exact Nat.mul_le_mul_left b ih
      rw [value, List.length_cons, pow_succ']
      omega

end Numeral
