import Mathlib.Algebra.Order.Group.Int
import Mathlib.Tactic.LinearCombination
import Mathlib.Tactic.Ring

/-!
# Long Multiplication

The product of two integers from parts of them. With halves to a base there are four products
and two carries; `product_div_sq` and `product_mod_sq` are the upper and the lower part of the
result. With one factor bit by bit, the other one is doubled (`shift_add`), or a window over the
upper part of the sum moves up with the bits. An offset in every partial product keeps it from
being negative; `window_last` is the upper part of the result, and the offsets leave it through
its top.

The base, the window and the factors are arbitrary integers, and a division rounds down, so that
the upper half of a signed factor is signed and its lower half is not. The first part serves the
multipliers that work with halves, the second one the multiplier that works bit by bit.

## Main results

* `product_div`, `product_div_sq` and `product_mod_sq` — the parts of a product from the
  products of the halves;
* `shift_add` — one bit of a factor, with the other factor doubled;
* `window_succ` and `window_last` — one bit of a factor, with a window that moves, and the upper
  part of the product in the end.
-/

namespace LongMultiplication

/-! ### Halves -/

section Halves

variable (B pl ph ql qh : ℤ)

/-- The mixed products with the carry of the product of the low halves. -/
def mixed : ℤ := ph * ql + (pl * qh + pl * ql / B)

variable {B}

/-- The product above its lowest part. -/
theorem product_div (hB : 0 < B) :
    (ph * B + pl) * (qh * B + ql) / B = mixed B pl ph ql qh + ph * qh * B := by
  have hsplit : (ph * B + pl) * (qh * B + ql)
      = pl * ql + (ph * ql + pl * qh + ph * qh * B) * B := by ring
  rw [hsplit, Int.add_mul_ediv_right _ _ hB.ne', mixed]
  ring

/-- The upper part of the product. -/
theorem product_div_sq (hB : 0 < B) :
    (ph * B + pl) * (qh * B + ql) / (B * B) = ph * qh + mixed B pl ph ql qh / B := by
  rw [← Int.ediv_ediv_of_nonneg hB.le, product_div _ _ _ _ hB, Int.add_mul_ediv_right _ _ hB.ne',
    add_comm]

/-- The lower part of the product. -/
theorem product_mod_sq (hB : 0 < B) :
    (ph * B + pl) * (qh * B + ql) % (B * B) = mixed B pl ph ql qh % B * B + pl * ql % B := by
  have hdiv := Int.mul_ediv_add_emod ((ph * B + pl) * (qh * B + ql)) (B * B)
  have hmid := Int.mul_ediv_add_emod (mixed B pl ph ql qh) B
  have hlow := Int.mul_ediv_add_emod (pl * ql) B
  rw [product_div_sq _ _ _ _ hB] at hdiv
  have hsum : (ph * B + pl) * (qh * B + ql)
      = pl * ql + (mixed B pl ph ql qh - pl * ql / B + ph * qh * B) * B := by
    rw [mixed]
    ring
  linear_combination hdiv + hsum - B * hmid - hlow

end Halves

/-! ### Bit by bit -/

/-- One factor is doubled and the other one halved: the sum with their product stays. -/
theorem shift_add (s p q : ℕ) : s + p * (q % 2) + 2 * p * (q / 2) = s + p * q := by
  have hq := Nat.div_add_mod q 2
  calc s + p * (q % 2) + 2 * p * (q / 2) = s + p * (2 * (q / 2) + q % 2) := by ring
    _ = s + p * q := by rw [hq]

section Window

variable (n : ℕ) (p q : ℤ) (k : ℕ)

/-- The window over the sum of the partial products of the bits of `q` below `k`. -/
def window : ℤ := 2 ^ n + (2 ^ n + p * (q % 2 ^ k)) / 2 ^ k

/-- The low bits of a number with the next one. -/
theorem emod_two_pow_succ : q % 2 ^ (k + 1) = q % 2 ^ k + q / 2 ^ k % 2 * 2 ^ k := by
  have hk : (0 : ℤ) < 2 ^ k := Int.pow_pos (by decide)
  have hall := Int.mul_ediv_add_emod q (2 ^ (k + 1))
  have hlow := Int.mul_ediv_add_emod q (2 ^ k)
  have hbit := Int.mul_ediv_add_emod (q / 2 ^ k) 2
  rw [Int.ediv_ediv_of_nonneg hk.le, ← pow_succ] at hbit
  linear_combination hall - hlow - 2 ^ k * hbit

/-- The partial product of the next bit is added, and the window moves up. -/
theorem window_succ :
    (window n p q k + (2 ^ n + p * (q / 2 ^ k % 2))) / 2 = window n p q (k + 1) := by
  have hk : (0 : ℤ) < 2 ^ k := Int.pow_pos (by decide)
  have hin : window n p q k + (2 ^ n + p * (q / 2 ^ k % 2))
      = (2 ^ n + p * (q % 2 ^ (k + 1))) / 2 ^ k + 2 ^ n * 2 := by
    rw [window, emod_two_pow_succ,
      show 2 ^ n + p * (q % 2 ^ k + q / 2 ^ k % 2 * 2 ^ k)
        = 2 ^ n + p * (q % 2 ^ k) + p * (q / 2 ^ k % 2) * 2 ^ k by ring,
      Int.add_mul_ediv_right _ _ hk.ne']
    ring
  rw [hin, Int.add_mul_ediv_right _ _ two_ne_zero, Int.ediv_ediv_of_nonneg hk.le, ← pow_succ,
    window, add_comm]

/-- The sign bit is subtracted, and the window shows the upper part of the product. -/
theorem window_last (t : ℤ) :
    window n p q n + (2 ^ n - 1 - p * t)
      = p * (q % 2 ^ n - t * 2 ^ n) / 2 ^ n + 2 * 2 ^ n := by
  have hn : (0 : ℤ) < 2 ^ n := Int.pow_pos (by decide)
  rw [window, show p * (q % 2 ^ n - t * 2 ^ n) = p * (q % 2 ^ n) + -(p * t) * 2 ^ n by ring,
    Int.add_mul_ediv_right _ _ hn.ne',
    show 2 ^ n + p * (q % 2 ^ n) = p * (q % 2 ^ n) + 1 * 2 ^ n by ring,
    Int.add_mul_ediv_right _ _ hn.ne']
  ring

end Window

end LongMultiplication
