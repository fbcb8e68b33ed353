import Mathlib.Algebra.Order.Group.Nat
import Mathlib.Tactic.Ring

/-!
# Long Division

The restoring division of binary numbers, one bit of the dividend at a time from the top.
`Scanned n d k q r` is what is known with the bits of `n` from `k` on done: `r` is the remainder
of the part that they form, and `q` its quotient at its place. A step shifts the next bit in
(`Shifted`) and subtracts the divisor where it fits. No number on the way is larger than `n`
(`Shifted.le`).

The module is about natural numbers alone, without a word size. A divider has registers that
might overflow, a counter that runs down, and an adder for the comparison; what it keeps is
shown to be one of these two predicates, and the loop is then the induction from `Shifted.start`
to `Scanned.done`.

## Main results

* `Shifted.start` — the division starts with the top bit;
* `Shifted.subtract` and `Shifted.keep` — a comparison, by its outcome;
* `Scanned.shift` — the next bit;
* `Scanned.done` — behind the last bit these are quotient and remainder.
-/

namespace LongDivision

/-- The part of `n` above its low `k` bits is divided. -/
structure Scanned (n d k q r : ℕ) : Prop where
  quotient : q = 2 ^ k * (n / 2 ^ k / d)
  remainder : r = n / 2 ^ k % d

/-- The part above the low `k + 1` bits is divided, and bit `k` is at the end of the
remainder. -/
structure Shifted (n d k q r : ℕ) : Prop where
  quotient : q = 2 ^ (k + 1) * (n / 2 ^ (k + 1) / d)
  remainder : r = 2 * (n / 2 ^ (k + 1) % d) + n / 2 ^ k % 2

variable {n d k q r : ℕ}

/-- A bit at the end of the part above it. -/
theorem div_two_pow (n k : ℕ) : n / 2 ^ k = 2 * (n / 2 ^ (k + 1)) + n / 2 ^ k % 2 := by
  have hdiv : n / 2 ^ (k + 1) = n / 2 ^ k / 2 := by rw [pow_succ, Nat.div_div_eq_div_mul]
  omega

/-- The division starts with the top bit. -/
theorem Shifted.start (d : ℕ) (h : n < 2 ^ (k + 1)) : Shifted n d k 0 (n / 2 ^ k) := by
  have hzero : n / 2 ^ (k + 1) = 0 := Nat.div_eq_of_lt h
  have hbit := div_two_pow n k
  rw [hzero] at hbit
  exact ⟨by simp [hzero], by rw [hzero, Nat.zero_mod]; exact hbit⟩

/-- The next bit comes in. -/
theorem Scanned.shift (h : Scanned n d (k + 1) q r) : Shifted n d k q (2 * r + n / 2 ^ k % 2) :=
  ⟨h.quotient, by rw [h.remainder]⟩

/-- The remainder is part of the dividend. -/
theorem Shifted.le (h : Shifted n d k q r) : r ≤ n / 2 ^ k := by
  have hmod := Nat.mod_le (n / 2 ^ (k + 1)) d
  rw [h.remainder, div_two_pow n k]
  omega

/-- The quotient has no bit at the place of the next one. -/
theorem Shifted.two_pow_dvd (h : Shifted n d k q r) : 2 ^ (k + 1) ∣ q := ⟨_, h.quotient⟩

/-- The part above the low `k` bits, by the quotient so far. -/
theorem Shifted.eq (h : Shifted n d k q r) :
    n / 2 ^ k = d * (2 * (n / 2 ^ (k + 1) / d)) + r := by
  have hd := Nat.div_add_mod (n / 2 ^ (k + 1)) d
  have hbit := div_two_pow n k
  have hr := h.remainder
  calc n / 2 ^ k = 2 * (d * (n / 2 ^ (k + 1) / d) + n / 2 ^ (k + 1) % d) + n / 2 ^ k % 2 := by
        rw [hd]
        exact hbit
    _ = d * (2 * (n / 2 ^ (k + 1) / d)) + r := by
        rw [hr]
        ring

/-- The divisor fits, and is subtracted. -/
theorem Shifted.subtract (h : Shifted n d k q r) (hd : 0 < d) (hr : d ≤ r) :
    Scanned n d k (q + 2 ^ k) (r - d) := by
  have hlt : r - d < d := by
    have := Nat.mod_lt (n / 2 ^ (k + 1)) hd
    have := Nat.mod_lt (n / 2 ^ k) Nat.two_pos
    have := h.remainder
    omega
  have hn : n / 2 ^ k = d * (2 * (n / 2 ^ (k + 1) / d) + 1) + (r - d) := by
    rw [h.eq, Nat.mul_add, mul_one]
    omega
  have hdiv := (Nat.div_mod_unique hd).mpr ⟨(Nat.add_comm _ _).trans hn.symm, hlt⟩
  refine ⟨?_, hdiv.2.symm⟩
  rw [hdiv.1, h.quotient]
  ring

/-- The divisor does not fit. -/
theorem Shifted.keep (h : Shifted n d k q r) (hr : r < d) : Scanned n d k q r := by
  have hdiv := (Nat.div_mod_unique (Nat.zero_lt_of_lt hr)).mpr
    ⟨(Nat.add_comm _ _).trans h.eq.symm, hr⟩
  refine ⟨?_, hdiv.2.symm⟩
  rw [hdiv.1, h.quotient]
  ring

/-- With all bits done the division is complete. -/
theorem Scanned.done (h : Scanned n d 0 q r) : q = n / d ∧ r = n % d := by
  obtain ⟨hq, hr⟩ := h
  rw [pow_zero, Nat.div_one] at hq hr
  exact ⟨hq.trans (one_mul _), hr⟩

end LongDivision
