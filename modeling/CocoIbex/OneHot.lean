import Mathlib.Data.Fintype.Basic
import Mathlib.Data.BitVec
import Mathlib.Order.Lattice
import Mathlib.Tactic.Ring

/-!
# One-Hot Signals and Multiplexer Trees

Vectors of request lines as Boolean functions on `Fin n`: their disjunction, the OR multiplexer
that they select, and the tree of two-way multiplexers.

In a circuit a selection is often an AND-OR of all candidates with their select lines. It gives
the selected value if one line is set, zero if none is, and a mixture otherwise. The lemmas say
which of the three it is, by the uniqueness of the line and not by a property of the whole
vector, so that a user has to show for the lines only that two of them are the same. The tree of
multiplexers is the other way to select, with the number of the candidate.

The values are words of any width, and the number of lines is arbitrary.

## Main results

* `anyOf_iff` and `anyOf_eq_false` — the OR of a vector of bits;
* `orOf_of_unique` — a one-hot selection gives the selected value;
* `orOf_eq` and `orOf_eq_zero` — an OR over equal values, and without a selection.
-/

namespace OneHot

variable {n w : ℕ}

/-- Some line is high. -/
def anyOf (f : Fin n → Bool) : Bool := (List.finRange n).any f

/-- The OR of a vector of bits. -/
theorem anyOf_iff {f : Fin n → Bool} : anyOf f = true ↔ ∃ i, f i = true := by
  simp [anyOf]

/-- The OR of a vector of zeros. -/
theorem anyOf_eq_false {f : Fin n → Bool} : anyOf f = false ↔ ∀ i, f i = false := by
  simp [anyOf]

/-- One set bit is enough. -/
theorem anyOf_of {f : Fin n → Bool} {i : Fin n} (h : f i = true) : anyOf f = true :=
  anyOf_iff.mpr ⟨i, h⟩

/-- The OR of the selected values. -/
def orOf (sel : Fin n → Bool) (v : Fin n → BitVec w) : BitVec w :=
  (List.finRange n).foldr (fun i acc => (if sel i then v i else 0#w) ||| acc) 0#w

/-- What is closed under OR and holds of every selected value holds of the OR, if anything
is selected. -/
theorem orOf_closed {sel : Fin n → Bool} {v : Fin n → BitVec w} {P : BitVec w → Prop}
    (hor : ∀ a b, P a → P b → P (a ||| b)) (h : ∀ i, sel i = true → P (v i))
    (hex : ∃ i, sel i = true) : P (orOf sel v) := by
  have hlist : ∀ l : List (Fin n),
      (∀ i ∈ l, sel i = false) ∧
          l.foldr (fun i acc => (if sel i then v i else 0#w) ||| acc) 0#w = 0#w ∨
        P (l.foldr (fun i acc => (if sel i then v i else 0#w) ||| acc) 0#w) := by
    intro l
    induction l with
    | nil => exact Or.inl ⟨by simp, rfl⟩
    | cons i l ih =>
        cases hi : sel i with
        | false =>
            obtain ⟨hl, hz⟩ | hP := ih
            · exact Or.inl ⟨List.forall_mem_cons.mpr ⟨hi, hl⟩, by simp [hi, hz]⟩
            · exact Or.inr (by simpa [hi] using hP)
        | true =>
            refine Or.inr ?_
            obtain ⟨-, hz⟩ | hP := ih
            · simpa [hi, hz] using h i hi
            · simpa [hi] using hor _ _ (h i hi) hP
  obtain ⟨hl, -⟩ | hP := hlist (List.finRange n)
  · obtain ⟨i, hi⟩ := hex
    simp [hl i (List.mem_finRange i)] at hi
  · exact hP

/-- An OR over equal values is their value. -/
theorem orOf_eq {sel : Fin n → Bool} {v : Fin n → BitVec w} {a : BitVec w}
    (h : ∀ i, sel i = true → v i = a) (hex : ∃ i, sel i = true) : orOf sel v = a :=
  orOf_closed (P := fun b => b = a) (by rintro b c rfl rfl; simp) h hex

/-- A one-hot selection gives the selected value. -/
theorem orOf_of_unique {sel : Fin n → Bool} {v : Fin n → BitVec w} {i : Fin n}
    (hi : sel i = true) (hu : ∀ j, sel j = true → j = i) : orOf sel v = v i :=
  orOf_eq (fun j hj => by rw [hu j hj]) ⟨i, hi⟩

/-- Without a selection the OR is zero. -/
theorem orOf_eq_zero {sel : Fin n → Bool} {v : Fin n → BitVec w} (h : ∀ i, sel i = false) :
    orOf sel v = 0#w := by
  have hlist : ∀ l : List (Fin n),
      l.foldr (fun i acc => (if sel i then v i else 0#w) ||| acc) 0#w = 0#w := by
    intro l
    induction l with
    | nil => rfl
    | cons i l ih => simp [h i, ih]
  exact hlist _

/-- Without a line there is no line. -/
@[simp] theorem anyOf_const_false : (anyOf fun _ : Fin n => false) = false := by
  simp [anyOf_eq_false]

/-! ### Multiplexer trees -/

/-- Level `k` of a tree of two-way multiplexers over the entries `d`; level `k` is switched
by bit `k` of the selection. -/
def muxTree {α : Type*} (sel : BitVec w) (d : ℕ → α) : ℕ → ℕ → α
  | 0, m => d m
  | k + 1, m => if sel.getLsbD k then muxTree sel d k (2 * m + 1) else muxTree sel d k (2 * m)

/-- The low `k` bits of the selection address the entries below a place in level `k`. -/
theorem muxTree_eq {α : Type*} (sel : BitVec w) (d : ℕ → α) (k m : ℕ) :
    muxTree sel d k m = d (m * 2 ^ k + sel.toNat % 2 ^ k) := by
  induction k generalizing m with
  | zero => simp [muxTree, Nat.mod_one]
  | succ k ih =>
      have hbit : sel.toNat % 2 ^ (k + 1) = sel.toNat % 2 ^ k + 2 ^ k * (sel.getLsbD k).toNat := by
        rw [Nat.mod_pow_succ, BitVec.getLsbD, Nat.toNat_testBit]
      rw [muxTree, ih, ih, hbit]
      cases sel.getLsbD k with
      | false =>
          simp only [Bool.false_eq_true, if_false, Bool.toNat_false]
          congr 1
          ring
      | true =>
          simp only [if_true, Bool.toNat_true]
          congr 1
          ring

/-- The top of the tree is the selected entry. -/
theorem muxTree_top {α : Type*} (sel : BitVec w) (d : ℕ → α) :
    muxTree sel d w 0 = d sel.toNat := by
  rw [muxTree_eq, Nat.mod_eq_of_lt sel.isLt, Nat.zero_mul, Nat.zero_add]

end OneHot
