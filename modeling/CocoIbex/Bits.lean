import Mathlib.Data.Nat.Bitwise
import Mathlib.Tactic

/-!
# Bit Vectors Built Bit by Bit

General facts about words that a circuit builds one bit at a time: a vector generated from its
bit function (`gen`), and the run of ones at the low end of a number (`TrailingOnes`), which
naturally aligned power-of-two encodings use.

A word is compared with another one in one of two ways, and there are lemmas for both. Bit by
bit, with `getLsbD_gen` for what is generated and the `extract` lemmas for the fields of a
concatenation; or as a number, with `toNat_append_eq`. `gate` is the mask of a word by one bit,
the building block of the secure build, and `fill` a word of copies of one bit.

The widths are arbitrary and nothing here names a unit of the processor.

## Main results

* `getLsbD_gen` — the bits of a generated vector;
* `extract_skip`, `extract_last` and `extract_all` — a field of a concatenation is a field of
  one of its parts;
* `toNat_append_eq` — a concatenation as a number;
* `fill_append_msb` — copies of the sign bit in front of a word extend its sign.
-/

namespace Bits

/-! ### Generated vectors -/

/-- The `w`-bit vector whose bit `i` is `f i`. -/
def gen (w : ℕ) (f : ℕ → Bool) : BitVec w :=
  BitVec.ofNat w (Nat.ofBits fun i : Fin w => f i)

/-- Bit `i` of a generated vector is `f i`, inside the width. -/
@[simp] theorem getLsbD_gen (w : ℕ) (f : ℕ → Bool) (i : ℕ) :
    (gen w f).getLsbD i = (decide (i < w) && f i) := by
  rw [gen, BitVec.getLsbD_ofNat]
  by_cases h : i < w
  · rw [Nat.testBit_ofBits_lt _ _ h]
  · simp [h]

/-- The same for the indexing notation. -/
@[simp] theorem getElem_gen (w : ℕ) (f : ℕ → Bool) (i : ℕ) (h : i < w) :
    (gen w f)[i] = f i := by
  rw [← BitVec.getLsbD_eq_getElem, getLsbD_gen]
  simp [h]

/-- The word `x` with every bit masked by `b`. -/
def gate {w : ℕ} (b : Bool) (x : BitVec w) : BitVec w :=
  gen w fun i => x.getLsbD i && b

/-- A closed gate yields zero. -/
@[simp] theorem gate_false {w : ℕ} (x : BitVec w) : gate false x = 0 := by
  refine BitVec.eq_of_getLsbD_eq fun i _ => ?_
  simp [gate]

/-- An open gate passes the word. -/
@[simp] theorem gate_true {w : ℕ} (x : BitVec w) : gate true x = x := by
  refine BitVec.eq_of_getLsbD_eq fun i hi => ?_
  simp [gate, hi]

/-- A gate on zero yields zero. -/
@[simp] theorem gate_zero {w : ℕ} (b : Bool) : gate b (0 : BitVec w) = 0 := by
  cases b
  · rw [gate_false]
  · rw [gate_true]

/-! ### Fields of a concatenation -/

/-- A field that lies above the last part of a concatenation. -/
theorem extract_skip {a b : ℕ} (x : BitVec a) (y : BitVec b) (lo len : ℕ) :
    BitVec.extractLsb' (lo + b) len (x ++ y) = x.extractLsb' lo len := by
  rw [BitVec.extractLsb'_append_eq_of_le (Nat.le_add_left _ _), Nat.add_sub_cancel]

/-- The field that is the last part of a concatenation. -/
theorem extract_last {a b : ℕ} (x : BitVec a) (y : BitVec b) :
    BitVec.extractLsb' 0 b (x ++ y) = y :=
  BitVec.extractLsb'_append_eq_right

/-- The field that is the whole vector. -/
theorem extract_all {b : ℕ} (y : BitVec b) : BitVec.extractLsb' 0 b y = y :=
  BitVec.extractLsb'_eq_self

/-- A concatenation as a number. -/
theorem toNat_append_eq {m n : ℕ} (x : BitVec m) (y : BitVec n) :
    (x ++ y).toNat = x.toNat * 2 ^ n + y.toNat := by
  rw [BitVec.toNat_append, Nat.shiftLeft_eq, Nat.mul_comm, Nat.two_pow_add_eq_or_of_lt y.isLt]

/-- `n` copies of a bit. -/
def fill (n : ℕ) (b : Bool) : BitVec n := if b then BitVec.allOnes n else 0#n

/-- A word masked by copies of a bit. -/
theorem and_fill {n : ℕ} (x : BitVec n) (b : Bool) : x &&& fill n b = if b then x else 0#n := by
  cases b
  · simp [fill]
  · simp [fill]

/-- Copies of the sign bit in front of a word extend its sign. -/
theorem fill_append_msb {w : ℕ} (n : ℕ) (x : BitVec w) :
    fill n x.msb ++ x = x.signExtend (n + w) := by
  refine BitVec.eq_of_toNat_eq ?_
  have hx : x.toNat < 2 ^ (n + w) := x.isLt.trans_le (Nat.pow_le_pow_right (by omega) (by omega))
  rw [toNat_append_eq, BitVec.toNat_signExtend, BitVec.toNat_setWidth, Nat.mod_eq_of_lt hx]
  cases x.msb with
  | false => simp [fill]
  | true =>
      simp only [fill, if_true, BitVec.toNat_allOnes, Nat.sub_mul, one_mul, ← pow_add]
      exact Nat.add_comm _ _

/-- Zeros in front of a word. -/
theorem zero_append {w : ℕ} (n : ℕ) (x : BitVec w) : 0#n ++ x = x.setWidth (n + w) := by
  refine BitVec.eq_of_toNat_eq ?_
  have hx : x.toNat < 2 ^ (n + w) := x.isLt.trans_le (Nat.pow_le_pow_right (by omega) (by omega))
  rw [toNat_append_eq, BitVec.toNat_setWidth, Nat.mod_eq_of_lt hx]
  simp

/-! ### Trailing ones -/

/-- The binary expansion of `p` ends in exactly `k` ones, `y…y01…1`. -/
def TrailingOnes (p k : ℕ) : Prop :=
  p % 2 ^ (k + 1) = 2 ^ k - 1

/-- The expansion `y…y01…1` with its prefix named. -/
theorem trailingOnes_iff {p k : ℕ} : TrailingOnes p k ↔ ∃ q, p = q * 2 ^ (k + 1) + (2 ^ k - 1) := by
  constructor
  · intro h
    refine ⟨p / 2 ^ (k + 1), ?_⟩
    have hd := Nat.div_add_mod' p (2 ^ (k + 1))
    rw [h] at hd
    exact hd.symm
  · rintro ⟨q, rfl⟩
    have hlt : 2 ^ k - 1 < 2 ^ (k + 1) := by
      have := Nat.one_le_two_pow (n := k)
      rw [pow_succ]
      omega
    rw [TrailingOnes, Nat.mul_add_mod_self_right, Nat.mod_eq_of_lt hlt]

/-- Appending a one adds a trailing one. -/
theorem TrailingOnes.double {p k : ℕ} (h : TrailingOnes p k) :
    TrailingOnes (2 * p + 1) (k + 1) := by
  obtain ⟨q, rfl⟩ := trailingOnes_iff.mp h
  refine trailingOnes_iff.mpr ⟨q, ?_⟩
  have := Nat.one_le_two_pow (n := k)
  rw [pow_succ 2 (k + 1), pow_succ 2 k]
  have hq : q * (2 ^ k * 2 * 2) = 2 * (q * (2 ^ k * 2)) := by ring
  omega

/-- Every number has a run of trailing ones. -/
theorem exists_trailingOnes (p : ℕ) : ∃ k, TrailingOnes p k := by
  induction p using Nat.strong_induction_on with
  | _ p ih =>
      rcases Nat.even_or_odd' p with ⟨q, rfl | rfl⟩
      · exact ⟨0, by simp [TrailingOnes]⟩
      · obtain ⟨k, hk⟩ := ih q (by omega)
        exact ⟨k + 1, hk.double⟩

/-- The bits of the trailing run and the zero that ends it. -/
theorem TrailingOnes.testBit {p k i : ℕ} (h : TrailingOnes p k) (hi : i ≤ k) :
    p.testBit i = decide (i < k) := by
  have hm : (p % 2 ^ (k + 1)).testBit i = p.testBit i := by
    simp [Nat.testBit_mod_two_pow, Nat.lt_succ_of_le hi]
  rw [← hm, h, Nat.testBit_two_pow_sub_one]

/-- The run is unique. -/
theorem TrailingOnes.unique {p k l : ℕ} (hk : TrailingOnes p k) (hl : TrailingOnes p l) :
    k = l := by
  rcases lt_trichotomy k l with h | h | h
  · have := hk.testBit le_rfl
    rw [hl.testBit h.le] at this
    simp [h] at this
  · exact h
  · have := hl.testBit le_rfl
    rw [hk.testBit h.le] at this
    simp [h] at this

/-- Appending `j` ones lengthens the run by `j`. -/
theorem TrailingOnes.append {p k : ℕ} (h : TrailingOnes p k) (j : ℕ) :
    TrailingOnes (p * 2 ^ j + (2 ^ j - 1)) (j + k) := by
  obtain ⟨q, rfl⟩ := trailingOnes_iff.mp h
  refine trailingOnes_iff.mpr ⟨q, ?_⟩
  have hj := Nat.one_le_two_pow (n := j)
  have hk := Nat.one_le_two_pow (n := k)
  have hexp : (q * 2 ^ (k + 1) + (2 ^ k - 1)) * 2 ^ j
      = q * 2 ^ (j + k + 1) + (2 ^ (j + k) - 2 ^ j) := by
    rw [Nat.add_mul, Nat.sub_mul, one_mul, mul_assoc, ← pow_add, ← pow_add]
    congr 2 <;> ring_nf
  have hle : 2 ^ j ≤ 2 ^ (j + k) := Nat.pow_le_pow_right (by omega) (by omega)
  omega

/-- Setting the low `j` bits of a number. -/
theorem or_two_pow_sub_one (p j : ℕ) :
    p ||| (2 ^ j - 1) = p / 2 ^ j * 2 ^ j + (2 ^ j - 1) := by
  have hlt : 2 ^ j - 1 < 2 ^ j := Nat.sub_lt (Nat.two_pow_pos j) Nat.one_pos
  rw [Nat.mul_comm, Nat.two_pow_add_eq_or_of_lt hlt]
  refine Nat.eq_of_testBit_eq fun i => ?_
  simp only [Nat.testBit_or, Nat.testBit_two_pow_sub_one, Nat.testBit_two_pow_mul,
    Nat.testBit_div_two_pow]
  by_cases h : i < j
  · simp [h]
  · simp [h, Nat.le_of_not_lt h]

end Bits
