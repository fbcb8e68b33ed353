import Mathlib.Data.Finset.Card
import CocoIbex.Bits

/-!
# Linear Codes That Detect Two Flipped Bits

A systematic code of `k` data bits and `r` check bits is given by its parity equations: the data
bits whose sum each check bit is. The syndrome of a word compares its check bits with those of
its data, and a word whose syndrome is not zero is no code word. Where the columns of the parity
equations are distinct and none is zero, no two code words differ in one or two bits, so a code
word with one or two bits flipped is found out (`Detects.unflipped`). The encoders and decoders
`prim_secded_28_22` and `prim_secded_72_64` are two instances.

The theory is one of vectors over two elements, written with exclusive or on bit vectors. The
syndrome of a sum is the sum of the syndromes, and that of one flipped bit is its column; so
that two flips show is a statement about pairs of columns, which for the two codes is a finite
search over their columns and not over their words.

A decoder that corrects a single error tells one from two by the parity of the column; only the
detection is used here.

## Main results

* `syndrome_enc` and `Detects.eq_enc` — the words with the syndrome zero are the code words;
* `Detects.unflipped` — a word within two flips of a code word that shows no error is that word;
* `detects_secded2822` and `detects_secded7264` — the two codes.
-/

namespace Secded

variable {k r n : ℕ}

/-- The sum of the bits of a word at the places `l`. -/
def parity (l : List ℕ) (x : BitVec n) : Bool := l.foldr (fun b p => x.getLsbD b ^^ p) false

/-- The check bits, one for each parity equation. -/
def checkBits (r : ℕ) (rows : List (List ℕ)) (x : BitVec n) : BitVec r :=
  Bits.gen r fun i => parity (rows.getD i []) x

/-- The code word of some data: the check bits above the data. -/
def enc (r : ℕ) (rows : List (List ℕ)) (d : BitVec k) : BitVec (r + k) := checkBits r rows d ++ d

/-- `syndrome_o`. -/
def syndrome (k r : ℕ) (rows : List (List ℕ)) (x : BitVec (r + k)) : BitVec r :=
  x.extractLsb' k r ^^^ checkBits r rows x

/-- `single_error`: the parity of the syndrome. -/
def singleError (s : BitVec r) : Bool := parity (List.range r) s

/-- `err_o`. Bit 0 is a single error, bit 1 a double error. -/
def err (k r : ℕ) (rows : List (List ℕ)) (x : BitVec (r + k)) : BitVec 2 :=
  BitVec.ofBool (!singleError (syndrome k r rows x) && syndrome k r rows x != 0#r)
    ++ BitVec.ofBool (singleError (syndrome k r rows x))

/-! ### Linearity -/

/-- No bit of zero is set, so that every parity is even. -/
@[simp] theorem parity_zero (l : List ℕ) : parity l (0#n) = false := by
  induction l with
  | nil => rfl
  | cons b l ih =>
      rw [parity, List.foldr_cons, ← parity, ih]
      simp

/-- The parity is additive. -/
theorem parity_xor (l : List ℕ) (x y : BitVec n) :
    parity l (x ^^^ y) = (parity l x ^^ parity l y) := by
  induction l with
  | nil => rfl
  | cons b l ih =>
      simp only [parity, List.foldr_cons] at ih ⊢
      rw [ih, BitVec.getLsbD_xor]
      cases x.getLsbD b <;> cases y.getLsbD b <;> simp

/-- A check bit is the parity of its row. -/
theorem getLsbD_checkBits (r : ℕ) (rows : List (List ℕ)) (x : BitVec n) (i : ℕ) :
    (checkBits r rows x).getLsbD i = (decide (i < r) && parity (rows.getD i []) x) :=
  Bits.getLsbD_gen ..

/-- The check bits are additive, so that the code is linear. -/
theorem checkBits_xor (r : ℕ) (rows : List (List ℕ)) (x y : BitVec n) :
    checkBits r rows (x ^^^ y) = checkBits r rows x ^^^ checkBits r rows y := by
  refine BitVec.eq_of_getLsbD_eq fun i hi => ?_
  rw [BitVec.getLsbD_xor, getLsbD_checkBits, getLsbD_checkBits, getLsbD_checkBits, parity_xor]
  simp [hi]

/-- The syndrome is linear. -/
theorem syndrome_xor (rows : List (List ℕ)) (x y : BitVec (r + k)) :
    syndrome k r rows (x ^^^ y) = syndrome k r rows x ^^^ syndrome k r rows y := by
  simp only [syndrome, checkBits_xor, BitVec.extractLsb'_xor]
  ac_rfl

/-- Zero is a code word. -/
@[simp] theorem syndrome_zero (rows : List (List ℕ)) :
    syndrome k r rows (0#(r + k)) = 0#r := by
  refine BitVec.eq_of_getLsbD_eq fun i hi => ?_
  rw [syndrome, BitVec.getLsbD_xor, getLsbD_checkBits, parity_zero]
  simp

/-- The decoder reports an error iff the syndrome is not zero. -/
theorem err_eq_zero_iff {rows : List (List ℕ)} {x : BitVec (r + k)} :
    err k r rows x = 0#2 ↔ syndrome k r rows x = 0#r := by
  have hzero : singleError (0#r) = false := parity_zero _
  rw [err]
  generalize syndrome k r rows x = s
  by_cases hs : s = 0#r
  · simp [hs, hzero]
  · simp only [hs, iff_false]
    have hbit : (s != 0#r) = true := by simpa using hs
    cases singleError s <;> rw [hbit] <;> decide

/-! ### Detection -/

/-- At most two bits are set. -/
def AtMostTwo (e : BitVec n) : Prop :=
  (Finset.univ.filter fun i : Fin n => e.getLsbD i = true).card ≤ 2

/-- The set bits can be counted. -/
instance (e : BitVec n) : Decidable (AtMostTwo e) := inferInstanceAs (Decidable (_ ≤ _))

/-- No bit is at most two. -/
theorem atMostTwo_zero : AtMostTwo (0#n) := by simp [AtMostTwo]

/-- The column of a bit: the syndrome of a flip there. -/
def column (k r : ℕ) (rows : List (List ℕ)) (i : ℕ) : BitVec r :=
  syndrome k r rows (BitVec.twoPow (r + k) i)

/-- The parity equations are about the data bits, and their columns tell the bits apart. -/
structure Detects (k r : ℕ) (rows : List (List ℕ)) : Prop where
  lt : ∀ l ∈ rows, ∀ b ∈ l, b < k
  ne_zero : ∀ i < r + k, column k r rows i ≠ 0#r
  inj : ((List.range (r + k)).map (column k r rows)).Nodup

namespace Detects

variable {rows : List (List ℕ)}

/-- The parity equations do not read the check bits. -/
theorem checkBits_append (h : Detects k r rows) (c : BitVec r) (d : BitVec k) :
    checkBits r rows (c ++ d) = checkBits r rows d := by
  refine BitVec.eq_of_getLsbD_eq fun i hi => ?_
  rw [getLsbD_checkBits, getLsbD_checkBits]
  have hrow : ∀ b ∈ rows.getD i [], b < k := by
    rw [List.getD_eq_getElem?_getD]
    cases hl : rows[i]? with
    | none => simp
    | some l => exact h.lt l (List.mem_of_getElem? hl)
  congr 1
  revert hrow
  generalize rows.getD i [] = l
  intro hrow
  induction l with
  | nil => rfl
  | cons b l ih =>
      have hb := hrow b (List.mem_cons_self ..)
      simp only [parity, List.foldr_cons] at ih ⊢
      rw [ih fun b hb => hrow b (List.mem_cons_of_mem _ hb), BitVec.getLsbD_append]
      simp [hb]

/-- A code word has the syndrome zero. -/
@[simp] theorem syndrome_enc (h : Detects k r rows) (d : BitVec k) :
    syndrome k r rows (enc r rows d) = 0#r := by
  rw [syndrome, enc, h.checkBits_append, BitVec.extractLsb'_append_eq_left, BitVec.xor_self]

/-- Every word with the syndrome zero is the code word of its data. -/
theorem eq_enc (h : Detects k r rows) {x : BitVec (r + k)} (hs : syndrome k r rows x = 0#r) :
    x = enc r rows (x.extractLsb' 0 k) := by
  have hx : x = x.extractLsb' k r ++ x.extractLsb' 0 k := by
    refine BitVec.eq_of_getLsbD_eq fun i hi => ?_
    rw [BitVec.getLsbD_append]
    by_cases hk : i < k
    · simp [hk]
    · have hik : i - k < r := by omega
      simp [hk, hik]
      congr 1
      omega
  have hc : checkBits r rows x = checkBits r rows (x.extractLsb' 0 k) := by
    conv_lhs => rw [hx]
    exact h.checkBits_append ..
  rw [syndrome, hc, BitVec.xor_eq_zero_iff] at hs
  rw [enc, ← hs, ← hx]

/-- **Detection.** A word that comes from a code word by at most two flips and shows no
error is that code word. -/
theorem unflipped (h : Detects k r rows) {d : BitVec k} {e : BitVec (r + k)}
    (he : AtMostTwo e) (hs : err k r rows (enc r rows d ^^^ e) = 0#2) : e = 0#(r + k) := by
  rw [err_eq_zero_iff, syndrome_xor, h.syndrome_enc, BitVec.zero_xor] at hs
  obtain ⟨S, hS⟩ : ∃ S : Finset (Fin (r + k)),
      (Finset.univ.filter fun i : Fin (r + k) => e.getLsbD i = true) = S := ⟨_, rfl⟩
  have hbits : ∀ i : Fin (r + k), e.getLsbD i = decide (i ∈ S) := by
    subst hS
    simp
  rw [AtMostTwo, hS] at he
  obtain hc | hc | hc : S.card = 0 ∨ S.card = 1 ∨ S.card = 2 := by omega
  · rw [Finset.card_eq_zero] at hc
    refine BitVec.eq_of_getLsbD_eq fun i hi => ?_
    rw [hbits ⟨i, hi⟩, hc]
    simp
  · obtain ⟨a, ha⟩ := Finset.card_eq_one.mp hc
    have heq : e = BitVec.twoPow (r + k) a := by
      refine BitVec.eq_of_getLsbD_eq fun i hi => ?_
      rw [hbits ⟨i, hi⟩, ha, BitVec.getLsbD_twoPow]
      simp [Fin.ext_iff, a.isLt, eq_comm]
    rw [heq] at hs
    exact absurd hs (h.ne_zero a a.isLt)
  · obtain ⟨a, b, hne, hab⟩ := Finset.card_eq_two.mp hc
    have hne' : (a : ℕ) ≠ b := fun heq => hne (Fin.ext heq)
    have heq : e = BitVec.twoPow (r + k) a ^^^ BitVec.twoPow (r + k) b := by
      refine BitVec.eq_of_getLsbD_eq fun i hi => ?_
      rw [hbits ⟨i, hi⟩, hab, BitVec.getLsbD_xor, BitVec.getLsbD_twoPow, BitVec.getLsbD_twoPow]
      simp only [Finset.mem_insert, Finset.mem_singleton, Fin.ext_iff, a.isLt, b.isLt,
        decide_true, Bool.true_and]
      by_cases hia : i = a
      · subst hia
        simp [Ne.symm hne']
      · simp [hia, Ne.symm hia, eq_comm]
    rw [heq, syndrome_xor, BitVec.xor_eq_zero_iff] at hs
    have hinj := List.inj_on_of_nodup_map h.inj (List.mem_range.mpr a.isLt)
      (List.mem_range.mpr b.isLt) hs
    exact absurd hinj hne'

end Detects

end Secded

namespace CocoIbex

/-- The parity equations of `prim_secded_28_22_enc` and `prim_secded_28_22_dec`. -/
def secded2822 : List (List ℕ) :=
  [[0, 1, 2, 3, 4, 5, 6, 7, 8, 9, 20, 21],
    [0, 1, 2, 3, 10, 11, 12, 13, 14, 15, 20, 21],
    [0, 4, 5, 6, 10, 11, 12, 16, 17, 18, 20],
    [1, 4, 7, 8, 10, 13, 14, 16, 17, 19, 21],
    [2, 5, 7, 9, 11, 13, 15, 16, 18, 19, 20, 21],
    [3, 6, 8, 9, 12, 14, 15, 17, 18, 19, 20, 21]]

/-- The parity equations of `prim_secded_72_64_enc` and `prim_secded_72_64_dec`. -/
def secded7264 : List (List ℕ) :=
  [[0, 1, 2, 3, 4, 5, 6, 7, 8, 9, 10, 11, 12, 13, 14, 15, 16, 17, 18, 19, 20, 57, 58, 61, 62, 63],
    [0, 1, 2, 3, 4, 5, 21, 22, 23, 24, 25, 26, 27, 28, 29, 30, 31, 32, 33, 34, 35, 58, 59, 60,
     62, 63],
    [0, 6, 7, 8, 9, 10, 21, 22, 23, 24, 25, 36, 37, 38, 39, 40, 41, 42, 43, 44, 45, 56, 57, 59,
     60, 63],
    [1, 6, 11, 12, 13, 14, 21, 26, 27, 28, 29, 36, 37, 38, 39, 46, 47, 48, 49, 50, 51, 56, 57,
     58, 61, 63],
    [2, 7, 11, 15, 16, 17, 22, 26, 30, 31, 32, 36, 40, 41, 42, 46, 47, 48, 52, 53, 54, 56, 58,
     59, 61, 62],
    [3, 8, 12, 15, 18, 19, 23, 27, 30, 33, 34, 37, 40, 43, 44, 46, 49, 50, 52, 53, 55, 56, 57,
     59, 60, 61],
    [4, 9, 13, 16, 18, 20, 24, 28, 31, 33, 35, 38, 41, 43, 45, 47, 49, 51, 52, 54, 55, 56, 59,
     60, 61, 62],
    [5, 10, 14, 17, 19, 20, 25, 29, 32, 34, 35, 39, 42, 44, 45, 48, 50, 51, 53, 54, 55, 57, 58,
     60, 62, 63]]

/-- The code of the tags detects up to two flipped bits; a search through the pairs of its columns
shows it. -/
theorem detects_secded2822 : Secded.Detects 22 6 secded2822 where
  lt := by decide
  ne_zero := by decide +kernel
  inj := by decide +kernel

/-- So does the code of the lines. -/
theorem detects_secded7264 : Secded.Detects 64 8 secded7264 where
  lt := by decide +kernel
  ne_zero := by decide +kernel
  inj := by decide +kernel

end CocoIbex
