import Mathlib.Tactic
import CocoIbex.Bits

/-!
# The Fetched Program

What an instruction fetch has to deliver: the parse of the instruction memory from the target of
a branch. Instructions are at half-word addresses, so an address is the number of its half word;
the low two bits of an instruction tell its length. A word of the memory may have an error,
which either the bus reports with the data or the PMP instead of a request.

The stream has nothing of a prefetch buffer or a cache. An address of it is followed by the
address behind its instruction, whatever the instruction does (`parseStep`), since a change of
the control comes to the fetch as a branch. `Delivers` compares an output with the instruction
at its address: the data as far as the instruction goes, the error of a word that the
instruction touches, and which of the two words has it. Behind an error nothing is promised,
because the instruction is not known.

Both fetch units are verified against this module.

## Main results

* `wordOf_add_two`, `wordOf_add_one_of_aligned` and `wordOf_add_one_of_unaligned` — the word of
  the next half words;
* `isCompressedHalf_lower` and `isCompressedHalf_upper` — the length is in the low bits.
-/

namespace CocoIbex

/-- A word of the instruction memory. -/
structure FetchWord where
  rdata : BitVec 32
  /-- the bus answers with an error -/
  err : Bool
  /-- the PMP stops the request -/
  pmpErr : Bool
  deriving DecidableEq

/-- A word with its error bit, as the fetch keeps it. -/
structure FetchEntry where
  rdata : BitVec 32
  err : Bool
  deriving DecidableEq

/-- The word has an error of either kind. -/
def FetchWord.bad (w : FetchWord) : Bool := w.err || w.pmpErr

/-- The entry is what a request for the word brings; a request that the PMP stops brings no
data. -/
structure FetchWord.Holds (w : FetchWord) (e : FetchEntry) : Prop where
  err : e.err = w.bad
  rdata : w.pmpErr = false → e.rdata = w.rdata

/-- The instruction memory, by word addresses. -/
abbrev FetchMem := BitVec 30 → FetchWord

/-! ### Half words -/

/-- The word of a half-word address. -/
def wordOf (a : BitVec 31) : BitVec 30 := a.extractLsb' 1 30

/-- The half word is the upper one of its word. -/
def unaligned (a : BitVec 31) : Bool := a.getLsbD 0

/-- The upper or the lower half of a word. -/
def halfOf (upper : Bool) (w : BitVec 32) : BitVec 16 :=
  if upper then w.extractLsb' 16 16 else w.extractLsb' 0 16

/-- An instruction of 16 bits, by its low half word. -/
def isCompressedHalf (h : BitVec 16) : Bool := h.extractLsb' 0 2 != 0b11#2

/-- The low two bits of the upper half word. -/
theorem isCompressedHalf_upper (w : BitVec 32) :
    isCompressedHalf (halfOf true w) = (w.extractLsb' 16 2 != 0b11#2) := by
  have h : (w.extractLsb' 16 16).extractLsb' 0 2 = w.extractLsb' 16 2 := by
    ext i hi
    simp only [BitVec.getElem_extractLsb', BitVec.getLsbD_extractLsb']
    simp
    omega
  simp only [isCompressedHalf, halfOf, if_pos, h]

/-- The low two bits of the lower half word. -/
theorem isCompressedHalf_lower (w : BitVec 32) :
    isCompressedHalf (halfOf false w) = (w.extractLsb' 0 2 != 0b11#2) := by
  have h : (w.extractLsb' 0 16).extractLsb' 0 2 = w.extractLsb' 0 2 :=
    BitVec.extractLsb'_extractLsb'_of_le (by decide)
  simp only [isCompressedHalf, halfOf, Bool.false_eq_true, if_false, h]

/-- The halves of a word put together. -/
theorem extractLsb'_append_low (h l : BitVec 16) :
    BitVec.extractLsb' 0 16 ((h ++ l : BitVec 32)) = l :=
  BitVec.extractLsb'_append_eq_right

/-- The upper half of two half words put together. -/
theorem extractLsb'_append_high (h l : BitVec 16) :
    BitVec.extractLsb' 16 16 ((h ++ l : BitVec 32)) = h :=
  BitVec.extractLsb'_append_eq_left

/-- The word of an instruction address, as a number. -/
theorem wordOf_toNat (a : BitVec 31) : (wordOf a).toNat = a.toNat / 2 := by
  have := a.isLt
  simp only [wordOf, BitVec.extractLsb'_toNat, Nat.shiftRight_eq_div_pow]
  omega

/-- An address is unaligned if it is odd in half words. -/
theorem unaligned_iff (a : BitVec 31) : unaligned a = true ↔ a.toNat % 2 = 1 := by
  simp [unaligned, BitVec.getLsbD, Nat.testBit_zero]

/-- Two half words on the word is the next one. -/
theorem wordOf_add_two (a : BitVec 31) : wordOf (a + 2#31) = wordOf a + 1#30 := by
  have := a.isLt
  apply BitVec.eq_of_toNat_eq
  simp only [wordOf_toNat, BitVec.toNat_add, BitVec.toNat_ofNat]
  omega

/-- Behind the upper half word the next word begins. -/
theorem wordOf_add_one_of_unaligned {a : BitVec 31} (h : unaligned a = true) :
    wordOf (a + 1#31) = wordOf a + 1#30 := by
  have := a.isLt
  rw [unaligned_iff] at h
  apply BitVec.eq_of_toNat_eq
  simp only [wordOf_toNat, BitVec.toNat_add, BitVec.toNat_ofNat]
  omega

/-- Behind the lower half word is the upper one. -/
theorem wordOf_add_one_of_aligned {a : BitVec 31} (h : unaligned a = false) :
    wordOf (a + 1#31) = wordOf a := by
  have := a.isLt
  rw [← Bool.not_eq_true, unaligned_iff] at h
  apply BitVec.eq_of_toNat_eq
  simp only [wordOf_toNat, BitVec.toNat_add, BitVec.toNat_ofNat]
  omega

/-- One half word further the alignment is the other one. -/
theorem unaligned_add_one (a : BitVec 31) : unaligned (a + 1#31) = !unaligned a := by
  have := a.isLt
  have h1 := unaligned_iff a
  have h2 := unaligned_iff (a + 1#31)
  simp only [BitVec.toNat_add, BitVec.toNat_ofNat] at h2
  cases h : unaligned a <;> cases h' : unaligned (a + 1#31) <;> simp_all <;> omega

/-- The word of a byte address. -/
def wordOfAddr (a : BitVec 32) : BitVec 30 := a.extractLsb' 2 30

/-- The word of a byte address, as a number. -/
theorem wordOfAddr_toNat (a : BitVec 32) : (wordOfAddr a).toNat = a.toNat / 4 := by
  have := a.isLt
  simp only [wordOfAddr, BitVec.extractLsb'_toNat, Nat.shiftRight_eq_div_pow]
  omega

/-- Four bytes on the word is the next one. -/
theorem wordOfAddr_add_four (a : BitVec 32) : wordOfAddr (a + 4#32) = wordOfAddr a + 1#30 := by
  have := a.isLt
  apply BitVec.eq_of_toNat_eq
  simp only [wordOfAddr_toNat, BitVec.toNat_add, BitVec.toNat_ofNat]
  omega

/-- The word of its own address. -/
theorem wordOfAddr_append (w : BitVec 30) : wordOfAddr (w ++ 0b00#2) = w :=
  BitVec.extractLsb'_append_eq_left

/-- The half word of a byte address is in its word. -/
theorem wordOf_extractLsb' (a : BitVec 32) : wordOf (a.extractLsb' 1 31) = wordOfAddr a := by
  have := a.isLt
  apply BitVec.eq_of_toNat_eq
  simp only [wordOf_toNat, wordOfAddr_toNat, BitVec.extractLsb'_toNat,
    Nat.shiftRight_eq_div_pow]
  omega

/-! ### The parse -/

namespace FetchMem

variable (m : FetchMem) (a : BitVec 31)

/-- The half word at an address. -/
def half : BitVec 16 := halfOf (unaligned a) (m (wordOf a)).rdata

/-- The instruction at an address has 16 bits. -/
def compressed : Bool := isCompressedHalf (half m a)

/-- The address of the next instruction. -/
def parseStep : BitVec 31 := a + if compressed m a then 1#31 else 2#31

/-- The instruction at an address takes part of the next word. -/
def crosses : Bool := unaligned a && !compressed m a

/-- A word with needed bytes of the instruction has an error. -/
def instrErr : Bool := (m (wordOf a)).bad || (crosses m a && (m (wordOf a + 1#30)).bad)

/-- Only the second word of the instruction has an error. -/
def instrErrPlus2 : Bool :=
  !(m (wordOf a)).bad && crosses m a && (m (wordOf a + 1#30)).bad

end FetchMem

/-- What a fetch shows of an instruction. -/
structure FetchOut where
  rdata : BitVec 32
  addr : BitVec 32
  err : Bool
  errPlus2 : Bool
  deriving DecidableEq

/-- The fetch delivers the instruction at `a`: its address, its errors, and those bytes of
it that come from words without a PMP error. `errPlus2` only counts with `err`. -/
structure Delivers (m : FetchMem) (a : BitVec 31) (o : FetchOut) : Prop where
  addr : o.addr = a ++ 0#1
  err : o.err = m.instrErr a
  errPlus2 : o.err = true → o.errPlus2 = m.instrErrPlus2 a
  low : (m (wordOf a)).pmpErr = false → o.rdata.extractLsb' 0 16 = m.half a
  high : (m (wordOf a)).pmpErr = false → m.compressed a = false →
    (m (wordOf (a + 1#31))).pmpErr = false → o.rdata.extractLsb' 16 16 = m.half (a + 1#31)

/-- A delivered instruction without an error has the length of the one in the memory. -/
theorem Delivers.compressed {m : FetchMem} {a : BitVec 31} {o : FetchOut} (h : Delivers m a o)
    (he : o.err = false) :
    isCompressedHalf (o.rdata.extractLsb' 0 16) = m.compressed a := by
  have hb : (m (wordOf a)).bad = false := by
    have := h.err.symm.trans he
    simp only [FetchMem.instrErr, Bool.or_eq_false_iff] at this
    exact this.1
  simp only [FetchWord.bad, Bool.or_eq_false_iff] at hb
  rw [h.low hb.2, FetchMem.compressed]

/-! ### A row of words -/

/-- The entries hold the words of the memory from the word `w` on. -/
def HoldsFrom (m : FetchMem) : BitVec 30 → List FetchEntry → Prop
  | _, [] => True
  | w, e :: l => (m w).Holds e ∧ HoldsFrom m (w + 1#30) l

/-- The word `n` places behind `w`. -/
def wordAt (w : BitVec 30) (n : ℕ) : BitVec 30 := w + BitVec.ofNat 30 n

/-- No word further is the word itself. -/
@[simp] theorem wordAt_zero (w : BitVec 30) : wordAt w 0 = w := by simp [wordAt]

/-- One word further, counted from the front. -/
theorem wordAt_succ (w : BitVec 30) (n : ℕ) : wordAt w (n + 1) = wordAt (w + 1#30) n := by
  simp only [wordAt, BitVec.ofNat_add]
  ac_rfl

/-- One word further, counted from the end. -/
theorem wordAt_add_one (w : BitVec 30) (n : ℕ) : wordAt w n + 1#30 = wordAt w (n + 1) := by
  simp only [wordAt, BitVec.ofNat_add]
  ac_rfl

/-- Steps of words add up. -/
theorem wordAt_wordAt (w : BitVec 30) (n k : ℕ) : wordAt (wordAt w n) k = wordAt w (n + k) := by
  simp only [wordAt, BitVec.ofNat_add]
  ac_rfl

/-- A row of entries is a row of its two parts, the second of which goes on where the first one
ends. -/
theorem holdsFrom_append {m : FetchMem} {w : BitVec 30} {l l' : List FetchEntry} :
    HoldsFrom m w (l ++ l') ↔ HoldsFrom m w l ∧ HoldsFrom m (wordAt w l.length) l' := by
  induction l generalizing w with
  | nil => simp [HoldsFrom]
  | cons e l ih =>
      simp only [List.cons_append, HoldsFrom, ih, List.length_cons, wordAt_succ, and_assoc]

end CocoIbex
