import CocoIbex.LongMultiplication
import CocoIbex.MultdivRun

/-!
# The Slow Multiplications

The low half of a product is summed up bit by bit until no bit of the multiplier is left; the
high half with partial products that are never negative, in a window of 33 bits.

The first loop keeps the sum of the accumulator and the product of the two shift registers
(`SumsTo`); one operand is doubled as the other is halved, and with the last bit that is set the
accumulator is the product. Its number of cycles depends on the operand. The second loop has a
fixed number of cycles. The accumulator is a window over the upper bits of the sum, and the
offsets in the partial products are such that they are gone from the window in the end
(`Windowed`); a signed multiplier has a negative weight in its last bit, which the last cycle
subtracts.

The arithmetic is that of `LongMultiplication`, on integers; what is shown here is that the
accumulator of 33 bits does not overflow.

## Main results

* `comp_delivers_mull` and `comp_delivers_mulh` — the two loops;
* `delivers_mull` and `delivers_mulh` — the multiplications around them;
* `slow_multiplication_correct` — `mul`, `mulh`, `mulhsu` and `mulhu`, for all operands.
-/

namespace CocoIbex

open Machine Rv32 LongMultiplication

namespace MultdivSlow

/-! ### Sums and partial products -/

/-- The sum in its low bits. -/
theorem resAdderL_ungated (p q : BitVec 33) : resAdderL (ungatedAdder (p, q)) = p + q := by
  refine BitVec.eq_of_toNat_eq ?_
  have hp := p.isLt
  have hq := q.isLt
  simp only [resAdderL, ungatedAdder, BitVec.extractLsb'_toNat, BitVec.toNat_add,
    BitVec.toNat_setWidth, Nat.shiftRight_zero]
  omega

/-- The sum shifted to the right, with its carry. -/
theorem toNat_resAdderH_ungated (p q : BitVec 33) :
    (resAdderH (ungatedAdder (p, q))).toNat = (p.toNat + q.toNat) / 2 := by
  have hp := p.isLt
  have hq := q.isLt
  simp only [resAdderH, ungatedAdder, BitVec.extractLsb'_toNat, BitVec.toNat_add,
    BitVec.toNat_setWidth, Nat.shiftRight_eq_div_pow]
  omega

/-- The lowest bit as a number. -/
theorem toNat_getLsbD_zero {w : ℕ} (v : BitVec w) : (v.getLsbD 0).toNat = v.toNat % 2 := by
  rw [BitVec.getLsbD, Nat.testBit_zero]
  obtain h | h := Nat.mod_two_eq_zero_or_one v.toNat <;> simp [h]

/-- A partial product, its sign bit inverted, is the exact one and an offset. -/
theorem toNat_partial (p : BitVec 33) (c : Bool) :
    ((BitVec.ofBool (!(p.getLsbD 32 && c)) ++ (p.extractLsb' 0 32 &&& Bits.fill 32 c)
      : BitVec 33).toNat : ℤ) = 2 ^ 32 + p.toInt * c.toNat := by
  have hp := p.isLt
  have hmsb : p.getLsbD 32 = decide (2 ^ 32 ≤ p.toNat) :=
    (BitVec.msb_eq_getLsbD_last p).symm.trans (BitVec.msb_eq_decide p)
  rw [Bits.toNat_append_eq, Bits.and_fill, hmsb, BitVec.toInt_eq_toNat_cond]
  cases c with
  | false => simp
  | true =>
      rw [if_pos rfl, BitVec.extractLsb'_toNat, Nat.shiftRight_zero, BitVec.toNat_ofBool,
        Bool.and_true, Bool.toNat_true]
      by_cases h : 2 ^ 32 ≤ p.toNat
      · rw [if_neg (by omega), decide_eq_true h, Bool.not_true, Bool.toNat_false]
        omega
      · rw [if_pos (by omega), decide_eq_false h, Bool.not_false, Bool.toNat_true]
        omega

/-- The first one enters the window shifted. -/
theorem toNat_partial_first (p : BitVec 33) (c : Bool) :
    ((1#1 ++ (BitVec.ofBool (!(p.getLsbD 32 && c)) ++ (p.extractLsb' 1 31 &&& Bits.fill 31 c)
      : BitVec 32) : BitVec 33).toNat : ℤ) = 2 ^ 32 + (2 ^ 32 + p.toInt * c.toNat) / 2 := by
  have hp := p.isLt
  rw [← toNat_partial, Bits.toNat_append_eq, Bits.toNat_append_eq, Bits.toNat_append_eq,
    Bits.and_fill, Bits.and_fill]
  cases c with
  | false => simp
  | true =>
      rw [if_pos rfl, if_pos rfl, BitVec.extractLsb'_toNat, BitVec.extractLsb'_toNat,
        Nat.shiftRight_zero, Nat.shiftRight_eq_div_pow, show (1#1).toNat = 1 from rfl]
      push_cast
      omega

/-- The last one is subtracted. -/
theorem toNat_partial_last (p : BitVec 33) (c : Bool) :
    ((BitVec.ofBool (p.getLsbD 32 && c) ++ ~~~(p.extractLsb' 0 32 &&& Bits.fill 32 c)
      : BitVec 33).toNat : ℤ) = 2 ^ 32 - 1 - p.toInt * c.toNat := by
  have hp := p.isLt
  have hmsb : p.getLsbD 32 = decide (2 ^ 32 ≤ p.toNat) :=
    (BitVec.msb_eq_getLsbD_last p).symm.trans (BitVec.msb_eq_decide p)
  rw [Bits.toNat_append_eq, Bits.and_fill, BitVec.toNat_not, hmsb,
    BitVec.toInt_eq_toNat_cond]
  cases c with
  | false => simp
  | true =>
      rw [if_pos rfl, BitVec.extractLsb'_toNat, Nat.shiftRight_zero, BitVec.toNat_ofBool,
        Bool.and_true, Bool.toNat_true]
      by_cases h : 2 ^ 32 ≤ p.toNat
      · rw [if_neg (by omega), decide_eq_true h, Bool.toNat_true]
        omega
      · rw [if_pos (by omega), decide_eq_false h, Bool.toNat_false]
        omega

/-! ### The operands -/

section Operands

variable (i : MdInsn)

/-- The first operand with its sign. -/
def extA : BitVec 33 := BitVec.ofBool (i.a.getLsbD 31 && i.op.signedA) ++ i.a

/-- The second operand with its sign. -/
def extB : BitVec 33 := BitVec.ofBool (i.b.getLsbD 31 && i.op.signedB) ++ i.b

variable {i} {v : BitVec 34} {ready : Bool}

/-- The first operand, extended by its sign. -/
@[simp] theorem opAExt_input : opAExt (i.input v ready) = extA i := by
  rw [opAExt, MdInsn.input_signA]
  rfl

/-- The second operand, extended by its sign. -/
@[simp] theorem opBExt_input : opBExt (i.input v ready) = extB i := by
  rw [opBExt, MdInsn.input_signB]
  rfl

/-- The lowest bit of an extended operand is its own. -/
theorem getLsbD_zero_extB : (extB i).getLsbD 0 = i.b.getLsbD 0 := by
  rw [extB, BitVec.getLsbD_append, if_pos (by decide)]

/-- A word with its sign in front of it. -/
theorem toInt_signed_word (signed : Bool) (v : BitVec 32) :
    (BitVec.ofBool (v.getLsbD 31 && signed) ++ v : BitVec 33).toInt = value signed v := by
  have hv := v.isLt
  have hmsb : v.getLsbD 31 = decide (2 ^ 31 ≤ v.toNat) :=
    (BitVec.msb_eq_getLsbD_last v).symm.trans (BitVec.msb_eq_decide v)
  rw [BitVec.toInt_eq_toNat_cond, Bits.toNat_append_eq, hmsb, value, BitVec.toNat_ofBool]
  cases signed with
  | false =>
      rw [Bool.and_false, Bool.toNat_false, if_pos (by omega), if_neg Bool.false_ne_true]
      omega
  | true =>
      rw [Bool.and_true, if_pos rfl, BitVec.toInt_eq_toNat_cond]
      by_cases h : 2 ^ 31 ≤ v.toNat
      · rw [decide_eq_true h, Bool.toNat_true, if_neg (by omega), if_neg (by omega)]
        omega
      · rw [decide_eq_false h, Bool.toNat_false, if_pos (by omega), if_pos (by omega)]
        omega

end Operands

/-! ### The last state -/

section Last

variable {i : MdInsn} {s : State} {acc : BitVec 33}

/-- The operands of the adder. -/
theorem aluOperands_mull (hop : i.operator = .mull) (ready : Bool) :
    aluOperands s (i.input (acc.setWidth 34) ready) = (acc, opABwPp s) := by
  simp only [aluOperands, MdInsn.input_operator, hop, accumWindowQ_setWidth]

/-- MULH adds the row of the current bit to the accumulator, and its complement for the sign bit. -/
theorem aluOperands_mulh (hop : i.operator = .mulh) (ready : Bool) :
    aluOperands s (i.input (acc.setWidth 34) ready)
      = (acc, if s.mdState = .last then opABwLastPp s else opABwPp s) := by
  simp only [aluOperands, MdInsn.input_operator, hop, accumWindowQ_setWidth]

/-- A multiplication shows its last state only. -/
theorem shows_at_work (hs : s.mdState = .idle ∨ s.mdState = .comp) : shows i s = false := by
  obtain hs | hs := hs <;> rw [shows, hs] <;> rfl

/-- The last state of a multiplication presents the last sum. -/
theorem presents_last (hmul : i.op.isDiv = false) (hs : s.mdState = .last) {q : BitVec 33}
    (hq : ∀ ready, aluOperands s (i.input (acc.setWidth 34) ready) = (acc, q)) :
    (regs s (acc.setWidth 34)).Presents i (fun s => MultdivSlow.State.mdState s = .idle)
      ((acc + q).extractLsb' 0 32) := by
  have hop : i.operator = .mull ∨ i.operator = .mulh := by
    obtain ⟨hop, -⟩ | ⟨hop, -⟩ := MdInsn.result_of_mul hmul
    · exact Or.inl hop
    · exact Or.inr hop
  have hcycle : ∀ ready, cycle i s (acc.setWidth 34) ready
      = ⟨{ s with mdState := .idle }, acc + q, !ready⟩ := by
    intro ready
    obtain hop | hop := hop
    · simp only [cycle, selected, hs, hq, MdInsn.input_operator, hop, resAdderL_ungated,
        MdInsn.input_multdivReadyId]
    · simp only [cycle, selected, hs, hq, MdInsn.input_operator, hop, resAdderL_ungated,
        MdInsn.input_multdivReadyId]
  refine ⟨fun ready => ?_, fun ready => ?_, ?_, ?_⟩
  · rw [valid_regs, shows, hs]
    obtain hop | hop := hop <;> rw [hop] <;> rfl
  · have hout : (regs s (acc.setWidth 34)).out i ready
        = step s (i.input (acc.setWidth 34) ready)
            (ungatedAdder (aluOperands s (i.input (acc.setWidth 34) ready))) := rfl
    rw [hout, hq]
    simp only [step, MdInsn.input_divSel, hmul, Bool.false_eq_true, if_false, resAdderL_ungated]
  · rw [next_regs, hcycle, Bool.not_false, if_pos rfl]
  · rw [next_regs, hcycle, Bool.not_true, if_neg Bool.false_ne_true]
    rfl

end Last

/-! ### The low half -/

section Low

variable {i : MdInsn} {s : State} {acc : BitVec 33}

/-- The sum so far and the product of what is left of the operands make up the result. -/
def SumsTo (i : MdInsn) (s : State) (acc : BitVec 33) : Prop :=
  acc.toNat + s.opAShift.toNat * s.opBShift.toNat ≡ i.a.toNat * i.b.toNat [MOD 2 ^ 32]

/-- A partial product in its low bits. -/
theorem toNat_opABwPp_mod (s : State) :
    (opABwPp s).toNat ≡ s.opAShift.toNat * (s.opBShift.toNat % 2) [MOD 2 ^ 32] := by
  rw [← toNat_getLsbD_zero, opABwPp, Bits.toNat_append_eq, Bits.and_fill]
  cases s.opBShift.getLsbD 0 with
  | false => simp [Nat.ModEq]
  | true =>
      rw [if_pos rfl, BitVec.extractLsb'_toNat, Nat.shiftRight_zero, Bool.toNat_true, mul_one]
      exact (Nat.mul_add_mod_self_right _ _ _).trans (Nat.mod_mod _ _)

/-- What a cycle adds is taken from the product. -/
theorem sumsTo_next {p q : BitVec 33} {n : ℕ}
    (hn : n + p.toNat * q.toNat ≡ i.a.toNat * i.b.toNat [MOD 2 ^ 32])
    (hacc : acc.toNat ≡ n + p.toNat * (q.toNat % 2) [MOD 2 ^ 32])
    (hp : s.opAShift = p <<< 1) (hq : s.opBShift = q >>> 1) : SumsTo i s acc := by
  have hshift : (p <<< 1).toNat ≡ 2 * p.toNat [MOD 2 ^ 32] := by
    rw [BitVec.toNat_shiftLeft, Nat.shiftLeft_eq, Nat.ModEq]
    omega
  have hhalf : (q >>> 1).toNat = q.toNat / 2 := by
    rw [BitVec.toNat_ushiftRight, Nat.shiftRight_eq_div_pow, pow_one]
  rw [SumsTo, hp, hq, hhalf]
  calc acc.toNat + (p <<< 1).toNat * (q.toNat / 2)
      ≡ n + p.toNat * (q.toNat % 2) + 2 * p.toNat * (q.toNat / 2) [MOD 2 ^ 32] :=
        hacc.add (hshift.mul_right _)
    _ = n + p.toNat * q.toNat := shift_add _ _ _
    _ ≡ i.a.toNat * i.b.toNat [MOD 2 ^ 32] := hn

variable (hmul : i.op.isDiv = false) (hop : i.operator = .mull)

include hop

/-- A cycle of MUL adds the row of the lowest bit and shifts both operands. -/
theorem cycle_comp_mull (hs : s.mdState = .comp) (ready : Bool) :
    cycle i s (acc.setWidth 34) ready
      = ⟨{ s with multdivState := s.multdivState - 1#5, opAShift := s.opAShift <<< 1,
                  opBShift := s.opBShift >>> 1,
                  mdState := if s.opBShift >>> 1 = 0#33 then .last else .comp },
        acc + opABwPp s, false⟩ := by
  simp only [cycle, selected, hs, aluOperands_mull hop, MdInsn.input_operator, hop,
    resAdderL_ungated]

/-- The first cycle of MUL takes the row of bit zero, which has its sign turned around. -/
theorem cycle_idle_mull {v : BitVec 34} (hs : s.mdState = .idle) (ready : Bool) :
    cycle i s v ready
      = ⟨{ s with multdivState := 31#5, opAShift := extA i <<< 1, opBShift := extB i >>> 1,
                  mdState := if extB i >>> 1 = 0#33 then .last else .comp },
        BitVec.ofBool (!((extA i).getLsbD 32 && i.b.getLsbD 0))
          ++ ((extA i).extractLsb' 0 32 &&& Bits.fill 32 (i.b.getLsbD 0)), false⟩ := by
  simp only [cycle, selected, hs, MdInsn.input_operator, hop, opAExt_input, opBExt_input,
    MdInsn.input_opB]

include hmul

/-- With no bits left the sum is the low half of the product. -/
theorem last_delivers_mull (hs : s.mdState = .last) (hb : s.opBShift = 0#33)
    (h : SumsTo i s acc) :
    (regs s (acc.setWidth 34)).Delivers i (fun s => MultdivSlow.State.mdState s = .idle)
      i.result := by
  have hacc : acc.toNat ≡ i.a.toNat * i.b.toNat [MOD 2 ^ 32] := by
    simpa [SumsTo, hb] using h
  have hpp : (opABwPp s).toNat ≡ 0 [MOD 2 ^ 32] := by
    simpa [hb] using toNat_opABwPp_mod s
  have hres : (acc + opABwPp s).extractLsb' 0 32 = i.result := by
    obtain ⟨-, hmulop, hres⟩ | ⟨hmulh, -⟩ := MdInsn.result_of_mul hmul
    · have hprod : i.op.product i.a i.b = ((i.a.toNat * i.b.toNat : ℕ) : ℤ) := by
        rw [MulDiv.product, hmulop, Nat.cast_mul]
        rfl
      rw [hres, hprod, BitVec.ofInt_natCast]
      refine BitVec.eq_of_toNat_eq ?_
      rw [BitVec.extractLsb'_toNat, Nat.shiftRight_zero, BitVec.toNat_add, BitVec.toNat_ofNat,
        Nat.mod_mod_of_dvd _ (by decide)]
      exact hacc.add hpp
    · rw [hop] at hmulh
      cases hmulh
  rw [← hres]
  exact ⟨0, _, .refl _, presents_last hmul hs fun ready => aluOperands_mull hop ready⟩

/-- **The loop** ends with the last bit that is set. -/
theorem comp_delivers_mull {k : ℕ} (hs : s.mdState = if s.opBShift = 0#33 then .last else .comp)
    (hk : s.opBShift.toNat < 2 ^ k) (h : SumsTo i s acc) :
    (regs s (acc.setWidth 34)).Delivers i (fun s => MultdivSlow.State.mdState s = .idle)
      i.result := by
  induction k generalizing s acc with
  | zero =>
      have hb : s.opBShift = 0#33 := BitVec.eq_of_toNat_eq (Nat.lt_one_iff.mp hk)
      rw [if_pos hb] at hs
      exact last_delivers_mull hmul hop hs hb h
  | succ k ih =>
      by_cases hb : s.opBShift = 0#33
      · rw [if_pos hb] at hs
        exact last_delivers_mull hmul hop hs hb h
      · rw [if_neg hb] at hs
        refine .of_comes (comes_of_cycle (shows_at_work (Or.inr hs)) (cycle_comp_mull hop hs)) ?_
        refine ih rfl ?_ (sumsTo_next h ?_ rfl rfl)
        · rw [BitVec.toNat_ushiftRight, Nat.shiftRight_eq_div_pow]
          omega
        · have hadd : (acc + opABwPp s).toNat ≡ acc.toNat + (opABwPp s).toNat [MOD 2 ^ 32] := by
            rw [BitVec.toNat_add]
            exact Nat.mod_mod_of_dvd _ (by decide)
          exact hadd.trans ((toNat_opABwPp_mod s).add_left _)

/-- **The low half of a product.** -/
theorem delivers_mull (v : BitVec 34) (hs : s.mdState = .idle) :
    (regs s v).Delivers i (fun s => MultdivSlow.State.mdState s = .idle) i.result := by
  refine .of_comes (comes_of_cycle (shows_at_work (Or.inl hs)) (cycle_idle_mull hop hs)) ?_
  refine comp_delivers_mull (k := 33) hmul hop rfl (BitVec.isLt _) ?_
  have hsigned : i.op.signedA = false ∧ i.op.signedB = false := by
    obtain ⟨-, hmulop, -⟩ | ⟨hmulh, -⟩ := MdInsn.result_of_mul hmul
    · rw [hmulop]
      exact ⟨rfl, rfl⟩
    · rw [hop] at hmulh
      cases hmulh
  have ha : (extA i).toNat = i.a.toNat := by
    rw [extA, hsigned.1, Bool.and_false, Bits.toNat_append_eq]
    exact Nat.zero_add _
  have hb : (extB i).toNat = i.b.toNat := by
    rw [extB, hsigned.2, Bool.and_false, Bits.toNat_append_eq]
    exact Nat.zero_add _
  refine sumsTo_next (n := 0) (p := extA i) (q := extB i) ?_ ?_ rfl rfl
  · rw [ha, hb, Nat.zero_add]
  · -- the first partial product
    have hpp := toNat_opABwPp_mod ⟨0#5, .comp, extB i, extA i, 0#32⟩
    rw [Nat.zero_add]
    simpa only [opABwPp, getLsbD_zero_extB] using hpp

end Low

/-! ### The high half -/

section High

variable {i : MdInsn} {s : State} {acc : BitVec 33}

/-- The registers in the loop, with the bits of the second operand below `k` done. -/
structure Windowed (i : MdInsn) (s : State) (acc : BitVec 33) (k : ℕ) : Prop where
  counter : s.multdivState.toNat + k = 32
  opA : s.opAShift = extA i
  opB : s.opBShift = extB i >>> k
  accum : (acc.toNat : ℤ) = window 32 (extA i).toInt (extB i).toNat k

/-- The bit of a cycle. -/
theorem Windowed.bit {k : ℕ} (h : Windowed i s acc k) :
    ((s.opBShift.getLsbD 0).toNat : ℤ) = ((extB i).toNat : ℤ) / 2 ^ k % 2 := by
  rw [toNat_getLsbD_zero, h.opB, BitVec.toNat_ushiftRight, Nat.shiftRight_eq_div_pow]
  push_cast
  rfl

/-- The partial product of a cycle. -/
theorem Windowed.toNat_opABwPp {k : ℕ} (h : Windowed i s acc k) :
    ((opABwPp s).toNat : ℤ)
      = 2 ^ 32 + (extA i).toInt * (((extB i).toNat : ℤ) / 2 ^ k % 2) := by
  rw [opABwPp, toNat_partial, h.opA, h.bit]

section Cycles

variable (hmul : i.op.isDiv = false) (hop : i.operator = .mulh)

include hop

/-- A cycle of MULH adds the row of the lowest bit and shifts the sum down. -/
theorem cycle_comp_mulh (hs : s.mdState = .comp) (ready : Bool) :
    cycle i s (acc.setWidth 34) ready
      = ⟨{ s with multdivState := s.multdivState - 1#5, opBShift := s.opBShift >>> 1,
                  mdState := if s.multdivState = 1#5 then .last else .comp },
        resAdderH (ungatedAdder (acc, opABwPp s)), false⟩ := by
  simp only [cycle, selected, hs, aluOperands_mulh hop, MdInsn.input_operator, hop, reduceCtorEq,
    if_false]

/-- The first cycle of MULH takes the upper part of the row of bit zero, with the constant that
corrects all signs. -/
theorem cycle_idle_mulh {v : BitVec 34} (hs : s.mdState = .idle) (ready : Bool) :
    cycle i s v ready
      = ⟨{ s with multdivState := 31#5, opAShift := extA i, opBShift := extB i >>> 1,
                  mdState := .comp },
        1#1 ++ (BitVec.ofBool (!((extA i).getLsbD 32 && i.b.getLsbD 0))
          ++ ((extA i).extractLsb' 1 31 &&& Bits.fill 31 (i.b.getLsbD 0)) : BitVec 32),
        false⟩ := by
  simp only [cycle, selected, hs, MdInsn.input_operator, hop, opAExt_input, opBExt_input,
    MdInsn.input_opB]

/-- One cycle of the loop. -/
theorem comp_next_mulh {k : ℕ} (hk : k < 32) (hs : s.mdState = .comp) (h : Windowed i s acc k) :
    ∃ s' acc', (regs s (acc.setWidth 34)).Comes i 1 (regs s' (acc'.setWidth 34)) ∧
      s'.mdState = (if k = 31 then .last else .comp) ∧ Windowed i s' acc' (k + 1) := by
  have hcount : (s.multdivState - 1#5).toNat + (k + 1) = 32 := by
    have := h.counter
    have := s.multdivState.isLt
    rw [BitVec.toNat_sub, BitVec.toNat_ofNat]
    omega
  have hlast : s.multdivState = 1#5 ↔ k = 31 := by
    have := h.counter
    rw [← BitVec.toNat_inj, BitVec.toNat_ofNat]
    omega
  refine ⟨_, _, comes_of_cycle (shows_at_work (Or.inr hs)) (cycle_comp_mulh hop hs),
    by simp only [hlast], hcount, h.opA, ?_, ?_⟩
  · simp only [h.opB, BitVec.shiftRight_add]
  · rw [toNat_resAdderH_ungated, ← window_succ, ← h.accum, ← h.toNat_opABwPp]
    push_cast
    rfl

include hmul

/-- The last state. -/
theorem last_delivers_mulh (hs : s.mdState = .last) (h : Windowed i s acc 32) :
    (regs s (acc.setWidth 34)).Delivers i (fun s => MultdivSlow.State.mdState s = .idle)
      i.result := by
  have hsplit : (extB i).toInt
      = (extB i).toNat % 2 ^ 32 - ((extB i).toNat : ℤ) / 2 ^ 32 % 2 * 2 ^ 32 := by
    have := (extB i).isLt
    rw [BitVec.toInt_eq_toNat_cond]
    split_ifs <;> omega
  have hlast : ((opABwLastPp s).toNat : ℤ)
      = 2 ^ 32 - 1 - (extA i).toInt * (((extB i).toNat : ℤ) / 2 ^ 32 % 2) := by
    rw [opABwLastPp, toNat_partial_last, h.opA, h.bit]
  have hsum : (acc.toNat : ℤ) + (opABwLastPp s).toNat
      = i.op.product i.a i.b / 2 ^ 32 + 2 * 2 ^ 32 := by
    rw [h.accum, hlast, window_last, ← hsplit, extA, extB, toInt_signed_word, toInt_signed_word]
    rfl
  have hres : (acc + opABwLastPp s).extractLsb' 0 32 = i.result := by
    obtain ⟨hmull, -, -⟩ | ⟨-, hres⟩ := MdInsn.result_of_mul hmul
    · rw [hop] at hmull
      cases hmull
    · refine BitVec.eq_of_toNat_eq ?_
      rw [hres, BitVec.extractLsb'_toNat, Nat.shiftRight_zero, BitVec.toNat_add,
        BitVec.toNat_ofInt]
      omega
  rw [← hres]
  refine ⟨0, _, .refl _, presents_last hmul hs fun ready => ?_⟩
  rw [aluOperands_mulh hop, if_pos hs]

/-- **The loop.** -/
theorem comp_delivers_mulh {n k : ℕ} (hn : k + n + 1 = 32) (hs : s.mdState = .comp)
    (h : Windowed i s acc k) :
    (regs s (acc.setWidth 34)).Delivers i (fun s => MultdivSlow.State.mdState s = .idle)
      i.result := by
  induction n generalizing k s acc with
  | zero =>
      obtain rfl : k = 31 := by omega
      obtain ⟨s', acc', hgo, hst, h'⟩ := comp_next_mulh hop (by omega) hs h
      exact .of_comes hgo (last_delivers_mulh hmul hop hst h')
  | succ n ih =>
      obtain ⟨s', acc', hgo, hst, h'⟩ := comp_next_mulh hop (by omega) hs h
      rw [if_neg (by omega)] at hst
      exact .of_comes hgo (ih (by omega) hst h')

/-- **The high half of a product.** -/
theorem delivers_mulh (v : BitVec 34) (hs : s.mdState = .idle) :
    (regs s v).Delivers i (fun s => MultdivSlow.State.mdState s = .idle) i.result := by
  refine .of_comes (comes_of_cycle (shows_at_work (Or.inl hs)) (cycle_idle_mulh hop hs)) ?_
  refine comp_delivers_mulh hmul hop (n := 30) (k := 1) rfl rfl ⟨rfl, rfl, rfl, ?_⟩
  rw [toNat_partial_first, ← getLsbD_zero_extB, toNat_getLsbD_zero]
  rfl

end Cycles

end High

end MultdivSlow

/-! ### The EX block -/

/-- **Slow multiplications are correct**: from an idle unit, with the operands held and the
adder open, `mul`, `mulh`, `mulhsu` and `mulhu` compute their results. -/
theorem slow_multiplication_correct (cfg : Config) (hM : cfg.rv32m = true) (op : MulDiv)
    (hop : op.isDiv = false) (a b : BitVec 32) (s : ExState .slow)
    (hs : Multiplier.slow.Idle s.multdiv) : ExBlock.Computes cfg s ⟨op, a, b⟩ (op.exec a b) := by
  refine ExBlock.computes_of_delivers hM ?_
  obtain ⟨hmull, -⟩ | ⟨hmulh, -⟩ := MdInsn.result_of_mul (i := ⟨op, a, b⟩) hop
  · exact MultdivSlow.delivers_mull (i := ⟨op, a, b⟩) hop hmull s.imdValQ hs
  · exact MultdivSlow.delivers_mulh (i := ⟨op, a, b⟩) hop hmulh s.imdValQ hs

/-- A product of negative numbers after a reset. -/
theorem slow_multiplication_correct_mulh :
    ExBlock.Computes ⟨true, false, false⟩ (ExBlock.reset .slow)
        ⟨.mulh, 0x80000000#32, 0xffffffff#32⟩ (MulDiv.exec .mulh 0x80000000#32 0xffffffff#32) ∧
      MulDiv.exec .mulh 0x80000000#32 0xffffffff#32 = 0#32 :=
  ⟨slow_multiplication_correct ⟨true, false, false⟩ rfl .mulh rfl _ _ (ExBlock.reset .slow) rfl,
    by decide⟩

end CocoIbex
