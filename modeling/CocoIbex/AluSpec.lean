import CocoIbex.Alu
import CocoIbex.Rv32

/-!
# What the ALU Computes

The operations of RV32I in the ALU whose masks are off: the adder adds and subtracts, the
comparison is the order of the operands, and the shifter, which only shifts to the right, shifts
to the left between two reversals.

The lemmas are about an ALU that serves an instruction of its own (`Plain`): the multiplier and
divider have not taken the adder, and both enables are set. An adder of 34 bits with a carry-in
behind the operands is read as a sum of numbers, and the comparison as the sign of a difference;
the reversal is read by its bits (`getLsbD_reverse`). The module knows nothing of instruction
words: the operators are named by the instructions of RV32I as syntax (`opOf`, `shiftOf`,
`regOpOf`, `condOf`).

## Main results

* `adderResult_add` — the adder adds, which addresses and targets rest on too;
* `result_immOp` and `result_regOp` — the ALU computes the operations on a register and an
  immediate, and on two registers;
* `result_shift` — it computes the shifts;
* `cmpResult_cond` — it decides the conditions of the branches.
-/

namespace CocoIbex

namespace Alu

open Rv32

/-- The ALU works for an instruction of its own in its first cycle, without masks. -/
structure Plain (x : AluIn) : Prop where
  multdivSel : x.multdivSel = false
  shiftEnable : x.shiftEnable = true
  adderEnable : x.adderEnable = true

/-- The sign bit of a word. -/
theorem getLsbD_31 (v : BitVec 32) : v.getLsbD 31 = decide (2 ^ 31 ≤ v.toNat) :=
  (BitVec.msb_eq_getLsbD_last v).symm.trans (BitVec.msb_eq_decide v)

section

variable {x : AluIn} (h : Plain x)

include h

/-! ### The adder and the comparison -/

/-- The adder adds. -/
theorem adderResult_add (hop : adderOpBNegate x.operator = false) :
    adderResult x = x.operandA + x.operandB := by
  refine BitVec.eq_of_toNat_eq ?_
  simp only [adderResult, adderResultExt, adderInA, adderInB, h.multdivSel, h.adderEnable, hop,
    Bool.false_eq_true, if_false, Bits.gate_true, BitVec.extractLsb'_toNat, BitVec.toNat_add,
    BitVec.toNat_setWidth, Bits.toNat_append_eq, Nat.shiftRight_eq_div_pow]
  have := x.operandA.isLt
  have := x.operandB.isLt
  simp only [BitVec.toNat_ofNat]
  omega

/-- The adder subtracts. -/
theorem adderResult_sub (hop : adderOpBNegate x.operator = true) :
    adderResult x = x.operandA - x.operandB := by
  refine BitVec.eq_of_toNat_eq ?_
  have hneg : (operandBNeg x).toNat = 2 ^ 33 - 1 - 2 * x.operandB.toNat := by
    rw [operandBNeg, BitVec.xor_allOnes, BitVec.toNat_not, Bits.toNat_append_eq]
    simp only [BitVec.toNat_ofNat]
    omega
  simp only [adderResult, adderResultExt, adderInA, adderInB, h.multdivSel, h.adderEnable, hop,
    Bool.false_eq_true, if_false, if_true, Bits.gate_true, BitVec.extractLsb'_toNat,
    BitVec.toNat_add, BitVec.toNat_setWidth, Bits.toNat_append_eq, Nat.shiftRight_eq_div_pow, hneg,
    BitVec.toNat_sub]
  have := x.operandA.isLt
  have := x.operandB.isLt
  simp only [BitVec.toNat_ofNat]
  omega

/-- The operands are equal iff their difference is zero. -/
theorem isEqual_sub (hop : adderOpBNegate x.operator = true) :
    isEqual x = (x.operandA == x.operandB) := by
  rw [isEqual, adderResult_sub h hop, Bool.eq_iff_iff, beq_iff_eq, beq_iff_eq,
    BitVec.sub_eq_iff_eq_add, BitVec.zero_add]

/-- The comparison is the order of the operands, signed or unsigned. -/
theorem isGreaterEqual_sub (hop : adderOpBNegate x.operator = true) :
    isGreaterEqual x =
      !(if cmpSigned x.operator then x.operandA.slt x.operandB
        else x.operandA.ult x.operandB) := by
  rw [isGreaterEqual, adderResult_sub h hop, getLsbD_31, getLsbD_31, getLsbD_31,
    BitVec.slt_eq_decide, BitVec.ult_eq_decide, BitVec.toInt_eq_toNat_cond,
    BitVec.toInt_eq_toNat_cond, BitVec.toNat_sub]
  have ha := x.operandA.isLt
  have hb := x.operandB.isLt
  cases cmpSigned x.operator
  all_goals
    rw [Bool.eq_iff_iff]
    simp
    split_ifs <;> omega

end

/-! ### The shifter -/

/-- The bit with which bit `i` changes places in a stage of the reversal. -/
def swapIndex (k i : ℕ) : ℕ := if i / k % 2 = 0 then i + k else i - k

/-- The masks of a stage: `lo` are the bits that move up by `k`, `hi` those that move down. -/
structure StageMasks (k : ℕ) (lo hi : BitVec 32) : Prop where
  pow : k = 1 ∨ k = 2 ∨ k = 4 ∨ k = 8 ∨ k = 16
  lo : ∀ i < 32, lo.getLsbD i = decide (i / k % 2 = 0)
  hi : ∀ i < 32, hi.getLsbD i = decide (i / k % 2 = 1)

/-- The partner of a bit is a bit. -/
theorem StageMasks.swapIndex_lt {k : ℕ} {lo hi : BitVec 32} (hm : StageMasks k lo hi) {i : ℕ}
    (hi32 : i < 32) : swapIndex k i < 32 := by
  rw [swapIndex]
  obtain rfl | rfl | rfl | rfl | rfl := hm.pow
  all_goals split_ifs <;> omega

/-- A stage of the reversal. -/
theorem StageMasks.getLsbD {k : ℕ} {lo hi : BitVec 32} (hm : StageMasks k lo hi) (v : BitVec 32)
    {i : ℕ} (hi32 : i < 32) :
    (reverseStage false k lo hi v).getLsbD i = v.getLsbD (swapIndex k i) := by
  simp only [reverseStage, Bool.false_eq_true, if_false, BitVec.getLsbD_or, BitVec.getLsbD_zero,
    BitVec.getLsbD_shiftLeft, BitVec.getLsbD_ushiftRight, BitVec.getLsbD_and, hi32, decide_true,
    Bool.false_or, Bool.true_and, swapIndex]
  by_cases hs : i / k % 2 = 0
  · -- the bit comes down from `i + k`
    have hlt : k + i < 32 ∧ (k + i) / k % 2 = 1 ∧ (i < k ∨ (i - k) / k % 2 = 1) := by
      obtain rfl | rfl | rfl | rfl | rfl := hm.pow <;> omega
    have hlo : i < k ∨ lo.getLsbD (i - k) = false := by
      refine hlt.2.2.imp_right fun h => ?_
      rw [hm.lo (i - k) (by omega), h]
      rfl
    rw [hm.hi (k + i) hlt.1, hlt.2.1, if_pos hs, Nat.add_comm i k]
    obtain h | h := hlo <;> simp [h]
  · -- the bit comes up from `i - k`
    have hlt : k ≤ i ∧ (i - k) / k % 2 = 0 ∧ (k + i) / k % 2 = 0 := by
      obtain rfl | rfl | rfl | rfl | rfl := hm.pow <;> omega
    have hhi : hi.getLsbD (k + i) = false := by
      by_cases h32 : k + i < 32
      · rw [hm.hi _ h32, hlt.2.2]
        rfl
      · exact BitVec.getLsbD_of_ge _ _ (by omega)
    rw [hm.lo (i - k) (by omega), hlt.2.1, if_neg hs, hhi]
    simp [hlt.1]

/-- The masks of the first stage. -/
theorem stageMasks_1 : StageMasks 1 0x55555555#32 0xaaaaaaaa#32 :=
  ⟨by omega, by decide, by decide⟩

/-- The masks of the second stage. -/
theorem stageMasks_2 : StageMasks 2 0x33333333#32 0xcccccccc#32 :=
  ⟨by omega, by decide, by decide⟩

/-- The masks of the third stage. -/
theorem stageMasks_4 : StageMasks 4 0x0f0f0f0f#32 0xf0f0f0f0#32 :=
  ⟨by omega, by decide, by decide⟩

/-- The masks of the fourth stage. -/
theorem stageMasks_8 : StageMasks 8 0x00ff00ff#32 0xff00ff00#32 :=
  ⟨by omega, by decide, by decide⟩

/-- The masks of the last stage. -/
theorem stageMasks_16 : StageMasks 16 0x0000ffff#32 0xffff0000#32 :=
  ⟨by omega, by decide, by decide⟩

/-- With all stages the reversal reverses. -/
theorem getLsbD_reverse (v : BitVec 32) {i : ℕ} (hi : i < 32) :
    (reverse false (fun _ => true) v).getLsbD i = v.getLsbD (31 - i) := by
  have h16 := stageMasks_16.swapIndex_lt hi
  have h8 := stageMasks_8.swapIndex_lt h16
  have h4 := stageMasks_4.swapIndex_lt h8
  have h2 := stageMasks_2.swapIndex_lt h4
  simp only [reverse, if_true]
  rw [stageMasks_16.getLsbD _ hi, stageMasks_8.getLsbD _ h16, stageMasks_4.getLsbD _ h8,
    stageMasks_2.getLsbD _ h4, stageMasks_1.getLsbD _ h2]
  clear h16 h8 h4 h2
  interval_cases i <;> rfl

/-- Without stages the reversal keeps the word. -/
theorem reverse_none (gorc : Bool) (v : BitVec 32) : reverse gorc (fun _ => false) v = v := by
  simp only [reverse, Bool.false_eq_true, if_false]

/-- The bits of a word that is shifted to the right with a bit in front. -/
theorem getLsbD_shift_ext (b : Bool) (v : BitVec 32) (k : ℕ) {i : ℕ} (hi : i < 32) :
    (((BitVec.ofBool b ++ v : BitVec 33).sshiftRight k).extractLsb' 0 32).getLsbD i
      = if k + i < 32 then v.getLsbD (k + i) else b := by
  have hmsb : (BitVec.ofBool b ++ v : BitVec 33).msb = b := by
    rw [BitVec.msb_eq_getLsbD_last, BitVec.getLsbD_append]
    simp
  simp only [BitVec.getLsbD_extractLsb', BitVec.getLsbD_sshiftRight, BitVec.getLsbD_append,
    hmsb, hi, decide_true, Bool.true_and, Nat.zero_add]
  have h33 : ¬ 33 ≤ i := by omega
  by_cases hk : k + i < 32
  · simp [hk, h33, show k + i < 33 by omega]
  · by_cases h32 : k + i = 32
    · simp [h32, h33]
    · simp [hk, h33, show ¬ k + i < 33 by omega]

/-- A word shifted to the right with a zero in front. -/
theorem extract_shift_zero (v : BitVec 32) (k : ℕ) :
    ((BitVec.ofBool false ++ v : BitVec 33).sshiftRight k).extractLsb' 0 32 = v >>> k := by
  refine BitVec.eq_of_getLsbD_eq fun i hi => ?_
  rw [getLsbD_shift_ext false v k hi, BitVec.getLsbD_ushiftRight]
  split_ifs with hk
  · rfl
  · exact (BitVec.getLsbD_of_ge v _ (by omega)).symm

/-- A word shifted to the right with its sign in front. -/
theorem extract_shift_sign (v : BitVec 32) (k : ℕ) :
    ((BitVec.ofBool (v.getLsbD 31) ++ v : BitVec 33).sshiftRight k).extractLsb' 0 32
      = v.sshiftRight k := by
  refine BitVec.eq_of_getLsbD_eq fun i hi => ?_
  rw [getLsbD_shift_ext _ v k hi, BitVec.getLsbD_sshiftRight, BitVec.msb_eq_getLsbD_last]
  simp [show ¬ 32 ≤ i by omega]

/-- None of the units of RV32B takes part in a shift of RV32I. -/
structure BaseShift (rv32b : Bool) (x : AluIn) : Prop where
  funnel : shiftFunnel rv32b x = false
  sbmode : shiftSbmode rv32b x = false
  ones : shiftOnes rv32b x = false
  grev : grevOp rv32b x = false
  gorc : gorcOp rv32b x = false

/-- The three shifts of RV32I fill with the sign bit or with zero. -/
theorem baseShift_of_operator (rv32b : Bool) {x : AluIn}
    (ho : x.operator = .sll ∨ x.operator = .srl ∨ x.operator = .sra) : BaseShift rv32b x := by
  obtain ho | ho | ho := ho
  all_goals constructor
  all_goals simp [shiftFunnel, shiftSbmode, shiftOnes, grevOp, gorcOp, ho]

section

variable {rv32b : Bool} {x : AluIn} (h : Plain x) (hfirst : x.instrFirstCycle = true)
  (hb : BaseShift rv32b x)

include h hfirst hb

/-- The shift amount in the first cycle. -/
theorem shiftAmt_plain : shiftAmt rv32b x = x.operandB.setWidth 5 := by
  rw [shiftAmt, shiftAmt5, hb.funnel, Bool.and_false, hfirst, shiftOperandB, h.shiftEnable,
    Bits.gate_true]
  exact (BitVec.setWidth_eq_extractLsb' (by omega)).symm

/-- The shifter to the right. -/
theorem shiftResult_right (hl : shiftLeft rv32b x = false) :
    shiftResult rv32b x =
      if shiftArith x then x.operandA.sshiftRight (x.operandB.setWidth 5).toNat
      else x.operandA >>> (x.operandB.setWidth 5).toNat := by
  have hin : shiftInput rv32b x = x.operandA := by
    simp only [shiftInput, hb.sbmode, hl, shiftOperandA, h.shiftEnable, Bits.gate_true,
      Bool.false_eq_true, if_false]
  simp only [shiftResult, shiftResultExt, shiftAmt_plain h hfirst hb, hin, hl, hb.ones, hb.grev,
    hb.gorc, Bool.or_self, Bool.false_and, Bool.false_or, Bool.false_eq_true, if_false,
    reverse_none]
  cases shiftArith x
  · exact extract_shift_zero ..
  · exact extract_shift_sign ..

/-- The shifter to the left. -/
theorem shiftResult_left (hl : shiftLeft rv32b x = true) (ha : shiftArith x = false) :
    shiftResult rv32b x = x.operandA <<< (x.operandB.setWidth 5).toNat := by
  have hin : shiftInput rv32b x = operandARev x := by
    rw [shiftInput, hb.sbmode, hl, h.shiftEnable, Bits.gate_true]
    rfl
  simp only [shiftResult, shiftResultExt, shiftAmt_plain h hfirst hb, hin, hl, ha, hb.ones,
    hb.grev, hb.gorc, Bool.or_self, Bool.false_and, Bool.true_or, Bool.false_eq_true, if_false]
  rw [extract_shift_zero]
  refine BitVec.eq_of_getLsbD_eq fun i hi => ?_
  rw [getLsbD_reverse _ hi, BitVec.getLsbD_ushiftRight, operandARev, Bits.getLsbD_gen,
    BitVec.getLsbD_shiftLeft]
  generalize (x.operandB.setWidth 5).toNat = k
  by_cases hk : i < k
  · simp [hk, show ¬ k + (31 - i) < 32 by omega]
  · simp [hk, hi, show k + (31 - i) < 32 by omega, show 31 - (k + (31 - i)) = i - k by omega]

end

/-! ### The operations of RV32I -/

/-- The operator of an operation on a register and an immediate. -/
def opOf : ImmOp → AluOp
  | .add => .add
  | .slt => .slt
  | .sltu => .sltu
  | .xor => .xor
  | .or => .or
  | .and => .and

/-- The operator of a shift. -/
def shiftOf : Shift → AluOp
  | .left => .sll
  | .right => .srl
  | .arith => .sra

/-- The operator of an operation on two registers. -/
def regOpOf : RegOp → AluOp
  | .imm o => opOf o
  | .shift o => shiftOf o
  | .sub => .sub

/-- The operator of the condition of a branch. -/
def condOf : Cond → AluOp
  | .eq => .eq
  | .ne => .ne
  | .lt => .lt
  | .ge => .ge
  | .ltu => .ltu
  | .geu => .geu

section

variable (rv32b : Bool) {x : AluIn} (h : Plain x)

include h

/-- The ALU computes the operations on a register and an immediate. -/
theorem result_immOp {o : ImmOp} (ho : x.operator = opOf o) :
    result rv32b x = o.apply x.operandA x.operandB := by
  cases o with
  | add =>
      simp only [result, ho, opOf, ImmOp.apply]
      exact adderResult_add h (by rw [ho]; rfl)
  | slt =>
      simp only [result, ho, opOf, ImmOp.apply, cmpResult]
      rw [isGreaterEqual_sub h (by rw [ho]; rfl), ho, Bool.not_not]
      rfl
  | sltu =>
      simp only [result, ho, opOf, ImmOp.apply, cmpResult]
      rw [isGreaterEqual_sub h (by rw [ho]; rfl), ho, Bool.not_not]
      rfl
  | xor => simp [result, ho, opOf, ImmOp.apply, bwlogicResult, bwlogicOperandB, bwlogicOpBNegate]
  | or => simp [result, ho, opOf, ImmOp.apply, bwlogicResult, bwlogicOperandB, bwlogicOpBNegate]
  | and =>
      simp [result, ho, opOf, ImmOp.apply, bwlogicResult, bwlogicAndResult, bwlogicOperandB,
        bwlogicOpBNegate]

/-- The ALU computes the shifts in the first cycle of an instruction. -/
theorem result_shift (hfirst : x.instrFirstCycle = true) {o : Shift}
    (ho : x.operator = shiftOf o) :
    result rv32b x = o.apply x.operandA (x.operandB.setWidth 5) := by
  cases o with
  | left =>
      have hb := baseShift_of_operator rv32b (Or.inl ho)
      simp only [result, ho, shiftOf, Shift.apply]
      exact shiftResult_left h hfirst hb (by simp [shiftLeft, hb.sbmode, ho, shiftOf])
        (by rw [shiftArith, ho]; rfl)
  | right =>
      have hb := baseShift_of_operator rv32b (Or.inr (Or.inl ho))
      simp only [result, ho, shiftOf, Shift.apply]
      rw [shiftResult_right h hfirst hb (by simp [shiftLeft, hb.sbmode, ho, shiftOf]), shiftArith,
        ho]
      rfl
  | arith =>
      have hb := baseShift_of_operator rv32b (Or.inr (Or.inr ho))
      simp only [result, ho, shiftOf, Shift.apply]
      rw [shiftResult_right h hfirst hb (by simp [shiftLeft, hb.sbmode, ho, shiftOf]), shiftArith,
        ho]
      rfl

/-- The ALU computes the operations on two registers in the first cycle of an instruction. -/
theorem result_regOp (hfirst : x.instrFirstCycle = true) {o : RegOp}
    (ho : x.operator = regOpOf o) :
    result rv32b x = o.apply x.operandA x.operandB := by
  cases o with
  | imm o => exact result_immOp rv32b h ho
  | shift o => exact result_shift rv32b h hfirst ho
  | sub =>
      simp only [result, ho, regOpOf, RegOp.apply]
      exact adderResult_sub h (by rw [ho]; rfl)

omit rv32b in
/-- The ALU decides the conditions. -/
theorem cmpResult_cond {c : Cond} (ho : x.operator = condOf c) :
    cmpResult x = c.holds x.operandA x.operandB := by
  have hop : adderOpBNegate x.operator = true := by rw [ho]; cases c <;> rfl
  have hge := isGreaterEqual_sub h hop
  have heq := isEqual_sub h hop
  rw [ho] at hge
  cases c with
  | eq => simpa only [cmpResult, ho, condOf, Cond.holds] using heq
  | ne => simp only [cmpResult, ho, condOf, Cond.holds, heq, bne]
  | lt => simp only [cmpResult, ho, condOf, Cond.holds, hge, Bool.not_not]; rfl
  | ge => simp only [cmpResult, ho, condOf, Cond.holds, hge]; rfl
  | ltu => simp only [cmpResult, ho, condOf, Cond.holds, hge, Bool.not_not]; rfl
  | geu => simp only [cmpResult, ho, condOf, Cond.holds, hge]; rfl

end

end Alu

end CocoIbex
