import CocoIbex.AluBitmanip

/-!
# The ALU over Two Cycles

The rotations, the funnel shifts and the conditional operations take two cycles. In the first
the ALU leaves a half of the result in the intermediate value register, in the second it makes
the other half of its first operand, which now is the third source, and combines the two. Each
operator has a lemma about its two cycles.

A funnel shift exchanges its words where the amount has its highest bit, and complements the
amount in one of the two cycles; a rotation is a funnel shift of a word with itself. The lemmas
on the shifter are those of the operations of one cycle, at the two settings that the cycles
have.

## Main results

* `result_fsl` and `result_fsr` — a funnel shift shifts a double word and takes a half of it;
* `result_rol` and `result_ror` — the rotations;
* `result_cmov` and `result_cmix` — the choice of a word and the choice of bits by a mask. In
  each of them the second cycle has the reference function of the instruction as its result.
-/

namespace CocoIbex

namespace Alu

/-- The inputs of the ALU in the two cycles of an instruction. -/
structure TwoCycles (x y : AluIn) : Prop where
  plain₁ : Plain x
  plain₂ : Plain y
  first : x.instrFirstCycle = true
  second : y.instrFirstCycle = false
  operator : y.operator = x.operator
  operandB : y.operandB = x.operandB
  imdValQ : y.imdValQ = imdValD true x

/-! ### The halves of a shift -/

section

variable {x : AluIn} (h : Plain x) (ho : x.operator ∈ [.rol, .ror, .fsl, .fsr])

include ho

/-- The operators shift in zeros. -/
theorem shift_zeros : shiftSbmode true x = false ∧ grevOp true x = false ∧ gorcOp true x = false
    ∧ shiftOnes true x = false ∧ shiftArith x = false := by
  simp only [List.mem_cons, List.not_mem_nil, or_false] at ho
  rcases ho with ho | ho | ho | ho <;>
    simp [shiftSbmode, grevOp, gorcOp, shiftOnes, shiftArith, ho]

include h

/-- A half to the right. -/
theorem shiftResult_half_right (hl : shiftLeft true x = false) :
    shiftResult true x = x.operandA >>> (shiftAmt true x).toNat := by
  obtain ⟨hsb, hgrev, hgorc, hones, harith⟩ := shift_zeros ho
  refine BitVec.eq_of_getLsbD_eq fun i hi => ?_
  rw [getLsbD_shiftResult_right hgrev hgorc hl hi, shiftInput_right h hsb hl, hones, harith,
    BitVec.getLsbD_ushiftRight]
  split_ifs with hlt
  · rfl
  · exact (BitVec.getLsbD_of_ge _ _ (by omega)).symm

/-- A half to the left. -/
theorem shiftResult_half_left (hl : shiftLeft true x = true) :
    shiftResult true x = x.operandA <<< (shiftAmt true x).toNat := by
  obtain ⟨hsb, hgrev, hgorc, hones, harith⟩ := shift_zeros ho
  refine BitVec.eq_of_getLsbD_eq fun i hi => ?_
  rw [getLsbD_shiftResult_left hgrev hgorc hl hi, shiftInput_left h hsb hl, hones, harith,
    operandARev, Bits.getLsbD_gen, BitVec.getLsbD_shiftLeft]
  generalize (shiftAmt true x).toNat = k
  by_cases hk : k ≤ i
  · simp [hk, hi, show k + (31 - i) < 32 by omega, show 31 - (k + (31 - i)) = i - k by omega,
      show ¬ i < k by omega]
  · simp [hk, show i < k by omega]

end

/-- The shift amount is zero. -/
theorem shiftAmt_eq_zero_iff (x : AluIn) : shiftAmt true x = 0#5 ↔ (shiftAmt true x).toNat = 0 :=
  BitVec.toNat_eq.trans Iff.rfl

/-! ### Rotations -/

section

variable {x y : AluIn} (h : TwoCycles x y)

include h

/-- The shift amounts of the two cycles of a rotation. -/
theorem shiftAmt_rotate (hf : shiftFunnel true x = false) :
    (shiftAmt true x).toNat = Rvb.shamt x.operandB
      ∧ (shiftAmt true y).toNat = (32 - Rvb.shamt x.operandB) % 32
      ∧ shiftAmt5 true y = false := by
  have hfy : shiftFunnel true y = false := by rw [shiftFunnel, h.operator]; exact hf
  refine ⟨toNat_shiftAmt_first h.plain₁ h.first hf, ?_, ?_⟩
  · rw [toNat_shiftAmt h.plain₂, shiftAmt5_eq h.plain₂, hfy, h.second, Bool.and_false, if_pos rfl,
      h.operandB, Rvb.shamt]
  · rw [shiftAmt5_eq h.plain₂, hfy, Bool.and_false]

/-- `ROL` rotates left, in two shifts that are put together. -/
theorem result_rol (ho : x.operator = .rol) (ha : y.operandA = x.operandA) :
    result true y = Rvb.rol x.operandA x.operandB := by
  have hoy := h.operator.trans ho
  obtain ⟨hx, hy, h5⟩ := shiftAmt_rotate h (by simp [shiftFunnel, ho])
  have hleft := shiftResult_half_left h.plain₁ (by simp [ho])
    (by simp [shiftLeft, shiftSbmode, ho, h.first])
  have hright := shiftResult_half_right h.plain₂ (by simp [hoy])
    (by simp [shiftLeft, shiftSbmode, hoy, h.second])
  have himd : y.imdValQ = x.operandA <<< Rvb.shamt x.operandB := by
    rw [h.imdValQ, ← hx, ← hleft]
    simp only [imdValD, if_true, ho]
  have hlt : Rvb.shamt x.operandB < 32 := Nat.mod_lt _ (by omega)
  simp only [result, hoy, rv32bOnly, if_true, multicycleResult, shiftAmt_eq_zero_iff, h5, hright,
    himd, hy, ha, Rvb.rol, Bool.false_eq_true, if_false]
  split_ifs with h0
  · rw [show Rvb.shamt x.operandB = 0 by omega]
    simp
  · rfl

/-- `ROR` rotates right in the same way. -/
theorem result_ror (ho : x.operator = .ror) (ha : y.operandA = x.operandA) :
    result true y = Rvb.ror x.operandA x.operandB := by
  have hoy := h.operator.trans ho
  obtain ⟨hx, hy, h5⟩ := shiftAmt_rotate h (by simp [shiftFunnel, ho])
  have hright := shiftResult_half_right h.plain₁ (by simp [ho])
    (by simp [shiftLeft, shiftSbmode, ho, h.first])
  have hleft := shiftResult_half_left h.plain₂ (by simp [hoy])
    (by simp [shiftLeft, shiftSbmode, hoy, h.second])
  have himd : y.imdValQ = x.operandA >>> Rvb.shamt x.operandB := by
    rw [h.imdValQ, ← hx, ← hright]
    simp only [imdValD, if_true, ho]
  have hlt : Rvb.shamt x.operandB < 32 := Nat.mod_lt _ (by omega)
  simp only [result, hoy, rv32bOnly, if_true, multicycleResult, shiftAmt_eq_zero_iff, h5, hleft,
    himd, hy, ha, Rvb.ror, Bool.false_eq_true, if_false]
  split_ifs with h0
  · rw [show Rvb.shamt x.operandB = 0 by omega]
    simp
  · rfl

/-! ### Funnel shifts -/

/-- The shift amounts of the two cycles of a funnel shift: where the words change places the
complement is that of the first cycle. -/
theorem shiftAmt_funnel (hf : shiftFunnel true x = true) :
    shiftAmt5 true x = x.operandB.getLsbD 5 ∧ shiftAmt5 true y = x.operandB.getLsbD 5
      ∧ (shiftAmt true x).toNat
        = (if x.operandB.getLsbD 5 then (32 - Rvb.shamt x.operandB) % 32
          else Rvb.shamt x.operandB)
      ∧ (shiftAmt true y).toNat
        = (if x.operandB.getLsbD 5 then Rvb.shamt x.operandB
          else (32 - Rvb.shamt x.operandB) % 32) := by
  have hfy : shiftFunnel true y = true := by rw [shiftFunnel, h.operator]; exact hf
  have hx5 : shiftAmt5 true x = x.operandB.getLsbD 5 := by
    rw [shiftAmt5_eq h.plain₁, hf, Bool.and_true]
  have hy5 : shiftAmt5 true y = x.operandB.getLsbD 5 := by
    rw [shiftAmt5_eq h.plain₂, hfy, h.operandB, Bool.and_true]
  refine ⟨hx5, hy5, ?_, ?_⟩
  · rw [toNat_shiftAmt h.plain₁, hx5, h.first, Rvb.shamt]
    cases x.operandB.getLsbD 5 <;> rfl
  · rw [toNat_shiftAmt h.plain₂, hy5, h.second, h.operandB, Rvb.shamt]
    cases x.operandB.getLsbD 5 <;> rfl

end

/-- The amount of a funnel shift by its bit 5 and the rest. -/
theorem toNat_mod_64 (b : BitVec 32) :
    b.toNat % 64 = (if b.getLsbD 5 then 32 else 0) + Rvb.shamt b := by
  have hbit : b.getLsbD 5 = decide (b.toNat / 32 % 2 = 1) := by
    rw [BitVec.getLsbD, Nat.testBit_eq_decide_div_mod_eq]
  rw [hbit, Rvb.shamt]
  split_ifs with h1
  · rw [decide_eq_true_eq] at h1
    omega
  · rw [decide_eq_true_eq] at h1
    omega

section

variable {x y : AluIn} (h : TwoCycles x y)

include h

/-- `FSL` shifts a double word left and takes its upper half. -/
theorem result_fsl (ho : x.operator = .fsl) :
    result true y = Rvb.fsl x.operandA x.operandB y.operandA := by
  have hoy := h.operator.trans ho
  obtain ⟨hx5, hy5, hx, hy⟩ := shiftAmt_funnel h (by simp [shiftFunnel, ho])
  have hmod := toNat_mod_64 x.operandB
  have hlt : Rvb.shamt x.operandB < 32 := Nat.mod_lt _ (by omega)
  have himd : y.imdValQ = shiftResult true x := by
    rw [h.imdValQ]
    simp only [imdValD, if_true, ho]
  simp only [result, hoy, rv32bOnly, if_true, multicycleResult, shiftAmt_eq_zero_iff, Rvb.fsl, hmod,
    himd, hy5]
  cases hb : x.operandB.getLsbD 5 with
  | false =>
      rw [hb] at hx5 hy5 hx hy
      rw [shiftResult_half_left h.plain₁ (by simp [ho])
          (by simp [shiftLeft, shiftSbmode, ho, hx5, h.first]),
        shiftResult_half_right h.plain₂ (by simp [hoy])
          (by simp [shiftLeft, shiftSbmode, hoy, hy5, h.second]), hx, hy]
      generalize Rvb.shamt x.operandB = k at hlt
      rcases Nat.eq_zero_or_pos k with rfl | hk
      · simp
      · have hmod32 : (32 - k) % 32 = 32 - k := Nat.mod_eq_of_lt (by omega)
        simp [hmod32, hlt.not_ge, hk.ne', show ¬ 32 - k = 0 by omega]
  | true =>
      rw [hb] at hx5 hy5 hx hy
      rw [shiftResult_half_right h.plain₁ (by simp [ho])
          (by simp [shiftLeft, shiftSbmode, ho, hx5, h.first]),
        shiftResult_half_left h.plain₂ (by simp [hoy])
          (by simp [shiftLeft, shiftSbmode, hoy, hy5, h.second]), hx, hy]
      generalize Rvb.shamt x.operandB = k at hlt
      rcases Nat.eq_zero_or_pos k with rfl | hk
      · simp
      · have hmod32 : (32 - k) % 32 = 32 - k := Nat.mod_eq_of_lt (by omega)
        simp [hmod32, hk.ne', BitVec.or_comm]

/-- `FSR` shifts a double word right and takes its lower half. -/
theorem result_fsr (ho : x.operator = .fsr) :
    result true y = Rvb.fsr x.operandA x.operandB y.operandA := by
  have hoy := h.operator.trans ho
  obtain ⟨hx5, hy5, hx, hy⟩ := shiftAmt_funnel h (by simp [shiftFunnel, ho])
  have hmod := toNat_mod_64 x.operandB
  have hlt : Rvb.shamt x.operandB < 32 := Nat.mod_lt _ (by omega)
  have himd : y.imdValQ = shiftResult true x := by
    rw [h.imdValQ]
    simp only [imdValD, if_true, ho]
  simp only [result, hoy, rv32bOnly, if_true, multicycleResult, shiftAmt_eq_zero_iff, Rvb.fsr, hmod,
    himd, hy5]
  cases hb : x.operandB.getLsbD 5 with
  | false =>
      rw [hb] at hx5 hy5 hx hy
      rw [shiftResult_half_right h.plain₁ (by simp [ho])
          (by simp [shiftLeft, shiftSbmode, ho, hx5, h.first]),
        shiftResult_half_left h.plain₂ (by simp [hoy])
          (by simp [shiftLeft, shiftSbmode, hoy, hy5, h.second]), hx, hy]
      generalize Rvb.shamt x.operandB = k at hlt
      rcases Nat.eq_zero_or_pos k with rfl | hk
      · simp
      · have hmod32 : (32 - k) % 32 = 32 - k := Nat.mod_eq_of_lt (by omega)
        simp [hmod32, hlt.not_ge, hk.ne', show ¬ 32 - k = 0 by omega]
  | true =>
      rw [hb] at hx5 hy5 hx hy
      rw [shiftResult_half_left h.plain₁ (by simp [ho])
          (by simp [shiftLeft, shiftSbmode, ho, hx5, h.first]),
        shiftResult_half_right h.plain₂ (by simp [hoy])
          (by simp [shiftLeft, shiftSbmode, hoy, hy5, h.second]), hx, hy]
      generalize Rvb.shamt x.operandB = k at hlt
      rcases Nat.eq_zero_or_pos k with rfl | hk
      · simp
      · have hmod32 : (32 - k) % 32 = 32 - k := Nat.mod_eq_of_lt (by omega)
        simp [hmod32, hk.ne', BitVec.or_comm]

/-! ### The conditional operations -/

/-- `CMIX` takes the bits of two words by a mask. -/
theorem result_cmix (ho : x.operator = .cmix) :
    result true y = Rvb.cmix x.operandA x.operandB y.operandA := by
  have hoy := h.operator.trans ho
  have hneg : (operandBNeg y).extractLsb' 1 32 = ~~~y.operandB := by
    refine BitVec.eq_of_getLsbD_eq fun i hi => ?_
    rw [operandBNeg, BitVec.xor_allOnes, BitVec.getLsbD_extractLsb', BitVec.getLsbD_not,
      BitVec.getLsbD_append, BitVec.getLsbD_not]
    simp [hi, show 1 + i < 33 by omega, show ¬ 1 + i < 1 by omega, show 1 + i - 1 = i by omega]
  simp [result, hoy, rv32bOnly, multicycleResult, h.imdValQ, imdValD, ho, bwlogicAndResult,
    bwlogicOperandB, bwlogicOpBNegate, h.first, h.second, hneg, h.operandB, Rvb.cmix]

/-- `CMOV` takes one of two words by a test for zero. -/
theorem result_cmov (ho : x.operator = .cmov) :
    result true y = Rvb.cmov x.operandA x.operandB y.operandA := by
  have hoy := h.operator.trans ho
  simp only [result, hoy, rv32bOnly, if_true, multicycleResult, h.imdValQ, imdValD, ho, h.operandB,
    Rvb.cmov]

end

end Alu

end CocoIbex
