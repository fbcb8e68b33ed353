import CocoIbex.AdderUse

/-!
# The Secure Adder

EX under the mask of `ADDER_SECURE` against EX without one, in all that an instruction takes
from it. They agree but for the operations of `AdderMaskMissing`, which share opcode and funct3
with a shift and work on the adder; for each of these a cycle is exhibited in which the mask
shows.

The comparison is one of runs. The pipeline registers run from a reset, so that the enable in ID
is the one that the compressed decoder has computed from the word that is there (`ifId_valid`),
and the registers of EX hold anything at all: the mask must not show in any cycle of an
instruction, whatever the cycles before have left behind. The three implementations of the
multiplier share the adder of the ALU, and are covered together.

For the other direction it is not enough that an operand is cleared. `exZeroOne` gives the
operands and the registers with which the cleared operand leads to another result, one cycle for
each operation of the list.

## Main results

* `adder_transparent_iff` — an accepted word in ID takes the same from EX with the masked adder
  as without the mask if and only if it is none of `AdderMaskMissing`.
-/

namespace CocoIbex

open Machine

variable {cfg : Config} {m : Multiplier} {w : BitVec 32}

/-! ### The operations that need the closed adder -/

/-- The operands 0 and 1. -/
def zeroOne : ExData where
  aluOperandA := 0#32
  aluOperandB := 1#32
  btAOperand := 0#32
  btBOperand := 0#32
  multdivOperandA := 0#32
  multdivOperandB := 1#32
  multdivReadyId := true

/-- The comparison of 0 with 1 shows the mask. -/
theorem isGreaterEqual_zero_one {x : AluIn} (hs : x.multdivSel = false)
    (ha : x.operandA = 0#32) (hb : x.operandB = 1#32)
    (hop : Alu.adderOpBNegate x.operator = true) : Alu.isGreaterEqual x = !x.adderEnable := by
  simp only [Alu.isGreaterEqual, Alu.adderResult, Alu.adderResultExt, Alu.adderInA, Alu.adderInB,
    Alu.operandBNeg, hs, ha, hb, hop, Bool.false_eq_true, if_false, if_true]
  cases x.adderEnable with
  | false =>
      simp only [Bits.gate_false]
      rfl
  | true =>
      simp only [Bits.gate_true]
      rfl

/-- The results of slt, sltu and max for 0 and 1. -/
theorem result_zero_one {rv32b : Bool} {x : AluIn} (hs : x.multdivSel = false)
    (ha : x.operandA = 0#32) (hb : x.operandB = 1#32)
    (hop : x.operator = .slt ∨ x.operator = .sltu ∨ (x.operator = .max ∧ rv32b = true)) :
    Alu.result rv32b x = if x.adderEnable then 1#32 else 0#32 := by
  have hge : Alu.isGreaterEqual x = !x.adderEnable := by
    refine isGreaterEqual_zero_one hs ha hb ?_
    obtain h | h | ⟨h, -⟩ := hop <;> rw [h] <;> rfl
  obtain h | h | ⟨h, hr⟩ := hop
  · simp only [Alu.result, Alu.cmpResult, h, hge]
    cases x.adderEnable <;> rfl
  · simp only [Alu.result, Alu.cmpResult, h, hge]
    cases x.adderEnable <;> rfl
  · simp only [Alu.result, Alu.minmaxResult, Alu.rv32bOnly, Alu.cmpResult, h, hge, hr, ha, hb]
    cases x.adderEnable <;> rfl

/-- The state of the division in a unit. -/
def Multiplier.mdState : (m : Multiplier) → m.unit.State → MdFsm
  | .slow, s => MultdivSlow.State.mdState s
  | .fast, s => (MultdivFast.State.div s).mdState
  | .singleCycle, s => (MultdivFast.State.div s).mdState

/-- Under the mask every divisor looks like zero. -/
theorem isEqual_div {x : ExIn} (hm : cfg.rv32m = true) (hd : x.divSel = true)
    (hop : x.multdivOperator = .div) (hb : x.multdivOperandB = 1#32) (he : x.mdEnable = true) :
    Alu.isEqual (ExBlock.aluIn cfg m (ExBlock.reset m) x) = !x.adderEnable := by
  have hs : ExBlock.multdivSel cfg x = true := by simp [ExBlock.multdivSel, hm, hd]
  have ho : m.unit.aluOperands (ExBlock.reset m).multdiv
      (ExBlock.multdivIn m (ExBlock.reset m) x) = subOperands 0#32 1#32 := by
    cases m with
    | slow =>
        simp only [Multiplier.unit, MultdivSlow.slow, MultdivSlow.aluOperands, ExBlock.multdivIn,
          hop, hb]
        rfl
    | fast =>
        simp only [Multiplier.unit, MultdivFast.fast, MultdivFast.unitOf, MultdivFast.aluOperands,
          ExBlock.multdivIn, hb, he]
        rfl
    | singleCycle =>
        simp only [Multiplier.unit, MultdivFast.singleCycle, MultdivFast.unitOf,
          MultdivFast.aluOperands, ExBlock.multdivIn, hb]
        rfl
  simp only [Alu.isEqual, Alu.adderResult, Alu.adderResultExt, Alu.adderInA, Alu.adderInB,
    ExBlock.aluIn, ho, hs, if_true]
  cases x.adderEnable <;> rfl

/-- The first cycle of a division by 1 goes on under the mask as a division by zero. -/
theorem next_div {x : ExIn} (hm : cfg.rv32m = true) (hen : x.divEn = true)
    (hd : x.divSel = true) (hop : x.multdivOperator = .div) (hb : x.multdivOperandB = 1#32)
    (he : x.mdEnable = true) :
    m.mdState (ExBlock.next cfg m (ExBlock.reset m) x).multdiv
      = if x.adderEnable then .absA else .finish := by
  have hout : (ExBlock.adderOut cfg m (ExBlock.reset m) x).isEqual = !x.adderEnable :=
    isEqual_div hm hd hop hb he
  have hans : (if (ExBlock.adderOut cfg m (ExBlock.reset m) x).isEqual then MdFsm.finish
      else .absA) = if x.adderEnable then .absA else .finish := by
    rw [hout]
    cases x.adderEnable <;> rfl
  rw [← hans]
  cases m with
  | slow => exact MultdivSlow.step_start _ rfl hd hen hop
  | fast => exact MultdivFast.step_start _ _ rfl hen
  | singleCycle => exact MultdivFast.step_start _ _ rfl hen

/-- The slow unit after the first cycle of a mulh of 0 and 1. -/
def mulhSecond : ExState .slow :=
  ⟨(⟨31#5, .comp, 0#33, 0#33, 0#32⟩ : MultdivSlow.State), 0x180000000#34⟩

/-- The first cycle of MULH of zero and one in the slow unit, from a reset. -/
theorem next_mulh_first (hm : cfg.rv32m = true) {x : ExIn} (hop : x.multdivOperator = .mulh)
    (hs : x.multSel = true) (he : x.multEn = true) (ha : x.multdivOperandA = 0#32)
    (hb : x.multdivOperandB = 1#32) :
    ExBlock.next cfg .slow (ExBlock.reset .slow) x = mulhSecond := by
  simp [ExBlock.next, ExBlock.multdiv, ExBlock.multdivSel, ExBlock.reset, Multiplier.unit,
    MultdivSlow.slow, MultdivSlow.step, MultdivSlow.comb, MultdivSlow.selected,
    ExBlock.multdivIn, MultdivSlow.State.reset, MultdivSlow.opAExt, MultdivSlow.opBExt,
    MultdivIn.signA, MultdivIn.signB, hm, hop, hs, he, ha, hb, mulhSecond]

/-- The sum of the second cycle. -/
theorem adderResultExt_mulh (hm : cfg.rv32m = true) {x : ExIn}
    (hop : x.multdivOperator = .mulh) (hs : x.multSel = true) :
    Alu.adderResultExt (ExBlock.aluIn cfg .slow mulhSecond x)
      = if x.adderEnable then 0x280000000#34 else 0#34 := by
  have ho : (Multiplier.unit .slow).aluOperands mulhSecond.multdiv
      (ExBlock.multdivIn .slow mulhSecond x) = (0x180000000#33, 0x100000000#33) := by
    simp only [Multiplier.unit, MultdivSlow.slow, MultdivSlow.aluOperands, ExBlock.multdivIn, hop]
    rfl
  have hsel : ExBlock.multdivSel cfg x = true := by simp [ExBlock.multdivSel, hm, hs]
  simp only [Alu.adderResultExt, Alu.adderInA, Alu.adderInB, ExBlock.aluIn, ho, hsel, if_true]
  cases x.adderEnable with
  | false =>
      simp only [Bits.gate_false]
      rfl
  | true =>
      simp only [Bits.gate_true]
      rfl

/-- The second cycle of the mulh accumulates the sum. -/
theorem next_mulh_second (hm : cfg.rv32m = true) {x : ExIn} (hop : x.multdivOperator = .mulh)
    (hs : x.multSel = true) :
    (ExBlock.next cfg .slow mulhSecond x).imdValQ
      = if x.adderEnable then 0x140000000#34 else 0#34 := by
  have h := adderResultExt_mulh hm hop hs
  have hsel : ExBlock.multdivSel cfg x = true := by simp [ExBlock.multdivSel, hm, hs]
  have hst : mulhSecond.multdiv = (⟨31#5, .comp, 0#33, 0#33, 0#32⟩ : MultdivSlow.State) := rfl
  simp [ExBlock.next, ExBlock.multdiv, hsel, Multiplier.unit, MultdivSlow.slow, MultdivSlow.step,
    MultdivSlow.comb, MultdivSlow.selected, ExBlock.multdivIn, hs, hop, hst, ExBlock.adderOut, h,
    MultdivSlow.resAdderH]
  cases x.adderEnable <;> rfl

/-! ### The listed words in ID -/

/-- A word with the register-register opcode. -/
def IsOp (w : BitVec 32) : Prop := quadrant w = 0b11#2 ∧ field62 w = 0b01100#5

/-- An operation word has the opcode OP. -/
theorem IsOp.opcode (h : IsOp w) : Opcode.ofBits (opcodeBits w) = some .op := by
  have hc : opcodeBits w = field62 w ++ quadrant w := by
    refine BitVec.eq_of_getLsbD_eq fun i hi => ?_
    have h7 : i < 7 := hi
    have hr : (field62 w ++ quadrant w).getLsbD i
        = if i < 2 then (quadrant w).getLsbD i else (field62 w).getLsbD (i - 2) := by
      rw [BitVec.getLsbD_append]
    rw [hr]
    by_cases h : i < 2
    · simp [opcodeBits, quadrant, h, h7]
    · have h5 : i - 2 < 5 := by omega
      have hs : 2 + (i - 2) = i := by omega
      simp [opcodeBits, field62, h, h7, h5, hs]
  rw [hc, h.1, h.2]
  rfl

/-- An operation word is of full length, so that the compressed decoder passes it on. -/
theorem IsOp.decode (h : IsOp w) : compressedDecoder w = decodeC3 w := compressedDecoder_c3 h.1

/-- The cycle with `w` in ID in which EX and the LSU have their results. -/
def inId (w : BitVec 32) : IdIn := lastCycle (IfIdReg.ofWord w) true

/-- The inputs of EX in the cycle, with the operands 0 and 1. -/
def exZeroOne (cfg : Config) (w : BitVec 32) (e : Bool) (fsm : IdFsm) : ExIn :=
  exIn cfg (IfIdReg.ofWord w) e fsm (inId w) zeroOne

/-- The ALU gets the operator of the operation. -/
theorem IsOp.alu (h : IsOp w) (fsm : IdFsm) :
    IdStage.alu cfg fsm (inId w)
      = opAlu cfg (IdStage.instrFirstCycle fsm (inId w)) (funct7 w) (funct3 w) := by
  have hi : (inId w).instr = w := by
    have hd : (inId w).instr = (compressedDecoder w).instr := rfl
    rw [hd, h.decode, decodeC3_instr]
  rw [IdStage.alu, hi, aluDecode, h.opcode]

/-- An accepted operation is decoded as its word. -/
theorem IsOp.main (h : IsOp w) (hacc : Accepts cfg w) (fsm : IdFsm) :
    IdStage.main cfg fsm (inId w) = mainDecodeRaw cfg true w := by
  have hm : IdStage.main cfg fsm (inId w) = mainDecodeRaw cfg _ (compressedDecoder w).instr :=
    main_of_inId hacc ⟨rfl, rfl, rfl⟩
  rw [hm, h.decode, decodeC3_instr, mainDecodeRaw, mainDecodeRaw, h.opcode]

/-- The adder of a listed word is closed. -/
theorem AdderMaskMissing.adderEnable (h : AdderMaskMissing m w) :
    (IfIdReg.ofWord w).adderEnable = false := by
  obtain ⟨hq, hf, h⟩ := h
  have hen : (IfIdReg.ofWord w).adderEnable = (decodeC3 w).adderEnable := by
    rw [← compressedDecoder_c3 hq]
    rfl
  simp only [hen, CompressedOut.adderEnable, decodeC3, hf]
  obtain ⟨-, h3 | h3⟩ | ⟨-, h3⟩ | ⟨-, h3⟩ | ⟨-, -, h3 | h3 | h3⟩ := h <;> simp [h3]

/-- What the listed word takes in the cycle differs when the mask is not transparent. -/
theorem AdderMaskMissing.use (h : AdderMaskMissing m w) (past : List ExIn) (fsm : IdFsm)
    (ht : AdderTransparent cfg m (IfIdReg.ofWord w)) :
    exUse cfg m (run (ExBlock.next cfg m) (ExBlock.reset m) past) fsm (inId w)
        (exZeroOne cfg w false fsm)
      = exUse cfg m (run (ExBlock.next cfg m) (ExBlock.reset m) past) fsm (inId w)
        (exZeroOne cfg w true fsm) := by
  have hu := ht past fsm (inId w) zeroOne ⟨rfl, rfl, rfl⟩
  rwa [h.adderEnable] at hu

/-- slt, sltu and max write another result under the mask. -/
theorem compare_masked (op : AluOp) (hacc : Accepts cfg w) (hm : AdderMaskMissing m w)
    (ha : opAlu cfg true (funct7 w) (funct3 w)
      = { aluOpAMuxSel := .regA, aluOpBMuxSel := .regB, aluOperator := op })
    (hop : op = .slt ∨ op = .sltu ∨ (op = .max ∧ cfg.rv32b = true)) :
    ¬ AdderTransparent cfg m (IfIdReg.ofWord w) := by
  intro ht
  have hw : IsOp w := ⟨hm.1, hm.2.1⟩
  have halu : IdStage.alu cfg .firstCycle (inId w)
      = { aluOpAMuxSel := .regA, aluOpBMuxSel := .regB, aluOperator := op } :=
    (hw.alu .firstCycle).trans ha
  have hraw : (mainDecodeRaw cfg true w).rfWe = true ∧
      (mainDecodeRaw cfg true w).rfWdataSel = .ex := by
    simp [mainDecodeRaw, hw.opcode]
  have hwe : IdStage.rfWeId cfg .firstCycle (inId w) = true := by
    rw [IdStage.rfWeId, IdStage.rfWeRaw_exValid _ _ _ rfl (by rw [halu]), hw.main hacc, hraw.1]
    rfl
  have hres : ∀ e, (ExBlock.outputs cfg m (ExBlock.reset m)
      (exZeroOne cfg w e .firstCycle)).resultEx = if e then 1#32 else 0#32 := by
    intro e
    have hs : ExBlock.multdivSel cfg (exZeroOne cfg w e .firstCycle) = false := by
      simp [ExBlock.multdivSel, exZeroOne, exIn, halu]
    simp only [ExBlock.outputs, hs, Bool.false_eq_true, if_false]
    refine result_zero_one hs rfl rfl ?_
    have ho : (ExBlock.aluIn cfg m (ExBlock.reset m) (exZeroOne cfg w e .firstCycle)).operator
        = op := by
      simp [ExBlock.aluIn, exZeroOne, exIn, halu]
    rw [ho]
    exact hop
  have h := congrArg ExUse.rfWdata (hm.use [] .firstCycle ht)
  simp [exUse, hwe, hw.main hacc, hraw.2, hres] at h

/-- The legality of an accepted register-register operation. -/
theorem IsOp.legal (h : IsOp w) (hacc : Accepts cfg w) :
    opIllegal cfg (funct7 w) (funct3 w) = false := by
  have hl := (accepts_iff.mp hacc).2
  rw [h.decode, decodeC3_instr] at hl
  simpa [mainDecodeRaw, h.opcode] using hl

/-- The operations of the multiplier and divider are legal only with RV32M. -/
theorem IsOp.rv32m (h : IsOp w) (hacc : Accepts cfg w) (h7 : funct7 w = 0b0000001#7) :
    cfg.rv32m = true := by
  have hlo := h.legal hacc
  rw [h7] at hlo
  obtain ⟨ht, -⟩ | hi | ⟨hb, -⟩ | ⟨-, hm⟩ := op_cases hlo
  · simp [opTernary] at ht
  · simp [opRv32i] at hi
  · simp [opRv32b] at hb
  · exact hm

/-- divu goes on under the mask as a division by zero. -/
theorem divu_masked (hacc : Accepts cfg w) (hm : AdderMaskMissing m w)
    (h7 : funct7 w = 0b0000001#7) (h3 : funct3 w = 0b101#3) :
    ¬ AdderTransparent cfg m (IfIdReg.ofWord w) := by
  intro ht
  have hw : IsOp w := ⟨hm.1, hm.2.1⟩
  have hrm := hw.rv32m hacc h7
  have halu : (IdStage.alu cfg .firstCycle (inId w)).divSel = true := by
    rw [hw.alu, h7, h3]
    simp [opAlu, opRv32iAlu, opRv32bAlu, hrm]
  have hmain : (mainDecodeRaw cfg true w).multdivOperator = .div ∧
      (mainDecodeRaw cfg true w).illegalInsn = false := by
    have hl := (accepts_iff.mp hacc).2
    rw [hw.decode, decodeC3_instr] at hl
    refine ⟨?_, hl⟩
    simp [mainDecodeRaw, hw.opcode, h7, h3, opMultdiv]
  have hmd : (IfIdReg.ofWord w).mdEnable = true := by
    have hen : (IfIdReg.ofWord w).mdEnable = (decodeC3 w).mdEnable := by
      rw [← hw.decode]
      rfl
    have hbit : w.getLsbD 25 = (funct7 w).getLsbD 0 := by simp [funct7]
    simp [hen, decodeC3, hw.2, hbit, h7]
  have hnext : ∀ e, m.mdState (ExBlock.next cfg m (ExBlock.reset m)
      (exZeroOne cfg w e .firstCycle)).multdiv = if e then .absA else .finish := by
    intro e
    refine next_div hrm ?_ halu ?_ rfl hmd
    · simp only [exZeroOne, exIn, hw.main hacc, hmain.2, halu]
      rfl
    · simp only [exZeroOne, exIn, hw.main hacc, hmain.1]
  have h := congrArg (fun u => m.mdState u.next.multdiv) (hm.use [] .firstCycle ht)
  simp [exUse, hnext] at h

/-- mulh, mulhsu and mulhu lose the sum of their second cycle in the slow unit. -/
theorem mulh_masked (hacc : Accepts cfg w) (hm : AdderMaskMissing .slow w)
    (h7 : funct7 w = 0b0000001#7)
    (h3 : funct3 w = 0b001#3 ∨ funct3 w = 0b010#3 ∨ funct3 w = 0b011#3) :
    ¬ AdderTransparent cfg .slow (IfIdReg.ofWord w) := by
  intro ht
  have hw : IsOp w := ⟨hm.1, hm.2.1⟩
  have hrm := hw.rv32m hacc h7
  have halu : ∀ fsm, (IdStage.alu cfg fsm (inId w)).multSel = true := by
    intro fsm
    rw [hw.alu, h7]
    obtain h3 | h3 | h3 := h3 <;> simp [h3, opAlu, opRv32iAlu, opRv32bAlu, hrm]
  have hmain : (mainDecodeRaw cfg true w).multdivOperator = .mulh ∧
      (mainDecodeRaw cfg true w).illegalInsn = false := by
    have hl := (accepts_iff.mp hacc).2
    rw [hw.decode, decodeC3_instr] at hl
    refine ⟨?_, hl⟩
    obtain h3 | h3 | h3 := h3 <;> simp [mainDecodeRaw, hw.opcode, h7, h3, opMultdiv]
  have hop : ∀ e fsm, (exZeroOne cfg w e fsm).multdivOperator = .mulh := by
    intro e fsm
    simp only [exZeroOne, exIn, hw.main hacc, hmain.1]
  have hfirst : run (ExBlock.next cfg .slow) (ExBlock.reset .slow)
      [exZeroOne cfg w true .firstCycle] = mulhSecond := by
    refine next_mulh_first hrm (hop _ _) (halu _) ?_ rfl rfl
    simp only [exZeroOne, exIn, hw.main hacc, hmain.2, halu]
    rfl
  have h := congrArg (fun u => u.next.imdValQ)
    (hm.use [exZeroOne cfg w true .firstCycle] .multiCycle ht)
  have hnext : ∀ e, (ExBlock.next cfg .slow mulhSecond (exZeroOne cfg w e .multiCycle)).imdValQ
      = if e then 0x140000000#34 else 0#34 :=
    fun e => next_mulh_second hrm (hop _ _) (halu _)
  simp [exUse, hfirst, hnext] at h

/-- The mask shows for every listed word. -/
theorem AdderMaskMissing.not_transparent (hm : AdderMaskMissing m w) (hacc : Accepts cfg w) :
    ¬ AdderTransparent cfg m (IfIdReg.ofWord w) := by
  have hw : IsOp w := ⟨hm.1, hm.2.1⟩
  have hlo := hw.legal hacc
  obtain ⟨h7, h3 | h3⟩ | ⟨h7, h3⟩ | ⟨h7, h3⟩ | ⟨rfl, h7, h3⟩ := hm.2.2
  · exact compare_masked .slt hacc hm (by rw [h7, h3]; rfl) (.inl rfl)
  · exact compare_masked .sltu hacc hm (by rw [h7, h3]; rfl) (.inr (.inl rfl))
  · have hb : cfg.rv32b = true := by
      rw [h7, h3] at hlo
      obtain ⟨-, hb⟩ | hi | ⟨-, hb⟩ | ⟨hn, -⟩ := op_cases hlo
      · exact hb
      · simp [opRv32i] at hi
      · exact hb
      · simp at hn
    refine compare_masked .max hacc hm ?_ (.inr (.inr ⟨rfl, hb⟩))
    simp [opAlu, opRv32iAlu, opRv32bAlu, h7, h3, hb]
  · exact divu_masked hacc hm h7 h3
  · exact mulh_masked hacc hm h7 h3

/-- **The secure adder.** For an accepted word in ID, in any run of the pipeline registers,
the core takes from EX with the masked adder what it takes without a mask, in every cycle,
for all operands and every history of EX, exactly when the word is none of the listed
ones. -/
theorem adder_transparent_iff (cfg : Config) (m : Multiplier) {s : IfIdReg}
    (h0 : s.instrValidId = false) {ins : List IfIdIn} {w : BitVec 32}
    (hv : (run IfIdReg.next s ins).instrValidId = true) (hw : IfIdReg.lastWord ins = some w)
    (hacc : Accepts cfg w) :
    AdderTransparent cfg m (run IfIdReg.next s ins) ↔ ¬ AdderMaskMissing m w := by
  obtain ⟨w', hw', hs⟩ := IfIdReg.ifId_valid h0 ins hv
  obtain rfl : w' = w := Option.some.inj (hw'.symm.trans hw)
  rw [hs]
  refine ⟨fun ht hm => hm.not_transparent hacc ht, fun hm => ?_⟩
  obtain hon | hfree := adderServed hacc hm
  · exact AdderTransparent.of_enable hon
  · exact hfree.transparent hacc

/-- `and x1, x2, x3` in ID, after one fetch. -/
theorem adder_transparent_and :
    AdderTransparent ⟨true, false, true⟩ .slow
        (run IfIdReg.next .reset [.fetch 0x003170b3#32]) ↔
      ¬ AdderMaskMissing .slow 0x003170b3#32 :=
  adder_transparent_iff _ _ rfl (by decide) (by decide) (by decide)

/-- `slt x1, x2, x3` is accepted, and compares with a masked adder. -/
theorem slt_adder_masked :
    Accepts ⟨true, false, true⟩ 0x003120b3#32 ∧
      IfIdReg.lastWord [.fetch 0x003120b3#32] = some 0x003120b3#32 ∧
      (run IfIdReg.next .reset [.fetch 0x003120b3#32]).instrValidId = true ∧
      ¬ AdderTransparent ⟨true, false, true⟩ .fast
        (run IfIdReg.next .reset [.fetch 0x003120b3#32]) := by
  have hacc : Accepts ⟨true, false, true⟩ 0x003120b3#32 := by decide
  have hm : AdderMaskMissing .fast 0x003120b3#32 := by decide
  have hs : run IfIdReg.next .reset [.fetch 0x003120b3#32] = IfIdReg.ofWord 0x003120b3#32 := rfl
  refine ⟨hacc, rfl, rfl, ?_⟩
  rw [hs]
  exact hm.not_transparent hacc

end CocoIbex
