import CocoIbex.Cycle
import CocoIbex.Execution
import CocoIbex.PrefetchStream

/-!
# Transfers of Control

The branches, the jumps and `fence.i` over the cycles that they are in ID, with and without the
branch target ALU, and with and without data independent timing. The four configurations use
other cycles for the condition, the target and the link value, and lead to the same register
write and to the same address behind the instruction (`transfer_outcome`).

With the branch target ALU the condition and the target are there in the first cycle, and
without it the ALU computes one in each of two cycles. With data independent timing a branch
that is not taken goes through the cycles of a taken one, and is sent to the instruction behind
it. The operands are held for two cycles, so that both cycles see the same registers.

The address behind the instruction is compared with what is fetched next: a redirect makes the
fetch deliver from its target, and without one it goes on by the length of the instruction
(`Fetches`, `deliveredAddr`).

## Main results

* `transfer_outcome` — for every branch, jump and `fence.i`, all registers, every even PC and
  both lengths, the instruction leaves with the register write and the next address of the
  instruction set, in any of the four configurations.
-/

namespace CocoIbex

open Rv32

/-! ### The instructions -/

/-- The instructions that transfer control. -/
inductive Transfer
  | branch (cond : Cond) (off : BitVec 12) (rs2 rs1 : BitVec 5)
  | jal (off : BitVec 20) (rd : BitVec 5)
  | jalr (imm : BitVec 12) (rs1 rd : BitVec 5)
  | fenceI (fields : BitVec 12) (rs1 rd : BitVec 5)
  deriving DecidableEq, Repr

namespace Transfer

/-- The instruction. -/
def insn : Transfer → Insn
  | .branch cond off rs2 rs1 => .base (.branch cond off rs2 rs1)
  | .jal off rd => .base (.jal off rd)
  | .jalr imm rs1 rd => .base (.jalr imm rs1 rd)
  | .fenceI fields rs1 rd => .fenceI fields rs1 rd

/-- What the instruction does; a `fence.i` goes on behind itself. -/
def effect (pc len : BitVec 32) (reg : BitVec 5 → BitVec 32) : Transfer → Effect
  | .branch cond off rs2 rs1 =>
    { taken := cond.holds (reg rs1) (reg rs2)
      nextPc :=
        pc + if cond.holds (reg rs1) (reg rs2) then (off ++ 0#1).signExtend 32 else len }
  | .jal off rd =>
    { write := some (rd, pc + len), nextPc := pc + (off ++ 0#1).signExtend 32 }
  | .jalr imm rs1 rd =>
    { write := some (rd, pc + len), nextPc := (reg rs1 + imm.signExtend 32) &&& ~~~1#32 }
  | .fenceI _ _ _ => { nextPc := pc + len }

/-- That is what the instruction set says of branches and jumps. -/
theorem effect_base {t : Transfer} {i : Base} (h : t.insn = .base i) (pc len : BitVec 32)
    (reg : BitVec 5 → BitVec 32) : i.effect pc len reg = some (t.effect pc len reg) := by
  cases t <;> cases h <;> rfl

/-- The instruction is a branch. -/
def isBranch : Transfer → Bool
  | .branch _ _ _ _ => true
  | _ => false

/-- The instruction writes a link register. -/
def links : Transfer → Bool
  | .jal _ _ | .jalr _ _ _ => true
  | _ => false

/-! ### Decoding -/

/-- The main decode. -/
def main (cfg : Config) (first : Bool) (t : Transfer) : MainOut where
  branchInDec := t.isBranch
  jumpInDec := !t.isBranch
  jumpSet := !t.isBranch && first
  icacheInval := (match t with | .fenceI _ _ _ => true | _ => false) && first
  rfWe := t.links && if first then cfg.branchTargetALU else true
  rfRenA := match t with | .branch _ _ _ _ | .jalr _ _ _ => true | _ => false
  rfRenB := t.isBranch

/-- How the main decoder sees a transfer. -/
theorem mainDecode_eq (cfg : Config) (first : Bool) (t : Transfer) :
    mainDecode cfg first false t.insn.encode = main cfg first t := by
  rw [encode_insn]
  cases t with
  | branch cond off rs2 rs1 =>
      exact (mainDecode_base cfg first _).trans (by simp [mainOf, main, isBranch, links])
  | jal off rd =>
      exact (mainDecode_base cfg first _).trans (by simp [mainOf, main, isBranch, links])
  | jalr imm rs1 rd =>
      exact (mainDecode_base cfg first _).trans (by simp [mainOf, main, isBranch, links])
  | fenceI fields rs1 rd =>
      simp [insn, insnWord, mainDecode, mainDecodeRaw, MainOut.squash, main, isBranch, links]

/-- The ALU controls. -/
def alu (cfg : Config) (first taken : Bool) : Transfer → AluOut
  | .branch cond _ _ _ =>
    let target : ImmBSel := if taken then .b else .incrPc
    let o : AluOut :=
      if first then
        { aluOperator := Alu.condOf cond, aluOpAMuxSel := .regA, aluOpBMuxSel := .regB }
      else pcPlus target
    if cfg.branchTargetALU then { o with btAMuxSel := .currPc, btBMuxSel := target } else o
  | .jal _ _ =>
    if cfg.branchTargetALU then { pcPlus .incrPc with btAMuxSel := .currPc, btBMuxSel := .j }
    else pcPlus (if first then .j else .incrPc)
  | .jalr _ _ _ =>
    if cfg.branchTargetALU then { pcPlus .incrPc with btAMuxSel := .regA, btBMuxSel := .i }
    else if first then
      { aluOpAMuxSel := .regA, aluOpBMuxSel := .imm, immBMuxSel := .i, aluOperator := .add }
    else pcPlus .incrPc
  | .fenceI _ _ _ =>
    if cfg.branchTargetALU then { btAMuxSel := .currPc, btBMuxSel := .incrPc } else pcPlus .incrPc

/-- How the ALU decoder sees it. -/
theorem aluDecode_eq (cfg : Config) (first taken : Bool) (t : Transfer) :
    aluDecode cfg first taken t.insn.encode = alu cfg first taken t := by
  rw [encode_insn]
  cases t with
  | branch cond off rs2 rs1 =>
      have hc : branchAlu cond.funct3 = Alu.condOf cond := by cases cond <;> rfl
      simp [insn, insnWord, baseWord, aluDecode, alu, hc]
  | jal off rd =>
      cases first <;> cases h : cfg.branchTargetALU <;>
        simp [insn, insnWord, baseWord, aluDecode, alu, h]
  | jalr imm rs1 rd =>
      cases first <;> cases h : cfg.branchTargetALU <;>
        simp [insn, insnWord, baseWord, aluDecode, alu, h]
  | fenceI fields rs1 rd => simp [insn, insnWord, aluDecode, alu]

end Transfer

/-- An instruction in ID. -/
def transferInstr (t : Transfer) (compressed : Bool) (pc : BitVec 32) (reg : BitVec 5 → BitVec 32) :
    IdInstr where
  instr := t.insn.encode
  instrIsCompressed := compressed
  pcId := pc
  reg := reg

/-- The length of an instruction is even. -/
theorem even_bytes (compressed : Bool) : (bytes compressed).getLsbD 0 = false := by
  cases compressed <;> rfl

namespace Datapath

section

variable (cfg : Config) {m : Multiplier} (t : Transfer) (compressed : Bool) (pc : BitVec 32)
  (reg : BitVec 5 → BitVec 32) (s : Datapath m) (x : DatapathIn)

/-- The decode of an instruction in a cycle. -/
theorem decodes_transfer : Decodes cfg (transferInstr t compressed pc reg) s x
    (t.main cfg (s.idFsm == .firstCycle))
    (t.alu cfg (s.idFsm == .firstCycle) (branchTaken s x)) where
  main := t.mainDecode_eq cfg _
  alu := t.aluDecode_eq cfg _ _
  multSel := by
    cases t <;> cases h : cfg.branchTargetALU <;> cases s.idFsm == .firstCycle <;>
      simp [Transfer.alu, pcPlus, h]
  divSel := by
    cases t <;> cases h : cfg.branchTargetALU <;> cases s.idFsm == .firstCycle <;>
      simp [Transfer.alu, pcPlus, h]
  csrAccess := rfl

/-- The inputs of the operand muxes. -/
theorem operands_transfer (hincr : x.lsuAddrIncrReq = false) :
    operands cfg (transferInstr t compressed pc reg) s x =
      { instr := insnWord t.insn
        instrIsCompressed := compressed
        pcId := pc
        rfRdataA := reg (regS1 (insnWord t.insn))
        rfRdataB := reg (regS2 (insnWord t.insn))
        lsuAddrIncrReq := false
        lsuAddrLast := x.lsuAddrLast } := by
  have hrs3 : ∀ first taken, (aluDecode cfg first taken (insnWord t.insn)).useRs3 = false := by
    intro first taken
    rw [← encode_insn, t.aluDecode_eq]
    cases t <;> cases first <;> cases h : cfg.branchTargetALU <;> simp [Transfer.alu, pcPlus, h]
  simp only [operands, transferInstr, encode_insn, rfRaddrA, rfRaddrB, hrs3, hincr,
    Bool.false_eq_true, if_false]

variable {s x}

/-- What EX computes when the ALU adds. -/
theorem exOut_add {h : IdInstr} {c : MainOut} {a : AluOut} (hd : Decodes cfg h s x c a)
    (ha : a.aluOperator = .add) :
    (exOut cfg h s x).resultEx
        = (operands cfg h s x).aluOperandA a + (operands cfg h s x).aluOperandB cfg a
      ∧ (cfg.branchTargetALU = false → (exOut cfg h s x).branchTarget
        = (operands cfg h s x).aluOperandA a + (operands cfg h s x).aluOperandB cfg a) := by
  have hop := hd.operator.trans ha
  rw [hd.exOut_eq, ← hd.operandA, ← hd.operandB]
  refine ⟨Alu.result_immOp cfg.rv32b hd.plain (o := .add) hop, fun hb => ?_⟩
  simp only [hb, Bool.false_eq_true, if_false]
  exact Alu.adderResult_add hd.plain (congrArg Alu.adderOpBNegate hop)

variable (hincr : x.lsuAddrIncrReq = false)

include hincr

/-- The link value, in the cycle that writes it. -/
theorem link_transfer (hl : t.links = true)
    (hcycle : cfg.branchTargetALU = true ∨ s.idFsm = .multiCycle) :
    (exOut cfg (transferInstr t compressed pc reg) s x).resultEx = pc + bytes compressed := by
  have hd := decodes_transfer cfg t compressed pc reg s x
  have halu : (t.alu cfg (s.idFsm == .firstCycle) (branchTaken s x)).aluOperator = .add
      ∧ (t.alu cfg (s.idFsm == .firstCycle) (branchTaken s x)).aluOpAMuxSel = .currPc
      ∧ (t.alu cfg (s.idFsm == .firstCycle) (branchTaken s x)).aluOpBMuxSel = .imm
      ∧ (t.alu cfg (s.idFsm == .firstCycle) (branchTaken s x)).immBMuxSel = .incrPc := by
    cases t with
    | branch => cases hl
    | fenceI => cases hl
    | jal | jalr =>
        rcases hcycle with hb | hm
        · simp [Transfer.alu, hb, pcPlus]
        · cases hb : cfg.branchTargetALU <;> simp [Transfer.alu, hb, hm, pcPlus]
  obtain ⟨hop, hA, hB, himm⟩ := halu
  rw [(exOut_add cfg hd hop).1, operands_transfer _ _ _ _ _ _ _ hincr]
  simp only [OperandIn.aluOperandA, OperandIn.aluOperandB, OperandIn.aluOpAMuxSel,
    OperandIn.aluOpBMuxSel, OperandIn.immBMuxSel, OperandIn.immB, hA, hB, himm, Bool.false_eq_true,
    if_false, if_true]
  rfl

/-- What the instruction writes, in the cycle that writes it. -/
theorem write_transfer (hcycle : cfg.branchTargetALU = true ∨ s.idFsm = .multiCycle) :
    (if t.links then
        some (rfWaddr t.insn.encode, (exOut cfg (transferInstr t compressed pc reg) s x).resultEx)
      else none) = (t.effect pc (bytes compressed) reg).write := by
  have hlink := fun hl => link_transfer cfg t compressed pc reg (s := s) hincr hl hcycle
  rw [encode_insn]
  cases t with
  | branch | fenceI => rfl
  | jal off rd =>
      rw [hlink rfl]
      simp [Transfer.links, rfWaddr, Transfer.insn, insnWord, baseWord, Transfer.effect]
  | jalr imm rs1 rd =>
      rw [hlink rfl]
      simp [Transfer.links, rfWaddr, Transfer.insn, insnWord, baseWord, Transfer.effect]

/-- The target of a jump in its first cycle. -/
theorem jump_target (hpc : pc.getLsbD 0 = false) (hb : t.isBranch = false)
    (hfirst : s.idFsm = .firstCycle) :
    fetchAddr (exOut cfg (transferInstr t compressed pc reg) s x).branchTarget
      = (t.effect pc (bytes compressed) reg).nextPc := by
  have hd := decodes_transfer cfg t compressed pc reg s x
  cases hbt : cfg.branchTargetALU with
  | true =>
      rw [hd.exOut_eq, operands_transfer _ _ _ _ _ _ _ hincr, hfirst]
      cases t with
      | branch => cases hb
      | jal off rd =>
          have ht := fetchAddr_even (even_add hpc (even_signExtend off))
          simpa [hbt, Transfer.alu, OperandIn.btAOperand, OperandIn.btBOperand, Transfer.insn,
            insnWord, baseWord, immJType_encU, Transfer.effect] using ht
      | jalr imm rs1 rd =>
          simp [hbt, Transfer.alu, OperandIn.btAOperand, OperandIn.btBOperand, Transfer.insn,
            insnWord, baseWord, immIType_encI, Transfer.effect, fetchAddr_eq_and]
      | fenceI fields rs1 rd =>
          have ht := fetchAddr_even (even_add hpc (even_bytes compressed))
          simpa [hbt, Transfer.alu, OperandIn.btAOperand, OperandIn.btBOperand,
            OperandIn.instrBytes, Transfer.effect, bytes] using ht
  | false =>
      have hop : (t.alu cfg (s.idFsm == .firstCycle) (branchTaken s x)).aluOperator = .add := by
        rw [hfirst]
        cases t with
        | branch => cases hb
        | jal | jalr | fenceI => simp [Transfer.alu, hbt, pcPlus]
      rw [(exOut_add cfg hd hop).2 hbt, operands_transfer _ _ _ _ _ _ _ hincr, hfirst]
      cases t with
      | branch => cases hb
      | jal off rd =>
          have ht := fetchAddr_even (even_add hpc (even_signExtend off))
          simpa [hbt, Transfer.alu, pcPlus, OperandIn.aluOperandA, OperandIn.aluOperandB,
            OperandIn.aluOpAMuxSel, OperandIn.aluOpBMuxSel, OperandIn.immBMuxSel, OperandIn.immB,
            Transfer.insn, insnWord, baseWord, immJType_encU, Transfer.effect] using ht
      | jalr imm rs1 rd =>
          simp [hbt, Transfer.alu, OperandIn.aluOperandA, OperandIn.aluOperandB,
            OperandIn.aluOpAMuxSel, OperandIn.aluOpBMuxSel, OperandIn.immBMuxSel, OperandIn.immB,
            Transfer.insn, insnWord, baseWord, immIType_encI, Transfer.effect, fetchAddr_eq_and]
      | fenceI fields rs1 rd =>
          have ht := fetchAddr_even (even_add hpc (even_bytes compressed))
          simpa [hbt, Transfer.alu, pcPlus, OperandIn.aluOperandA, OperandIn.aluOperandB,
            OperandIn.aluOpAMuxSel, OperandIn.aluOpBMuxSel, OperandIn.immBMuxSel, OperandIn.immB,
            OperandIn.instrBytes, Transfer.effect, bytes] using ht

omit hincr in
/-- The fetch address of a branch is its target. -/
theorem fetchAddr_branch (hpc : pc.getLsbD 0 = false) (taken : Bool) (off : BitVec 12) :
    fetchAddr (pc + if taken then (off ++ 0#1).signExtend 32 else bytes compressed)
      = pc + if taken then (off ++ 0#1).signExtend 32 else bytes compressed := by
  cases taken with
  | false => exact fetchAddr_even (even_add hpc (even_bytes compressed))
  | true => exact fetchAddr_even (even_add hpc (even_signExtend off))

/-- The decision of a branch in its first cycle. -/
theorem branch_decision (cond : Cond) (off : BitVec 12) (rs2 rs1 : BitVec 5)
    (hfirst : s.idFsm = .firstCycle) :
    Alu.cmpResult (aluSees cfg (transferInstr (.branch cond off rs2 rs1) compressed pc reg) s x)
      = cond.holds (reg rs1) (reg rs2) := by
  have hd := decodes_transfer cfg (.branch cond off rs2 rs1) compressed pc reg s x
  have hop : (aluSees cfg (transferInstr (.branch cond off rs2 rs1) compressed pc reg) s x).operator
      = Alu.condOf cond := by
    rw [hd.operator, hfirst]
    cases hb : cfg.branchTargetALU <;> simp [Transfer.alu, hb]
  rw [Alu.cmpResult_cond hd.plain hop, hd.operandA, hd.operandB,
    operands_transfer _ _ _ _ _ _ _ hincr, hfirst]
  cases hb : cfg.branchTargetALU <;>
    simp [Transfer.alu, hb, OperandIn.aluOperandA, OperandIn.aluOperandB, OperandIn.aluOpAMuxSel,
      OperandIn.aluOpBMuxSel, Transfer.insn, insnWord, baseWord]

/-- The target of a branch, with the branch target ALU or in a later cycle. -/
theorem branch_target (cond : Cond) (off : BitVec 12) (rs2 rs1 : BitVec 5)
    (hcycle : cfg.branchTargetALU = true ∨ s.idFsm = .multiCycle) :
    (exOut cfg (transferInstr (.branch cond off rs2 rs1) compressed pc reg) s x).branchTarget
      = pc + if branchTaken s x then (off ++ 0#1).signExtend 32 else bytes compressed := by
  have hd := decodes_transfer cfg (.branch cond off rs2 rs1) compressed pc reg s x
  cases hbt : cfg.branchTargetALU with
  | true =>
      rw [hd.exOut_eq, operands_transfer _ _ _ _ _ _ _ hincr]
      cases hf : s.idFsm == .firstCycle <;> cases hk : branchTaken s x <;>
        simp [hbt, Transfer.alu, pcPlus, OperandIn.btAOperand, OperandIn.btBOperand, Transfer.insn,
          insnWord, baseWord, immBType_encR, OperandIn.instrBytes, bytes]
  | false =>
      have hm := hcycle.resolve_left (by simp [hbt])
      have hop : ((Transfer.branch cond off rs2 rs1).alu cfg (s.idFsm == .firstCycle)
          (branchTaken s x)).aluOperator = .add := by
        rw [hm]
        simp [Transfer.alu, hbt, pcPlus]
      rw [(exOut_add cfg hd hop).2 hbt, operands_transfer _ _ _ _ _ _ _ hincr, hm]
      cases hk : branchTaken s x <;>
        simp [hbt, Transfer.alu, pcPlus, OperandIn.aluOperandA, OperandIn.aluOperandB,
          OperandIn.aluOpAMuxSel, OperandIn.aluOpBMuxSel, OperandIn.immBMuxSel, OperandIn.immB,
          Transfer.insn, insnWord, baseWord, immBType_encR, OperandIn.instrBytes, bytes]

end

/-! ### The cycles of an instruction -/

section

variable (cfg : Config) {m : Multiplier} (t : Transfer) (compressed : Bool) (pc : BitVec 32)
  (reg : BitVec 5 → BitVec 32) {s : Datapath m} {x : DatapathIn} (hs : Starts s)
  (hbusy : x.lsuBusy = false) (hincr : x.lsuAddrIncrReq = false)

section

include hs hbusy hincr

/-- A jump in its first cycle. -/
theorem jump_first (hpc : pc.getLsbD 0 = false) (hb : t.isBranch = false) :
    out cfg (transferInstr t compressed pc reg) s x =
        { rfWrite :=
            if cfg.branchTargetALU then (t.effect pc (bytes compressed) reg).write else none
          lsuRequest := none
          pcSet := some (t.effect pc (bytes compressed) reg).nextPc
          branchSet := false
          call := false
          done := cfg.branchTargetALU }
      ∧ (cfg.branchTargetALU = false →
        (next cfg (transferInstr t compressed pc reg) s x).idFsm = .multiCycle
          ∧ (next cfg (transferInstr t compressed pc reg) s x).branchSetQ = false) := by
  have hd := decodes_transfer cfg t compressed pc reg s x
  have hf := hd.fsmOut_first hs.idFsm
  simp only [Transfer.main, hb, hs.idFsm, Bool.false_eq_true, if_false, Bool.not_false,
    if_true] at hf
  have htarget := jump_target cfg t compressed pc reg hincr hpc hb hs.idFsm
  constructor
  · have hw := fun hbt =>
      write_transfer cfg t compressed pc reg (s := s) (x := x) hincr (Or.inl hbt)
    rw [hd.out_eq, hf]
    simp only [Transfer.main, hb, hs.idFsm, hs.branchSetQ, hbusy, htarget]
    cases hbt : cfg.branchTargetALU with
    | false => simp
    | true =>
        rw [← hw hbt]
        simp
        rfl
  · intro hbt
    simp only [next, hf, hbt, Bool.false_eq_true, if_false, and_self]

/-- A branch in its first cycle. -/
theorem branch_first (cond : Cond) (off : BitVec 12) (rs2 rs1 : BitVec 5) {taken : Bool}
    (hpc : pc.getLsbD 0 = false) (htaken : cond.holds (reg rs1) (reg rs2) = taken) :
    out cfg (transferInstr (.branch cond off rs2 rs1) compressed pc reg) s x =
        { rfWrite := none
          lsuRequest := none
          pcSet :=
            if cfg.branchTargetALU && !x.dataIndTiming && taken then
              some ((Transfer.branch cond off rs2 rs1).effect pc (bytes compressed) reg).nextPc
            else none
          branchSet := cfg.branchTargetALU && !x.dataIndTiming && taken
          call := false
          done := !(x.dataIndTiming || (!cfg.branchTargetALU && taken)) }
      ∧ ((x.dataIndTiming || (!cfg.branchTargetALU && taken)) = true →
        (next cfg (transferInstr (.branch cond off rs2 rs1) compressed pc reg) s x).idFsm
            = .multiCycle
          ∧ (next cfg (transferInstr (.branch cond off rs2 rs1) compressed pc reg) s x).branchSetQ
            = true
          ∧ (next cfg (transferInstr (.branch cond off rs2 rs1) compressed pc reg) s x).branchTakenQ
            = taken) := by
  have hd := decodes_transfer cfg (.branch cond off rs2 rs1) compressed pc reg s x
  have hdec := (branch_decision cfg compressed pc reg (s := s) (x := x) hincr cond off rs2 rs1
    hs.idFsm).trans htaken
  have hf := hd.fsmOut_first hs.idFsm
  simp only [Transfer.main, Transfer.isBranch, Transfer.links, hdec, Bool.false_and,
    Bool.false_eq_true, if_false, if_true] at hf
  constructor
  · rw [hd.out_eq, hf]
    simp only [Transfer.main, Transfer.isBranch, hs.idFsm, hs.branchSetQ, hbusy]
    cases hbt : cfg.branchTargetALU with
    | false => cases x.dataIndTiming <;> cases taken <;> simp
    | true =>
        have htarget := branch_target cfg compressed pc reg (s := s) (x := x) hincr cond off rs2 rs1
          (Or.inl hbt)
        have hfetch := fetchAddr_branch compressed pc hpc true off
        cases hdit : x.dataIndTiming with
        | true => simp
        | false =>
            have hk : branchTaken s x = true := by simp [branchTaken, hdit]
            simp only [hk, if_true] at htarget hfetch
            cases taken with
            | false => simp
            | true => simp [htarget, hfetch, Transfer.effect, htaken]
  · intro hlater
    simp only [next, hf, hd.exOut_eq, hdec]
    cases hdit : x.dataIndTiming <;> cases hbt : cfg.branchTargetALU <;> cases taken <;> simp_all

end

section

include hbusy hincr

/-- A jump in its second cycle. -/
theorem jump_second (hmulti : s.idFsm = .multiCycle)
    (hq : s.branchSetQ = false) (hbt : cfg.branchTargetALU = false) :
    out cfg (transferInstr t compressed pc reg) s x =
      { rfWrite := (t.effect pc (bytes compressed) reg).write
        lsuRequest := none
        pcSet := none
        branchSet := false
        call := false
        done := true } := by
  have hd := decodes_transfer cfg t compressed pc reg s x
  have hw := write_transfer cfg t compressed pc reg (s := s) (x := x) hincr (Or.inr hmulti)
  have hf := hd.fsmOut_later hmulti
  simp only [Transfer.main, Bool.false_and, Bool.false_eq_true, if_false] at hf
  rw [hd.out_eq, hf, ← hw]
  simp only [Transfer.main, hmulti, hq, hbt, hbusy]
  simp
  rfl

/-- A branch in its second cycle. -/
theorem branch_second (cond : Cond) (off : BitVec 12) (rs2 rs1 : BitVec 5)
    (hpc : pc.getLsbD 0 = false) (hmulti : s.idFsm = .multiCycle) (hq : s.branchSetQ = true)
    (htaken : branchTaken s x = cond.holds (reg rs1) (reg rs2))
    (hlater : x.dataIndTiming = true ∨ cfg.branchTargetALU = false) :
    out cfg (transferInstr (.branch cond off rs2 rs1) compressed pc reg) s x =
      { rfWrite := none
        lsuRequest := none
        pcSet :=
          some ((Transfer.branch cond off rs2 rs1).effect pc (bytes compressed) reg).nextPc
        branchSet := true
        call := false
        done := true } := by
  have hd := decodes_transfer cfg (.branch cond off rs2 rs1) compressed pc reg s x
  have htarget := branch_target cfg compressed pc reg (s := s) (x := x) hincr cond off rs2 rs1
    (Or.inr hmulti)
  have hfetch := fetchAddr_branch compressed pc hpc (cond.holds (reg rs1) (reg rs2)) off
  have hf := hd.fsmOut_later hmulti
  simp only [Transfer.main, Transfer.isBranch, Transfer.links, Bool.false_and, Bool.false_eq_true,
    if_false] at hf
  have hdirect : (cfg.branchTargetALU && !x.dataIndTiming) = false := by
    rcases hlater with h | h <;> simp [h]
  rw [hd.out_eq, hf]
  simp only [htarget, htaken, hfetch]
  simp [Transfer.main, Transfer.isBranch, Transfer.effect, hmulti, hq, hbusy, hdirect]

end

end

/-- The address to which the fetch is redirected is even. -/
theorem pcSet_even {cfg : Config} {m : Multiplier} {h : IdInstr} {s : Datapath m} {x : DatapathIn}
    {a : BitVec 32} (ha : (out cfg h s x).pcSet = some a) : a.extractLsb' 1 31 ++ 0#1 = a := by
  simp only [out] at ha
  split_ifs at ha
  rw [← Option.some.inj ha, fetchAddr]
  refine congrArg (· ++ 0#1) ?_
  exact BitVec.extractLsb'_append_eq_left

end Datapath

/-! ### The address behind the instruction -/

/-- The prefetch buffer next to an instruction that is in ID up to the cycle `n`: it branches where
the instruction redirects the fetch, and the instruction behind is not taken before this one
leaves. -/
structure Fetches (o : ℕ → DatapathOut) (n : ℕ) (p : ℕ → PrefetchBuffer) (y : ℕ → PrefetchIn) :
    Prop where
  next : ∀ k, p (k + 1) = (p k).next (y k)
  branch : ∀ k ≤ n, (y k).branch = (o k).pcSet.isSome
  addr : ∀ k ≤ n, ∀ a, (o k).pcSet = some a → (y k).addr = a
  ready : ∀ k ≤ n, (y k).ready = true → (o k).done = true

/-- The address of the instruction that ID takes next: in cycle `n`, or later what the buffer shows
from then on. -/
def deliveredAddr (p : ℕ → PrefetchBuffer) (y : ℕ → PrefetchIn) (n : ℕ) : BitVec 32 :=
  if (p n).valid (y n) && (y n).ready && !(y n).branch then ((p n).out (y n)).addr
  else ((p (n + 1)).out (y (n + 1))).addr

namespace Fetches

variable {o : ℕ → DatapathOut} {n : ℕ} {p : ℕ → PrefetchBuffer} {y : ℕ → PrefetchIn}
  (h : Fetches o n p y) (heven : ∀ k a, (o k).pcSet = some a → a.extractLsb' 1 31 ++ 0#1 = a)

include h heven

/-- A redirection moves the buffer to its target. -/
theorem step_some {k : ℕ} (hk : k ≤ n) {a : BitVec 32} (ha : (o k).pcSet = some a) :
    (p (k + 1)).fifo.instrAddrQ ++ 0#1 = a := by
  have hb : (y k).branch = true := by rw [h.branch k hk, ha]; rfl
  rw [h.next k]
  exact (congrArg (· ++ 0#1) (FetchFifo.instrAddrQ_next_of_clear hb)).trans
    (by rw [show ((p k).fifoIn (y k)).inAddr = a from h.addr k hk a ha]; exact heven k a ha)

omit heven in
/-- Without a redirection the address stays as long as nothing is taken. -/
theorem step_none {k : ℕ} (hk : k ≤ n) (ha : (o k).pcSet = none)
    (hr : ((p k).valid (y k) && (y k).ready) = false) :
    (p (k + 1)).fifo.instrAddrQ = (p k).fifo.instrAddrQ := by
  have hb : (y k).branch = false := by rw [h.branch k hk, ha]; rfl
  have hacc : (p k).fifo.accept ((p k).fifoIn (y k)) = false := (Bool.and_comm _ _).trans hr
  rw [h.next k]
  exact (FetchFifo.instrAddrQ_next hb).trans (if_neg (by rw [hacc]; decide))

/-- The address that the buffer shows after some cycles. -/
theorem shows_eq (hdone : ∀ k < n, (o k).done = false) (k : ℕ) (hk : k ≤ n) :
    (p k).fifo.instrAddrQ ++ 0#1
      = (((List.range k).filterMap fun j => (o j).pcSet).getLast?.getD
        ((p 0).fifo.instrAddrQ ++ 0#1)) := by
  induction k with
  | zero => rfl
  | succ k ih =>
      rw [List.range_succ, List.filterMap_append]
      cases ha : (o k).pcSet with
      | some a => simp [ha, h.step_some heven (by omega) ha]
      | none =>
          have hr : ((p k).valid (y k) && (y k).ready) = false := by
            have hnot := mt (h.ready k (by omega)) (by rw [hdone k (by omega)]; decide)
            rw [Bool.not_eq_true] at hnot
            rw [hnot, Bool.and_false]
          rw [h.step_none (by omega) ha hr, ih (by omega)]
          simp [ha]

/-- ID takes the instruction at the last target, or the one that was next from the start. -/
theorem delivered_eq (hdone : ∀ k < n, (o k).done = false) :
    deliveredAddr p y n
      = (((List.range (n + 1)).filterMap fun j => (o j).pcSet).getLast?.getD
        ((p 0).fifo.instrAddrQ ++ 0#1)) := by
  have hn := h.shows_eq heven hdone n le_rfl
  have hout : ∀ k, ((p k).out (y k)).addr = (p k).fifo.instrAddrQ ++ 0#1 := fun _ => rfl
  rw [List.range_succ, List.filterMap_append, deliveredAddr, hout, hout]
  cases ha : (o n).pcSet with
  | some a =>
      have hb : (y n).branch = true := by rw [h.branch n le_rfl, ha]; rfl
      rw [hb, Bool.not_true, Bool.and_false, if_neg (by decide)]
      simpa [ha] using h.step_some heven le_rfl ha
  | none =>
      have hb : (y n).branch = false := by rw [h.branch n le_rfl, ha]; rfl
      rw [hb, Bool.not_false, Bool.and_true]
      split_ifs with hacc
      · simpa [ha] using hn
      · have hstay := h.step_none le_rfl ha (Bool.eq_false_of_not_eq_true hacc)
        rw [hstay, hn]
        simp [ha]

end Fetches

namespace Datapath

/-- The outputs over the cycles of an instruction: what it writes, and one redirection at most. -/
structure Outcome (redirects : Bool) (e : Effect) (os : List DatapathOut) : Prop where
  writes : os.filterMap DatapathOut.rfWrite = e.write.toList
  accesses : os.filterMap DatapathOut.lsuRequest = []
  pcSets : os.filterMap DatapathOut.pcSet = if redirects then [e.nextPc] else []

section

variable (cfg : Config) {m : Multiplier} {s : Datapath m} {ins : ℕ → DatapathIn} (compressed : Bool)
  {pc : BitVec 32} (reg : BitVec 5 → BitVec 32) {dit : Bool} (hpc : pc.getLsbD 0 = false)
  (hs : Starts s) (hdit : ∀ k, (ins k).dataIndTiming = dit)
  (hlsu : ∀ k, (ins k).lsuBusy = false ∧ (ins k).lsuAddrIncrReq = false)

include hpc hs hlsu

/-- A jump: one cycle with the branch target ALU, and two without. -/
theorem outcome_jump {t : Transfer} (hb : t.isBranch = false) :
    ∃ n ≤ 1, LeavesAt cfg (transferInstr t compressed pc reg) s ins n
      ∧ Outcome true (t.effect pc (bytes compressed) reg)
        (outs cfg (transferInstr t compressed pc reg) s ins (n + 1)) := by
  obtain ⟨ho, hnext⟩ := jump_first cfg t compressed pc reg hs (hlsu 0).1 (hlsu 0).2 hpc hb
  cases hbt : cfg.branchTargetALU with
  | true =>
      rw [hbt] at ho
      refine ⟨0, Nat.zero_le 1, ⟨congrArg DatapathOut.done ho,
        fun k hk => absurd hk (Nat.not_lt_zero k)⟩, ?_⟩
      have houts : outs cfg (transferInstr t compressed pc reg) s ins 1 = [_] :=
        congrArg (fun o => [o]) ho
      rw [houts]
      refine ⟨?_, rfl, rfl⟩
      cases (t.effect pc (bytes compressed) reg).write <;> rfl
  | false =>
      rw [hbt] at ho
      obtain ⟨hmulti, hq⟩ := hnext hbt
      have ho' := jump_second cfg t compressed pc reg (hlsu 1).1 (hlsu 1).2 hmulti hq hbt
      refine ⟨1, le_rfl, ⟨congrArg DatapathOut.done ho', fun k hk => ?_⟩, ?_⟩
      · obtain rfl : k = 0 := by omega
        exact congrArg DatapathOut.done ho
      have houts : outs cfg (transferInstr t compressed pc reg) s ins 2 = [_, _] :=
        congrArg₂ (fun o o' => [o, o']) ho ho'
      rw [houts]
      refine ⟨?_, rfl, rfl⟩
      cases (t.effect pc (bytes compressed) reg).write <;> rfl

include hdit

/-- A branch: one cycle, and a second one with data independent timing, or if it is taken without
the branch target ALU. -/
theorem outcome_branch (cond : Cond) (off : BitVec 12) (rs2 rs1 : BitVec 5) :
    ∃ n ≤ 1, LeavesAt cfg (transferInstr (.branch cond off rs2 rs1) compressed pc reg) s ins n
      ∧ Outcome (dit || cond.holds (reg rs1) (reg rs2))
        ((Transfer.branch cond off rs2 rs1).effect pc (bytes compressed) reg)
        (outs cfg (transferInstr (.branch cond off rs2 rs1) compressed pc reg) s ins (n + 1)) := by
  obtain ⟨ho, hnext⟩ := branch_first cfg compressed pc reg hs (hlsu 0).1 (hlsu 0).2 cond off rs2 rs1
    hpc rfl
  rw [hdit 0] at ho hnext
  cases hlater : dit || (!cfg.branchTargetALU && cond.holds (reg rs1) (reg rs2)) with
  | false =>
      rw [hlater] at ho
      refine ⟨0, Nat.zero_le 1, ⟨congrArg DatapathOut.done ho,
        fun k hk => absurd hk (Nat.not_lt_zero k)⟩, ?_⟩
      have houts : outs cfg (transferInstr (.branch cond off rs2 rs1) compressed pc reg) s ins 1
          = [_] := congrArg (fun o => [o]) ho
      rw [houts]
      refine ⟨rfl, rfl, ?_⟩
      cases hdt : dit <;> cases hbt : cfg.branchTargetALU <;>
        cases htaken : cond.holds (reg rs1) (reg rs2) <;> simp_all
  | true =>
      rw [hlater] at ho
      obtain ⟨hmulti, hq, htq⟩ := hnext hlater
      have hslow : dit = true ∨ cfg.branchTargetALU = false := by
        rw [Bool.or_eq_true, Bool.and_eq_true, Bool.not_eq_true'] at hlater
        exact hlater.imp id And.left
      have htaken : branchTaken
          (after cfg (transferInstr (.branch cond off rs2 rs1) compressed pc reg) s ins 1) (ins 1)
          = cond.holds (reg rs1) (reg rs2) := by
        rw [branchTaken, hdit 1]
        change (!dit || (next cfg _ s (ins 0)).branchTakenQ) = _
        rw [htq]
        cases hdt : dit with
        | true => rfl
        | false =>
            rw [hdt, Bool.false_or, Bool.and_eq_true] at hlater
            rw [hlater.2]
            rfl
      have ho' :=
        branch_second cfg compressed pc reg (hlsu 1).1 (hlsu 1).2 cond off rs2 rs1 hpc hmulti
        hq htaken (by rw [hdit 1]; exact hslow)
      refine ⟨1, le_rfl, ⟨congrArg DatapathOut.done ho', fun k hk => ?_⟩, ?_⟩
      · obtain rfl : k = 0 := by omega
        exact congrArg DatapathOut.done ho
      have houts : outs cfg (transferInstr (.branch cond off rs2 rs1) compressed pc reg) s ins 2
          = [_, _] := congrArg₂ (fun o o' => [o, o']) ho ho'
      rw [houts]
      refine ⟨rfl, rfl, ?_⟩
      have hdirect : (cfg.branchTargetALU && !dit) = false := by
        rcases hslow with h | h <;> simp [h]
      have hred : (dit || cond.holds (reg rs1) (reg rs2)) = true := by
        rw [Bool.or_eq_true, Bool.and_eq_true] at hlater
        rw [Bool.or_eq_true]
        exact hlater.imp id And.right
      rw [hdirect, hred]
      rfl

end

/-- **Transfers of control.** For every branch, jump and `fence.i`, all registers, every even PC and
both lengths, the instruction leaves ID after one or two cycles in which it writes its link register
and redirects the fetch at most once, and the instruction that ID takes next is the one where the
hart goes on. None of this depends on the configuration: neither on the branch target ALU nor on
data independent timing, with which a branch that is not taken redirects the fetch behind itself. -/
theorem transfer_outcome (cfg : Config) {m : Multiplier} (s : Datapath m) (ins : ℕ → DatapathIn)
    (t : Transfer) (compressed : Bool) (pc : BitVec 31) (reg : BitVec 5 → BitVec 32) (dit : Bool)
    (hs : Starts s) (hdit : ∀ k, (ins k).dataIndTiming = dit)
    (hlsu : ∀ k, (ins k).lsuBusy = false ∧ (ins k).lsuAddrIncrReq = false) :
    let h := transferInstr t compressed (pc ++ 0#1) reg
    let e := t.effect (pc ++ 0#1) (bytes compressed) reg
    ∃ n ≤ 1, LeavesAt cfg h s ins n
      ∧ (outs cfg h s ins (n + 1)).filterMap DatapathOut.rfWrite = e.write.toList
      ∧ (outs cfg h s ins (n + 1)).filterMap DatapathOut.lsuRequest = []
      ∧ ((outs cfg h s ins (n + 1)).filterMap DatapathOut.pcSet).length ≤ 1
      ∧ (t.isBranch = true → dit = true → e.taken = false →
        (outs cfg h s ins (n + 1)).filterMap DatapathOut.pcSet = [pc ++ 0#1 + bytes compressed])
      ∧ ∀ p y, Fetches (fun k => out cfg h (after cfg h s ins k) (ins k)) n p y →
        (p 0).fifo.instrAddrQ ++ 0#1 = pc ++ 0#1 + bytes compressed →
        deliveredAddr p y n = e.nextPc := by
  intro h e
  have hpc : (pc ++ 0#1).getLsbD 0 = false := by rw [BitVec.getLsbD_append]; rfl
  obtain ⟨n, hn, hl, ho⟩ : ∃ n ≤ 1, LeavesAt cfg h s ins n
      ∧ Outcome (!t.isBranch || dit || e.taken) e (outs cfg h s ins (n + 1)) := by
    cases t with
    | branch cond off rs2 rs1 =>
        exact outcome_branch cfg compressed reg hpc hs hdit hlsu cond off rs2 rs1
    | jal | jalr | fenceI => exact outcome_jump cfg compressed reg hpc hs hlsu rfl
  have hstraight : t.isBranch = true → e.taken = false →
      e.nextPc = pc ++ 0#1 + bytes compressed := by
    intro hb htaken
    cases t with
    | branch cond off rs2 rs1 =>
        have hno : cond.holds (reg rs1) (reg rs2) = false := htaken
        simp [e, Transfer.effect, hno]
    | jal | jalr | fenceI => cases hb
  refine ⟨n, hn, hl, ho.writes, ho.accesses, ?_, fun hb hd htaken => ?_, fun p y hf hstart => ?_⟩
  · rw [ho.pcSets]
    split_ifs
    · exact le_rfl
    · exact Nat.zero_le 1
  · rw [ho.pcSets, hd, Bool.or_true, Bool.true_or, if_pos rfl, hstraight hb htaken]
  · have hdel := hf.delivered_eq (fun k a ha => pcSet_even ha) hl.2
    have hmap : (List.range (n + 1)).filterMap
          (fun j => (out cfg h (after cfg h s ins j) (ins j)).pcSet)
        = (outs cfg h s ins (n + 1)).filterMap DatapathOut.pcSet := by
      rw [outs, List.filterMap_map]
      rfl
    rw [hdel, hmap, ho.pcSets, hstart]
    cases hr : !t.isBranch || dit || e.taken with
    | true => rfl
    | false =>
        rw [Bool.or_eq_false_iff, Bool.or_eq_false_iff, Bool.not_eq_false'] at hr
        exact (hstraight hr.1.1 hr.2).symm

/-- `bne x1, x1, 8` at 0x80 with the branch target ALU and data independent timing: the fetch is
redirected to 0x84. -/
theorem transfer_outcome_bne :
    let h := transferInstr (.branch .ne 4#12 1#5 1#5) false 0x80#32 fun _ => 7#32
    let s : Datapath .fast := ⟨.firstCycle, false, false, ExBlock.reset .fast⟩
    let ins : ℕ → DatapathIn := fun _ => { restIn with dataIndTiming := true }
    ∃ n ≤ 1, LeavesAt ⟨true, false, true⟩ h s ins n
      ∧ (outs ⟨true, false, true⟩ h s ins (n + 1)).filterMap DatapathOut.pcSet = [0x84#32] := by
  obtain ⟨n, hn, hl, -, -, -, hp, -⟩ := transfer_outcome ⟨true, false, true⟩
    (⟨.firstCycle, false, false, ExBlock.reset .fast⟩ : Datapath .fast)
    (fun _ => { restIn with dataIndTiming := true }) (.branch .ne 4#12 1#5 1#5) false 0x40#31
    (fun _ => 7#32) true ⟨rfl, rfl⟩ (fun _ => rfl) (fun _ => ⟨rfl, rfl⟩)
  exact ⟨n, hn, hl, hp rfl rfl rfl⟩

end Datapath

end CocoIbex
