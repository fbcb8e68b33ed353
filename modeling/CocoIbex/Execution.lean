import CocoIbex.Rv32Decode

/-!
# Executing RV32I

The two-stage core against the instruction set: what the operand muxes and EX compute for the
instructions of RV32I, and, over the cycles that an instruction is in ID, that it does what the
instruction set says (`executes_base`).

The run of an instruction is one of the datapath. It starts in the first cycle and ends in the
cycle in which the instruction leaves; until then the inputs are held, as they are in the core,
and a load or store waits for the answer of the LSU (`LsuAnswers`). What is observed of a cycle
is its register write, its access and its redirect of the fetch. `Performs` says that the cycles
up to the one in which the instruction leaves do together what the effect of the instruction is,
and `Idles` that the others do nothing.

The instructions fall into those that leave in their first cycle, the jumps and branches that
may need a second one for the target, and the accesses. Each kind is handled with the lemmas of
`Cycle`.

## Main results

* `fsmOut_first` and `fsmOut_later` — the ID-EX machine in the two kinds of cycles;
* `performs_base` — an instruction does what the instruction set says, in one or two cycles or
  when the LSU answers;
* `executes_base` — so for every instruction of RV32I, all registers and every address.
-/

namespace CocoIbex

open Rv32

/-! ### A cycle of an instruction -/

/-- An instruction of RV32I in ID. -/
def idInstr (i : Base) (compressed : Bool) (pc : BitVec 32) (reg : BitVec 5 → BitVec 32) :
    IdInstr where
  instr := i.encode
  instrIsCompressed := compressed
  pcId := pc
  reg := reg

namespace Datapath

section

variable (cfg : Config) {m : Multiplier} (i : Base) (compressed : Bool) (pc : BitVec 32)
  (reg : BitVec 5 → BitVec 32) (s : Datapath m) {x : DatapathIn}
  (hx : x.dataIndTiming = false)

include hx

/-- The decode of the ALU controls in ID. -/
theorem alu_base : alu cfg (idInstr i compressed pc reg) s x
    = aluOf cfg (s.idFsm == .firstCycle) i := by
  rw [← aluDecode_base, ← encode_base]
  simp only [alu, IdStage.alu, IdStage.instrFirstCycle, idIn, branchTaken, idInstr, hx,
    Bool.not_false, Bool.true_or, Bool.true_and]

omit hx in
/-- The main decode in ID. -/
theorem main_base (v d : Bool) :
    IdStage.main cfg s.idFsm (idIn cfg (idInstr i compressed pc reg) s x v d)
      = mainOf cfg (s.idFsm == .firstCycle) i := by
  rw [← mainDecode_base, ← encode_base]
  simp only [IdStage.main, IdStage.instrFirstCycle, idIn, idInstr, Bool.true_and]

omit hx in
/-- No instruction of RV32I uses the multiplier, or takes two cycles in the ALU. -/
theorem aluOf_plain (first : Bool) : (aluOf cfg first i).multSel = false
    ∧ (aluOf cfg first i).divSel = false ∧ (aluOf cfg first i).aluMulticycle = false
    ∧ (aluOf cfg first i).useRs3 = false := by
  cases i with
  | jal => cases first <;> cases h : cfg.branchTargetALU <;> simp [aluOf, pcPlus, h]
  | jalr => cases first <;> cases h : cfg.branchTargetALU <;> simp [aluOf, pcPlus, h]
  | branch => cases first <;> cases h : cfg.branchTargetALU <;> simp [aluOf, pcPlus, h]
  | _ => exact ⟨rfl, rfl, rfl, rfl⟩

omit hx in
/-- The operators of RV32I need one cycle. -/
theorem imdValWe_aluOf (first : Bool) {y : AluIn}
    (hy : y.operator = (aluOf cfg first i).aluOperator) : Alu.imdValWe cfg.rv32b y = false := by
  rw [Alu.imdValWe, hy]
  cases i with
  | jal => cases first <;> cases h : cfg.branchTargetALU <;> simp [aluOf, pcPlus, h]
  | jalr => cases first <;> cases h : cfg.branchTargetALU <;> simp [aluOf, pcPlus, h]
  | branch cond =>
      cases first <;> cases h : cfg.branchTargetALU <;> cases cond <;>
        simp [aluOf, pcPlus, h, Alu.condOf]
  | opImm o => cases o <;> rfl
  | shiftImm o => cases o <;> rfl
  | op o => rcases o with o | o | _ <;> (try cases o) <;> rfl
  | _ => rfl

/-- What the ALU sees of an instruction: its operator and operands, and nothing of the
multiplier. -/
structure AluSees (y : AluIn) : Prop extends Alu.Plain y where
  operator : y.operator = (aluOf cfg (s.idFsm == .firstCycle) i).aluOperator
  operandA : y.operandA = (operands cfg (idInstr i compressed pc reg) s x).aluOperandA
    (aluOf cfg (s.idFsm == .firstCycle) i)
  operandB : y.operandB = (operands cfg (idInstr i compressed pc reg) s x).aluOperandB cfg
    (aluOf cfg (s.idFsm == .firstCycle) i)
  first : y.instrFirstCycle = (s.idFsm == .firstCycle)

/-- The answer of EX to an instruction. -/
theorem exOut_base : ∃ y, AluSees cfg i compressed pc reg s (x := x) y ∧
    exOut cfg (idInstr i compressed pc reg) s x =
      { aluAdderResultEx := Alu.adderResult y
        resultEx := Alu.result cfg.rv32b y
        branchTarget :=
          if cfg.branchTargetALU then
            (operands cfg (idInstr i compressed pc reg) s x).btAOperand cfg
                (aluOf cfg (s.idFsm == .firstCycle) i)
              + (operands cfg (idInstr i compressed pc reg) s x).btBOperand cfg
                (aluOf cfg (s.idFsm == .firstCycle) i)
          else Alu.adderResult y
        branchDecision := Alu.cmpResult y
        exValid := true } := by
  have halu := alu_base cfg i compressed pc reg s hx
  obtain ⟨hmult, hdiv, -⟩ := aluOf_plain cfg i (s.idFsm == .firstCycle)
  have hsel : ExBlock.multdivSel cfg (exIn cfg (idInstr i compressed pc reg) s x) = false := by
    change (cfg.rv32m && ((alu cfg _ s x).multSel || (alu cfg _ s x).divSel)) = false
    rw [halu, hmult, hdiv, Bool.or_self, Bool.and_false]
  let y := ExBlock.aluIn cfg m s.ex (exIn cfg (idInstr i compressed pc reg) s x)
  have hsees : AluSees cfg i compressed pc reg s (x := x) y :=
    { multdivSel := hsel
      shiftEnable := rfl
      adderEnable := rfl
      operator := congrArg AluOut.aluOperator halu
      operandA := congrArg (OperandIn.aluOperandA · _) halu
      operandB := congrArg (OperandIn.aluOperandB cfg · _) halu
      first := Bool.true_and _ }
  refine ⟨y, hsees, ?_⟩
  have hwe := imdValWe_aluOf cfg i _ hsees.operator
  have hA : (exIn cfg (idInstr i compressed pc reg) s x).btAOperand = _ :=
    congrArg (OperandIn.btAOperand cfg · _) halu
  have hB : (exIn cfg (idInstr i compressed pc reg) s x).btBOperand = _ :=
    congrArg (OperandIn.btBOperand cfg · _) halu
  simp only [exOut, ExBlock.outputs, hsel, Bool.false_eq_true, if_false, hA, hB]
  rw [hwe]
  rfl

/-- What the ID-EX machine sees of an instruction. -/
structure FsmSees (y : IdIn) : Prop where
  executing : IdStage.instrExecuting y = true
  main : IdStage.main cfg s.idFsm y = mainOf cfg (s.idFsm == .firstCycle) i
  multdiv : IdStage.multdivEnDec cfg s.idFsm y = false
  multicycle : (IdStage.alu cfg s.idFsm y).aluMulticycle = false
  exValid : y.exValid = true
  dataIndTiming : y.dataIndTiming = false
  flushId : y.flushId = false
  instrValid : y.instrValid = true
  illegalCsr : y.illegalCsrInsn = false
  lsuValid : y.lsuValid = x.lsuValid
  lsuBusy : y.lsuBusy = x.lsuBusy

/-- The ID-EX machine sees what the instruction is. -/
theorem idSees_base : FsmSees cfg i s (x := x)
    (idSees cfg (idInstr i compressed pc reg) s x) := by
  obtain ⟨y, -, hex⟩ := exOut_base cfg i compressed pc reg s hx
  obtain ⟨hmult, hdiv, hmc, -⟩ := aluOf_plain cfg i (s.idFsm == .firstCycle)
  have halu : IdStage.alu cfg s.idFsm (idSees cfg (idInstr i compressed pc reg) s x)
      = aluOf cfg (s.idFsm == .firstCycle) i := alu_base cfg i compressed pc reg s hx
  have hmain := main_base cfg i compressed pc reg s (x := x)
  have hcsr : ∀ first, (mainOf cfg first i).csrAccess = false := by
    intro first
    cases i <;> rfl
  exact
    { executing := rfl
      main := hmain _ _
      multdiv := by rw [IdStage.multdivEnDec, halu, hmult, hdiv, Bool.or_self, Bool.and_false]
      multicycle := by rw [halu, hmc]
      exValid := by rw [idSees, hex]; rfl
      dataIndTiming := hx
      flushId := rfl
      instrValid := rfl
      illegalCsr := by
        change ((mainDecode cfg _ false i.encode).csrAccess && _) = false
        rw [encode_base, mainDecode_base, hcsr, Bool.false_and]
      lsuValid := rfl
      lsuBusy := rfl }

/-- The outputs of a cycle by the answer of the ID-EX machine. -/
theorem out_base : out cfg (idInstr i compressed pc reg) s x =
    let c := mainOf cfg (s.idFsm == .firstCycle) i
    let f := fsmOut cfg (idInstr i compressed pc reg) s x
    let ex := exOut cfg (idInstr i compressed pc reg) s x
    let branch := if cfg.branchTargetALU then f.branchSetD else s.branchSetQ
    { rfWrite := if f.rfWeRaw then some (regD i.encode, ex.resultEx) else none
      lsuRequest :=
        if s.idFsm == .firstCycle && c.dataReq then
          some { we := c.dataWe
                 type := c.dataType
                 signExt := c.dataSignExtension
                 addr := ex.aluAdderResultEx
                 wdata := reg (rfRaddrB i.encode)
                 rfWaddr := regD i.encode }
        else none
      pcSet :=
        if branch || f.jumpSet then some (fetchAddr ex.branchTarget) else none
      branchSet := branch
      call := c.ecallInsn || c.ebrkInsn
      done := !(x.lsuBusy || (c.dataReq && (!x.lsuValid || s.idFsm == .firstCycle))
        || f.stallMultdiv || f.stallJump || f.stallBranch || f.stallAlu) } := by
  have hy := idSees_base cfg i compressed pc reg s hx
  have hwd : ∀ first, (mainOf cfg first i).rfWdataSel = .ex := by
    intro first
    cases i <;> rfl
  simp only [out, branchSet, IdStage.rfWeId, IdStage.lsuReq, IdStage.instrDone, IdStage.stallId,
    IdStage.stallMem, IdStage.instrFirstCycle, hy.executing, hy.main, hy.flushId, hy.instrValid,
    hy.illegalCsr, hy.lsuValid, hy.lsuBusy, hx, hwd, if_true, Bool.not_false, Bool.and_true,
    Bool.true_and]
  rfl

section

variable {s} (hfirst : s.idFsm = .firstCycle)

include hfirst

/-- The ID-EX machine in the first cycle. -/
theorem fsmOut_first : fsmOut cfg (idInstr i compressed pc reg) s x =
    let c := mainOf cfg true i
    let d := (exOut cfg (idInstr i compressed pc reg) s x).branchDecision
    let idle : IdFsmOut := { idFsmD := .firstCycle, rfWeRaw := c.rfWe }
    if c.dataReq then { idle with idFsmD := .multiCycle }
    else if c.branchInDec then
      { idle with
        idFsmD := if !cfg.branchTargetALU && d then .multiCycle else .firstCycle
        stallBranch := !cfg.branchTargetALU && d
        branchSetD := d }
    else if c.jumpInDec then
      { idle with
        idFsmD := if cfg.branchTargetALU then .firstCycle else .multiCycle
        stallJump := !cfg.branchTargetALU
        jumpSet := c.jumpSet }
    else idle := by
  have hy := idSees_base cfg i compressed pc reg s hx
  have hmain := hy.main
  have hmd := hy.multdiv
  have hmc := hy.multicycle
  rw [hfirst] at hmain hmd hmc
  simp only [fsmOut, IdStage.fsmOut, hfirst, hy.executing, if_true, hmain, hmd, hmc,
    hy.dataIndTiming, Bool.false_or, Bool.or_false, Bool.false_eq_true, if_false]
  rfl

end

section

variable {s} (hmulti : s.idFsm = .multiCycle)

include hmulti

/-- The ID-EX machine in a later cycle. -/
theorem fsmOut_later : fsmOut cfg (idInstr i compressed pc reg) s x =
    let c := mainOf cfg false i
    let idle : IdFsmOut := { idFsmD := .multiCycle, rfWeRaw := c.rfWe }
    if c.dataReq && !x.lsuValid then
      { idle with
        stallBranch := c.branchInDec
        stallJump := c.jumpInDec }
    else { idle with idFsmD := .firstCycle } := by
  have hy := idSees_base cfg i compressed pc reg s hx
  have hmain := hy.main
  have hmd := hy.multdiv
  rw [hmulti] at hmain hmd
  change IdStage.main cfg .multiCycle _ = mainOf cfg false i at hmain
  simp only [fsmOut, IdStage.fsmOut, IdStage.multicycleDone, hmulti, hy.executing, if_true, hmain,
    hmd, hy.lsuValid, hy.exValid, Bool.false_eq_true, if_false]
  cases (mainOf cfg false i).dataReq <;> cases x.lsuValid <;> rfl

end

/-- The inputs of the operand muxes. -/
theorem operands_base : operands cfg (idInstr i compressed pc reg) s x =
    { instr := baseWord i
      instrIsCompressed := compressed
      pcId := pc
      rfRdataA := reg (regS1 (baseWord i))
      rfRdataB := reg (regS2 (baseWord i))
      lsuAddrIncrReq := x.lsuAddrIncrReq
      lsuAddrLast := x.lsuAddrLast } := by
  have hrs3 : (aluDecode cfg (s.idFsm == .firstCycle) true (baseWord i)).useRs3 = false := by
    rw [aluDecode_base]
    exact (aluOf_plain cfg i _).2.2.2
  simp only [operands, idInstr, encode_base, rfRaddrA, branchTaken, hx, Bool.not_false,
    Bool.true_or, hrs3, Bool.false_eq_true, if_false, rfRaddrB]

end

end Datapath

/-! ### What EX computes -/

/-- The fetch address of an even target is the target. -/
theorem fetchAddr_even {t : BitVec 32} (h : t.getLsbD 0 = false) : fetchAddr t = t := by
  refine BitVec.eq_of_getLsbD_eq fun i hi => ?_
  rw [fetchAddr, BitVec.getLsbD_append, BitVec.getLsbD_extractLsb]
  obtain rfl | hi' : i = 0 ∨ 1 ≤ i := by omega
  · simpa using h.symm
  · simp [show ¬ i < 1 by omega, show i - 1 < 31 by omega, show 1 + (i - 1) = i by omega]

/-- The sum of even words is even. -/
theorem even_add {a b : BitVec 32} (ha : a.getLsbD 0 = false) (hb : b.getLsbD 0 = false) :
    (a + b).getLsbD 0 = false := by
  rw [BitVec.getLsbD_eq_getElem (by omega)] at *
  simp_all [BitVec.getElem_add]

/-- An even offset. -/
theorem even_signExtend {n : ℕ} (off : BitVec n) :
    ((off ++ 0#1).signExtend 32).getLsbD 0 = false := by
  rw [BitVec.getLsbD_signExtend, if_pos (Nat.succ_pos n), BitVec.getLsbD_append]
  simp

/-- The fetch address without its lowest bit. -/
theorem fetchAddr_eq_and (t : BitVec 32) : fetchAddr t = t &&& ~~~1#32 := by
  refine BitVec.eq_of_getLsbD_eq fun i hi => ?_
  rw [fetchAddr, BitVec.getLsbD_append, BitVec.getLsbD_extractLsb, BitVec.getLsbD_and,
    BitVec.getLsbD_not]
  obtain rfl | hi' : i = 0 ∨ 1 ≤ i := by omega
  · simp
  · simp [show ¬ i < 1 by omega, show i - 1 < 31 by omega, show 1 + (i - 1) = i by omega, hi,
      show i ≠ 0 by omega]

/-- The length of an instruction in bytes. -/
def bytes (compressed : Bool) : BitVec 32 := if compressed then 2#32 else 4#32

namespace Datapath

section

variable (cfg : Config) {m : Multiplier} (i : Base) (compressed : Bool) (pc : BitVec 32)
  (reg : BitVec 5 → BitVec 32) (s : Datapath m) {x : DatapathIn}
  (hx : x.dataIndTiming = false) (hincr : x.lsuAddrIncrReq = false)

include hx hincr

/-- The operands of the ALU without a request of the LSU. -/
theorem aluSees_operands {y : AluIn} (hy : AluSees cfg i compressed pc reg s (x := x) y) :
    let a := aluOf cfg (s.idFsm == .firstCycle) i
    let o : OperandIn :=
      { instr := baseWord i
        instrIsCompressed := compressed
        pcId := pc
        rfRdataA := reg (regS1 (baseWord i))
        rfRdataB := reg (regS2 (baseWord i))
        lsuAddrIncrReq := false
        lsuAddrLast := x.lsuAddrLast }
    y.operandA = o.aluOperandA a ∧ y.operandB = o.aluOperandB cfg a := by
  rw [← hincr, ← operands_base cfg i compressed pc reg s hx]
  exact ⟨hy.operandA, hy.operandB⟩

/-- What an instruction that writes a register in ID writes. -/
theorem write_base (hwe : (mainOf cfg (s.idFsm == .firstCycle) i).rfWe = true)
    (hshift : s.idFsm = .firstCycle ∨ (mainOf cfg true i).jumpInDec = true) :
    (i.effect pc (bytes compressed) reg).bind Effect.write
      = some (regD i.encode, (exOut cfg (idInstr i compressed pc reg) s x).resultEx) := by
  obtain ⟨y, hy, hex⟩ := exOut_base cfg i compressed pc reg s hx
  obtain ⟨hA, hB⟩ := aluSees_operands cfg i compressed pc reg s hx hincr hy
  have hop := hy.operator
  have hadd : y.operator = .add → Alu.result cfg.rv32b y = y.operandA + y.operandB := fun ho =>
    Alu.result_immOp cfg.rv32b hy.toPlain (o := .add) ho
  rw [hex, encode_base]
  cases i with
  | lui imm rd =>
      rw [hadd hop, hA, hB]
      simp [aluOf, OperandIn.aluOperandA, OperandIn.aluOperandB, OperandIn.aluOpAMuxSel,
        OperandIn.aluOpBMuxSel, OperandIn.immBMuxSel, OperandIn.immA, OperandIn.immB, baseWord,
        Base.effect, immUType_encU]
  | auipc imm rd =>
      rw [hadd hop, hA, hB]
      simp [aluOf, pcPlus, OperandIn.aluOperandA, OperandIn.aluOperandB, OperandIn.aluOpAMuxSel,
        OperandIn.aluOpBMuxSel, OperandIn.immBMuxSel, OperandIn.immB, baseWord,
        Base.effect, immUType_encU]
  | jal off rd =>
      have ho : aluOf cfg (s.idFsm == .firstCycle) (.jal off rd)
          = { pcPlus .incrPc with
              btBMuxSel := if cfg.branchTargetALU then .j else .i } := by
        cases hf : s.idFsm == .firstCycle <;> cases hc : cfg.branchTargetALU <;>
          simp_all [aluOf, mainOf, pcPlus]
      rw [ho] at hop hA hB
      rw [hadd hop, hA, hB]
      simp [pcPlus, OperandIn.aluOperandA, OperandIn.aluOperandB, OperandIn.aluOpAMuxSel,
        OperandIn.aluOpBMuxSel, OperandIn.immBMuxSel, OperandIn.immB, OperandIn.instrBytes,
        baseWord, Base.effect, bytes]
  | jalr imm rs1 rd =>
      have ho : aluOf cfg (s.idFsm == .firstCycle) (.jalr imm rs1 rd)
          = { pcPlus .incrPc with
              btAMuxSel := if cfg.branchTargetALU then .regA else .currPc } := by
        cases hf : s.idFsm == .firstCycle <;> cases hc : cfg.branchTargetALU <;>
          simp_all [aluOf, mainOf, pcPlus]
      rw [ho] at hop hA hB
      rw [hadd hop, hA, hB]
      simp [pcPlus, OperandIn.aluOperandA, OperandIn.aluOperandB, OperandIn.aluOpAMuxSel,
        OperandIn.aluOpBMuxSel, OperandIn.immBMuxSel, OperandIn.immB, OperandIn.instrBytes,
        baseWord, Base.effect, bytes]
  | branch cond off rs2 rs1 => cases hwe
  | load kind imm rs1 rd => cases hwe
  | store size imm rs2 rs1 => cases hwe
  | opImm o imm rs1 rd =>
      rw [Alu.result_immOp cfg.rv32b hy.toPlain hop, hA, hB]
      simp [aluOf, OperandIn.aluOperandA, OperandIn.aluOperandB, OperandIn.aluOpAMuxSel,
        OperandIn.aluOpBMuxSel, OperandIn.immBMuxSel, OperandIn.immB, baseWord,
        Base.effect, immIType_encI]
  | shiftImm o shamt rs1 rd =>
      have hfirst : y.instrFirstCycle = true := by
        rw [hy.first, hshift.resolve_right (by simp [mainOf])]
        rfl
      rw [Alu.result_shift cfg.rv32b hy.toPlain hfirst hop, hA, hB]
      simp [aluOf, OperandIn.aluOperandA, OperandIn.aluOperandB, OperandIn.aluOpAMuxSel,
        OperandIn.aluOpBMuxSel, OperandIn.immBMuxSel, OperandIn.immB, baseWord,
        Base.effect, immIType_encR]
  | op o rs2 rs1 rd =>
      have hfirst : y.instrFirstCycle = true := by
        rw [hy.first, hshift.resolve_right (by simp [mainOf])]
        rfl
      rw [Alu.result_regOp cfg.rv32b hy.toPlain hfirst hop, hA, hB]
      simp [aluOf, OperandIn.aluOperandA, OperandIn.aluOperandB, OperandIn.aluOpAMuxSel,
        OperandIn.aluOpBMuxSel, baseWord, Base.effect]
  | fence fields rs1 rd => cases hwe
  | ecall => cases hwe
  | ebreak => cases hwe

omit hx hincr

section

variable (cond : Cond) (off : BitVec 12) (rs2 rs1 : BitVec 5)

include hx hincr

/-- The decision of a branch in its first cycle. -/
theorem decision_base (hfirst : s.idFsm = .firstCycle) :
    (exOut cfg (idInstr (.branch cond off rs2 rs1) compressed pc reg) s x).branchDecision
      = cond.holds (reg rs1) (reg rs2) := by
  obtain ⟨y, hy, hex⟩ := exOut_base cfg (.branch cond off rs2 rs1) compressed pc reg s hx
  obtain ⟨hA, hB⟩ := aluSees_operands cfg (.branch cond off rs2 rs1) compressed pc reg s hx hincr hy
  have hop := hy.operator
  rw [hfirst] at hop hA hB
  have ho : (aluOf cfg true (.branch cond off rs2 rs1)).aluOperator = Alu.condOf cond := by
    cases h : cfg.branchTargetALU <;> simp [aluOf, h]
  rw [hex]
  simp only [Alu.cmpResult_cond hy.toPlain (hop.trans ho), hA, hB]
  cases h : cfg.branchTargetALU <;>
    simp [aluOf, h, OperandIn.aluOperandA, OperandIn.aluOperandB, OperandIn.aluOpAMuxSel,
      OperandIn.aluOpBMuxSel, baseWord]

/-- The target of a branch, in the cycle in which it is set. -/
theorem branchTarget_base
    (hset : s.idFsm = if cfg.branchTargetALU then .firstCycle else .multiCycle) :
    (exOut cfg (idInstr (.branch cond off rs2 rs1) compressed pc reg) s x).branchTarget
      = pc + (off ++ 0#1).signExtend 32 := by
  obtain ⟨y, hy, hex⟩ := exOut_base cfg (.branch cond off rs2 rs1) compressed pc reg s hx
  obtain ⟨hA, hB⟩ := aluSees_operands cfg (.branch cond off rs2 rs1) compressed pc reg s hx hincr hy
  have hop := hy.operator
  rw [hex, operands_base _ _ _ _ _ _ hx]
  cases h : cfg.branchTargetALU with
  | true =>
      simp only [h, if_true] at hset
      simp [hset, aluOf, h, OperandIn.btAOperand, OperandIn.btBOperand, baseWord, immBType_encR]
  | false =>
      simp only [h, Bool.false_eq_true, if_false] at hset
      rw [hset] at hop hA hB
      have ho : (aluOf cfg false (.branch cond off rs2 rs1)).aluOperator = .add := by
        simp [aluOf, h, pcPlus]
      simp only [Bool.false_eq_true, if_false,
        Alu.adderResult_add hy.toPlain (congrArg Alu.adderOpBNegate (hop.trans ho)), hA, hB]
      simp [aluOf, h, pcPlus, OperandIn.aluOperandA, OperandIn.aluOperandB,
        OperandIn.aluOpAMuxSel, OperandIn.aluOpBMuxSel, OperandIn.immBMuxSel, OperandIn.immB,
        baseWord, immBType_encR]

end

section

include hx hincr

/-- The target of `jal` in its first cycle. -/
theorem jalTarget_base {off : BitVec 20} {rd : BitVec 5} (hfirst : s.idFsm = .firstCycle) :
    (exOut cfg (idInstr (.jal off rd) compressed pc reg) s x).branchTarget
      = pc + (off ++ 0#1).signExtend 32 := by
  obtain ⟨y, hy, hex⟩ := exOut_base cfg (.jal off rd) compressed pc reg s hx
  obtain ⟨hA, hB⟩ := aluSees_operands cfg (.jal off rd) compressed pc reg s hx hincr hy
  have hop := hy.operator
  rw [hfirst] at hop hA hB
  rw [hex, operands_base _ _ _ _ _ _ hx, hfirst]
  cases h : cfg.branchTargetALU with
  | true => simp [aluOf, h, OperandIn.btAOperand, OperandIn.btBOperand, baseWord, immJType_encU]
  | false =>
      have ho : (aluOf cfg true (.jal off rd)).aluOperator = .add := by simp [aluOf, h, pcPlus]
      simp only [Bool.false_eq_true, if_false,
        Alu.adderResult_add hy.toPlain (congrArg Alu.adderOpBNegate (hop.trans ho)), hA, hB]
      simp [aluOf, h, pcPlus, OperandIn.aluOperandA, OperandIn.aluOperandB,
        OperandIn.aluOpAMuxSel, OperandIn.aluOpBMuxSel, OperandIn.immBMuxSel, OperandIn.immB,
        baseWord, immJType_encU]

/-- The target of `jalr` in its first cycle. -/
theorem jalrTarget_base {imm : BitVec 12} {rs1 rd : BitVec 5} (hfirst : s.idFsm = .firstCycle) :
    (exOut cfg (idInstr (.jalr imm rs1 rd) compressed pc reg) s x).branchTarget
      = reg rs1 + imm.signExtend 32 := by
  obtain ⟨y, hy, hex⟩ := exOut_base cfg (.jalr imm rs1 rd) compressed pc reg s hx
  obtain ⟨hA, hB⟩ := aluSees_operands cfg (.jalr imm rs1 rd) compressed pc reg s hx hincr hy
  have hop := hy.operator
  rw [hfirst] at hop hA hB
  rw [hex, operands_base _ _ _ _ _ _ hx, hfirst]
  cases h : cfg.branchTargetALU with
  | true => simp [aluOf, h, OperandIn.btAOperand, OperandIn.btBOperand, baseWord, immIType_encI]
  | false =>
      have ho : (aluOf cfg true (.jalr imm rs1 rd)).aluOperator = .add := by simp [aluOf, h]
      simp only [Bool.false_eq_true, if_false,
        Alu.adderResult_add hy.toPlain (congrArg Alu.adderOpBNegate (hop.trans ho)), hA, hB]
      simp [aluOf, h, OperandIn.aluOperandA, OperandIn.aluOperandB,
        OperandIn.aluOpAMuxSel, OperandIn.aluOpBMuxSel, OperandIn.immBMuxSel, OperandIn.immB,
        baseWord, immIType_encI]

/-- The address of a load. -/
theorem loadAddr_base {kind : Rv32.Load} {imm : BitVec 12} {rs1 rd : BitVec 5} :
    (exOut cfg (idInstr (.load kind imm rs1 rd) compressed pc reg) s x).aluAdderResultEx
      = reg rs1 + imm.signExtend 32 := by
  obtain ⟨y, hy, hex⟩ := exOut_base cfg (.load kind imm rs1 rd) compressed pc reg s hx
  obtain ⟨hA, hB⟩ := aluSees_operands cfg (.load kind imm rs1 rd) compressed pc reg s hx hincr hy
  rw [hex]
  simp only [Alu.adderResult_add hy.toPlain (congrArg Alu.adderOpBNegate hy.operator), hA, hB]
  simp [aluOf, OperandIn.aluOperandA, OperandIn.aluOperandB, OperandIn.aluOpAMuxSel,
    OperandIn.aluOpBMuxSel, OperandIn.immBMuxSel, OperandIn.immB, baseWord, immIType_encI]

/-- The address of a store. -/
theorem storeAddr_base {size : Size} {imm : BitVec 12} {rs2 rs1 : BitVec 5} :
    (exOut cfg (idInstr (.store size imm rs2 rs1) compressed pc reg) s x).aluAdderResultEx
      = reg rs1 + imm.signExtend 32 := by
  obtain ⟨y, hy, hex⟩ := exOut_base cfg (.store size imm rs2 rs1) compressed pc reg s hx
  obtain ⟨hA, hB⟩ := aluSees_operands cfg (.store size imm rs2 rs1) compressed pc reg s hx hincr hy
  rw [hex]
  simp only [Alu.adderResult_add hy.toPlain (congrArg Alu.adderOpBNegate hy.operator), hA, hB]
  simp [aluOf, OperandIn.aluOperandA, OperandIn.aluOperandB, OperandIn.aluOpAMuxSel,
    OperandIn.aluOpBMuxSel, OperandIn.immBMuxSel, OperandIn.immB, baseWord, immSType_encR]

end

end

end Datapath

/-! ### An instruction and its effect -/

/-- The size that a `data_type` stands for. -/
def sizeOfType (type : BitVec 2) : Size :=
  match type with
  | 0b00#2 => .word
  | 0b01#2 => .half
  | _ => .byte

/-- The width of a store from its code. -/
@[simp] theorem sizeOfType_dataTypeOf (size : Size) : sizeOfType (dataTypeOf size) = size := by
  cases size <;> rfl

/-- The access for which the LSU is asked. -/
def LsuRequest.access (r : LsuRequest) : Rv32.Access where
  addr := r.addr
  size := sizeOfType r.type
  store := if r.we then some r.wdata else none
  load := if r.we then none else some (r.rfWaddr, r.signExt)

/-- The outputs of an instruction over its cycles do what the instruction set says: ID writes
the register that the instruction writes and no other, the LSU is asked once for its access,
and the fetch goes on where the hart goes on, redirected at most once. A call of the environment
or debugger does nothing but trap. -/
structure Performs (outs : List DatapathOut) (pc len : BitVec 32) (e : Option Effect) : Prop where
  writes : outs.filterMap DatapathOut.rfWrite = (e.bind Effect.write).toList
  accesses : (outs.filterMap DatapathOut.lsuRequest).map LsuRequest.access
    = (e.bind Effect.access).toList
  taken : outs.any DatapathOut.branchSet = (e.map Effect.taken).getD false
  nextPc : outs.filterMap DatapathOut.pcSet = []
      ∧ (∀ f, e = some f → f.nextPc = pc + len)
    ∨ ∃ f, e = some f ∧ outs.filterMap DatapathOut.pcSet = [f.nextPc]
  call : outs.any DatapathOut.call = e.isNone

/-- A cycle in which an instruction does nothing. -/
def Idles (o : DatapathOut) : Prop :=
  o.rfWrite = none ∧ o.lsuRequest = none ∧ o.pcSet = none ∧ o.branchSet = false ∧ o.call = false

/-- What is done in the first cycle is done, if nothing is done in the later ones. -/
theorem Performs.of_first {o : DatapathOut} {later : List DatapathOut} {pc len : BitVec 32}
    {e : Option Effect} (hl : ∀ o' ∈ later, Idles o') (h : Performs [o] pc len e) :
    Performs (o :: later) pc len e := by
  have hnil : ∀ {β : Type} (f : DatapathOut → Option β), (∀ o', Idles o' → f o' = none) →
      (o :: later).filterMap f = [o].filterMap f := by
    intro β f hf
    have hz : later.filterMap f = [] :=
      List.filterMap_eq_nil_iff.mpr fun o' ho' => hf o' (hl o' ho')
    rw [List.filterMap_cons, List.filterMap_cons, hz, List.filterMap_nil]
  have hany : ∀ f : DatapathOut → Bool, (∀ o', Idles o' → f o' = false) →
      (o :: later).any f = [o].any f := by
    intro f hf
    have hz : later.any f = false :=
      List.any_eq_false.mpr fun o' ho' => by simp [hf o' (hl o' ho')]
    rw [List.any_cons, List.any_cons, hz, List.any_nil]
  exact
    { writes := (hnil _ fun _ ho => ho.1).trans h.writes
      accesses := (congrArg _ (hnil _ fun _ ho => ho.2.1)).trans h.accesses
      taken := (hany _ fun _ ho => ho.2.2.2.1).trans h.taken
      nextPc := by
        rw [hnil _ fun _ ho => ho.2.2.1]
        exact h.nextPc
      call := (hany _ fun _ ho => ho.2.2.2.2).trans h.call }

/-- The instruction loads or stores. -/
def accessesMemory : Base → Bool
  | .load _ _ _ _ | .store _ _ _ _ => true
  | _ => false

/-- What the LSU does while the instruction is in ID: it rests until the instruction asks it for
something, and it is not busy when it answers. -/
structure LsuAnswers (i : Base) (ins : ℕ → DatapathIn) : Prop where
  rest : ∀ k, k = 0 ∨ accessesMemory i = false →
    (ins k).lsuBusy = false ∧ (ins k).lsuAddrIncrReq = false
  notBusy : ∀ k, (ins k).lsuValid = true → (ins k).lsuBusy = false
  answer : accessesMemory i = true → ∃ k, (ins (k + 1)).lsuValid = true

namespace Datapath

variable (cfg : Config) {m : Multiplier} (h : IdInstr) (s : Datapath m) (ins : ℕ → DatapathIn)

/-- The registers after `k` cycles with the instruction in ID. -/
def after : ℕ → Datapath m
  | 0 => s
  | k + 1 => next cfg h (after k) (ins k)

/-- The outputs of the first `n` cycles. -/
def outs (n : ℕ) : List DatapathOut :=
  (List.range n).map fun k => out cfg h (after cfg h s ins k) (ins k)

/-- The instruction leaves ID in cycle `n` and not before. -/
def LeavesAt (n : ℕ) : Prop :=
  (out cfg h (after cfg h s ins n) (ins n)).done = true
    ∧ ∀ k < n, (out cfg h (after cfg h s ins k) (ins k)).done = false

/-- The decode of a jump. -/
structure IsJump (i : Base) : Prop where
  jumpInDec : ∀ first, (mainOf cfg first i).jumpInDec = true
  jumpSet : ∀ first, (mainOf cfg first i).jumpSet = first
  rfWe : ∀ first, (mainOf cfg first i).rfWe = if first then cfg.branchTargetALU else true
  dataReq : ∀ first, (mainOf cfg first i).dataReq = false
  branchInDec : ∀ first, (mainOf cfg first i).branchInDec = false
  call : ∀ first, (mainOf cfg first i).ecallInsn = false ∧ (mainOf cfg first i).ebrkInsn = false

/-- The decode of a load or store. -/
structure IsAccess (i : Base) : Prop where
  dataReq : ∀ first, (mainOf cfg first i).dataReq = true
  rfWe : ∀ first, (mainOf cfg first i).rfWe = false
  call : ∀ first, (mainOf cfg first i).ecallInsn = false ∧ (mainOf cfg first i).ebrkInsn = false
  memory : accessesMemory i = true

/-- ID starts with an instruction. -/
structure Starts : Prop where
  idFsm : s.idFsm = .firstCycle
  branchSetQ : s.branchSetQ = false

section

variable (i : Base) (compressed : Bool) (pc : BitVec 32) (reg : BitVec 5 → BitVec 32)
  {s ins} (hs : Starts s) (hdit : ∀ k, (ins k).dataIndTiming = false) (hlsu : LsuAnswers i ins)

include hs hdit hlsu

/-- An instruction that does not load, store, jump or branch takes one cycle. -/
theorem performs_plain (hreq : (mainOf cfg true i).dataReq = false)
    (hj : (mainOf cfg true i).jumpInDec = false)
    (hb : (mainOf cfg true i).branchInDec = false) :
    LeavesAt cfg (idInstr i compressed pc reg) s ins 0
      ∧ Performs (outs cfg (idInstr i compressed pc reg) s ins 1) pc (bytes compressed)
        (i.effect pc (bytes compressed) reg) := by
  have hmem : accessesMemory i = false := by cases i <;> first | rfl | cases hreq
  obtain ⟨hbusy, hincr⟩ := hlsu.rest 0 (Or.inl rfl)
  have hf := fsmOut_first cfg i compressed pc reg (hdit 0) hs.idFsm
  simp only [hreq, hj, hb, Bool.false_eq_true, if_false] at hf
  have ho : out cfg (idInstr i compressed pc reg) s (ins 0) =
      { rfWrite :=
          if (mainOf cfg true i).rfWe then
            some (regD i.encode, (exOut cfg (idInstr i compressed pc reg) s (ins 0)).resultEx)
          else none
        lsuRequest := none
        pcSet := none
        branchSet := false
        call := (mainOf cfg true i).ecallInsn || (mainOf cfg true i).ebrkInsn
        done := true } := by
    rw [out_base cfg i compressed pc reg s (hdit 0), hf]
    simp [hs.idFsm, hs.branchSetQ, hreq, hbusy]
  have hw := write_base cfg i compressed pc reg s (hdit 0) hincr
  rw [hs.idFsm] at hw
  refine ⟨⟨congrArg DatapathOut.done ho, fun k hk => absurd hk (Nat.not_lt_zero k)⟩, ?_⟩
  have houts : outs cfg (idInstr i compressed pc reg) s ins 1 = [_] := congrArg (fun o => [o]) ho
  rw [houts]
  cases i with
  | jal | jalr => cases hj
  | branch => cases hb
  | load | store => cases hreq
  | ecall | ebreak => exact ⟨rfl, rfl, rfl, Or.inl ⟨rfl, fun f hf => nomatch hf⟩, rfl⟩
  | fence =>
      exact ⟨rfl, rfl, rfl, Or.inl ⟨rfl, fun f hf => by cases hf; rfl⟩, rfl⟩
  | _ =>
      refine ⟨?_, rfl, rfl, Or.inl ⟨rfl, fun f hf => by cases hf; rfl⟩, rfl⟩
      rw [hw rfl (Or.inl rfl)]
      rfl

/-- A jump takes one cycle with the branch target ALU, and two without. -/
theorem performs_jump (hj : IsJump cfg i) {e : Effect}
    (he : i.effect pc (bytes compressed) reg = some e) (hacc : e.access = none)
    (htak : e.taken = false)
    (hnext : fetchAddr (exOut cfg (idInstr i compressed pc reg) s (ins 0)).branchTarget
      = e.nextPc) :
    ∃ n ≤ 1, LeavesAt cfg (idInstr i compressed pc reg) s ins n
      ∧ Performs (outs cfg (idInstr i compressed pc reg) s ins (n + 1)) pc (bytes compressed)
        (i.effect pc (bytes compressed) reg) := by
  have hmem : accessesMemory i = false := by
    cases i <;> first | rfl | cases (hj.jumpInDec true)
  obtain ⟨hbusy, hincr⟩ := hlsu.rest 0 (Or.inl rfl)
  have hf := fsmOut_first cfg i compressed pc reg (hdit 0) hs.idFsm
  simp only [hj.dataReq, hj.branchInDec, hj.jumpInDec, hj.rfWe, hj.jumpSet, if_true,
    Bool.false_eq_true, if_false] at hf
  have ho : out cfg (idInstr i compressed pc reg) s (ins 0) =
      { rfWrite :=
          if cfg.branchTargetALU then
            some (regD i.encode, (exOut cfg (idInstr i compressed pc reg) s (ins 0)).resultEx)
          else none
        lsuRequest := none
        pcSet := some e.nextPc
        branchSet := false
        call := false
        done := cfg.branchTargetALU } := by
    rw [out_base cfg i compressed pc reg s (hdit 0), hf]
    simp [hs.idFsm, hs.branchSetQ, hj.dataReq, hj.call, hbusy, hnext]
  rw [he]
  cases hbt : cfg.branchTargetALU with
  | true =>
      rw [hbt] at ho
      have hw := write_base cfg i compressed pc reg s (hdit 0) hincr
        (by rw [hs.idFsm]; exact (hj.rfWe true).trans hbt) (Or.inl hs.idFsm)
      rw [he, Option.bind_some] at hw
      refine ⟨0, Nat.zero_le 1, ⟨congrArg DatapathOut.done ho,
        fun k hk => absurd hk (Nat.not_lt_zero k)⟩, ?_⟩
      have houts : outs cfg (idInstr i compressed pc reg) s ins 1 = [_] :=
        congrArg (fun o => [o]) ho
      rw [houts]
      refine ⟨?_, ?_, htak.symm, Or.inr ⟨e, rfl, rfl⟩, rfl⟩
      · rw [Option.bind_some, hw]
        rfl
      · rw [Option.bind_some, hacc]
        rfl
  | false =>
      rw [hbt] at ho hf
      have hmulti : (after cfg (idInstr i compressed pc reg) s ins 1).idFsm = .multiCycle :=
        congrArg IdFsmOut.idFsmD hf
      have hq : (after cfg (idInstr i compressed pc reg) s ins 1).branchSetQ = false :=
        congrArg IdFsmOut.branchSetD hf
      obtain ⟨hbusy', hincr'⟩ := hlsu.rest 1 (Or.inr hmem)
      have hf' := fsmOut_later cfg i compressed pc reg (hdit 1) hmulti
      simp only [hj.dataReq, hj.rfWe, Bool.false_and, Bool.false_eq_true, if_false] at hf'
      have ho' : out cfg (idInstr i compressed pc reg)
            (after cfg (idInstr i compressed pc reg) s ins 1) (ins 1) =
          { rfWrite := some (regD i.encode,
              (exOut cfg (idInstr i compressed pc reg)
                (after cfg (idInstr i compressed pc reg) s ins 1) (ins 1)).resultEx)
            lsuRequest := none
            pcSet := none
            branchSet := false
            call := false
            done := true } := by
        rw [out_base cfg i compressed pc reg _ (hdit 1), hf']
        simp [hmulti, hq, hj.dataReq, hj.call, hbusy']
      have hw := write_base cfg i compressed pc reg _ (hdit 1) hincr'
        (by rw [hmulti]; exact hj.rfWe false) (Or.inr (hj.jumpInDec true))
      rw [he, Option.bind_some] at hw
      refine ⟨1, le_rfl, ⟨congrArg DatapathOut.done ho', fun k hk => ?_⟩, ?_⟩
      · obtain rfl : k = 0 := by omega
        exact congrArg DatapathOut.done ho
      have houts : outs cfg (idInstr i compressed pc reg) s ins 2 = [_, _] :=
        congrArg₂ (fun o o' => [o, o']) ho ho'
      rw [houts]
      refine ⟨?_, ?_, htak.symm, Or.inr ⟨e, rfl, rfl⟩, rfl⟩
      · rw [Option.bind_some, hw]
        rfl
      · rw [Option.bind_some, hacc]
        rfl

end

section

variable (cond : Cond) (off : BitVec 12) (rs2 rs1 : BitVec 5) (compressed : Bool) (pc : BitVec 32)
  (reg : BitVec 5 → BitVec 32) {s ins} (hs : Starts s)
  (hdit : ∀ k, (ins k).dataIndTiming = false)
  (hlsu : LsuAnswers (.branch cond off rs2 rs1) ins) (hpc : pc.getLsbD 0 = false)

include hs hdit hlsu hpc

/-- A branch takes one cycle, and a second one if it is taken without the branch target ALU. -/
theorem performs_branch :
    ∃ n ≤ 1, LeavesAt cfg (idInstr (.branch cond off rs2 rs1) compressed pc reg) s ins n
      ∧ Performs (outs cfg (idInstr (.branch cond off rs2 rs1) compressed pc reg) s ins (n + 1))
        pc (bytes compressed)
          ((Base.branch cond off rs2 rs1).effect pc (bytes compressed) reg) := by
  obtain ⟨hbusy, hincr⟩ := hlsu.rest 0 (Or.inl rfl)
  have hd := decision_base cfg compressed pc reg s (hdit 0) hincr cond off rs2 rs1 hs.idFsm
  have ht : fetchAddr (pc + (off ++ 0#1).signExtend 32) = pc + (off ++ 0#1).signExtend 32 :=
    fetchAddr_even (even_add hpc (even_signExtend off))
  have hf := fsmOut_first cfg (.branch cond off rs2 rs1) compressed pc reg (hdit 0) hs.idFsm
  simp only [mainOf, Bool.false_eq_true, if_false, if_true, hd] at hf
  have ho := out_base cfg (.branch cond off rs2 rs1) compressed pc reg s (hdit 0)
  rw [hf] at ho
  simp only [mainOf, hs.branchSetQ, hbusy, Bool.and_false, Bool.false_eq_true, if_false,
    Bool.or_false, Bool.false_or, Bool.false_and] at ho
  cases hbt : cfg.branchTargetALU with
  | true =>
      have htgt := branchTarget_base cfg compressed pc reg s (hdit 0) hincr cond off rs2 rs1
        (by rw [hbt]; exact hs.idFsm)
      rw [htgt, ht, hbt] at ho
      simp only [Bool.not_true, Bool.false_and, Bool.not_false, if_true] at ho
      refine ⟨0, Nat.zero_le 1, ⟨congrArg DatapathOut.done ho,
        fun k hk => absurd hk (Nat.not_lt_zero k)⟩, ?_⟩
      have houts : outs cfg (idInstr (.branch cond off rs2 rs1) compressed pc reg) s ins 1 = [_] :=
        congrArg (fun o => [o]) ho
      rw [houts]
      simp only [Base.effect]
      cases cond.holds (reg rs1) (reg rs2) with
      | true => exact ⟨rfl, rfl, rfl, Or.inr ⟨_, rfl, rfl⟩, rfl⟩
      | false => exact ⟨rfl, rfl, rfl, Or.inl ⟨rfl, fun f hf => by cases hf; rfl⟩, rfl⟩
  | false =>
      rw [hbt] at ho hf
      simp only [Bool.not_false, Bool.true_and, Bool.false_eq_true, if_false] at ho hf
      cases htaken : cond.holds (reg rs1) (reg rs2) with
      | false =>
          rw [htaken] at ho
          refine ⟨0, Nat.zero_le 1, ⟨congrArg DatapathOut.done ho,
            fun k hk => absurd hk (Nat.not_lt_zero k)⟩, ?_⟩
          have houts : outs cfg (idInstr (.branch cond off rs2 rs1) compressed pc reg) s ins 1
              = [_] := congrArg (fun o => [o]) ho
          rw [houts]
          simp only [Base.effect, htaken]
          exact ⟨rfl, rfl, rfl, Or.inl ⟨rfl, fun f hf => by cases hf; rfl⟩, rfl⟩
      | true =>
          rw [htaken] at ho hf
          have hmulti : (after cfg (idInstr (.branch cond off rs2 rs1) compressed pc reg) s ins
              1).idFsm = .multiCycle := congrArg IdFsmOut.idFsmD hf
          have hq : (after cfg (idInstr (.branch cond off rs2 rs1) compressed pc reg) s ins
              1).branchSetQ = true := congrArg IdFsmOut.branchSetD hf
          obtain ⟨hbusy', hincr'⟩ := hlsu.rest 1 (Or.inr rfl)
          have htgt := branchTarget_base cfg compressed pc reg
            (after cfg (idInstr (.branch cond off rs2 rs1) compressed pc reg) s ins 1) (hdit 1)
            hincr' cond off rs2 rs1 (by rw [hbt]; exact hmulti)
          have hf' := fsmOut_later cfg (.branch cond off rs2 rs1) compressed pc reg (hdit 1)
            hmulti
          have ho' : out cfg (idInstr (.branch cond off rs2 rs1) compressed pc reg)
                (after cfg (idInstr (.branch cond off rs2 rs1) compressed pc reg) s ins 1) (ins 1) =
              { rfWrite := none
                lsuRequest := none
                pcSet := some (pc + (off ++ 0#1).signExtend 32)
                branchSet := true
                call := false
                done := true } := by
            rw [out_base cfg _ compressed pc reg _ (hdit 1), hf']
            simp [mainOf, hmulti, hq, hbt, hbusy', htgt, ht]
          refine ⟨1, le_rfl, ⟨congrArg DatapathOut.done ho', fun k hk => ?_⟩, ?_⟩
          · obtain rfl : k = 0 := by omega
            exact congrArg DatapathOut.done ho
          have houts : outs cfg (idInstr (.branch cond off rs2 rs1) compressed pc reg) s ins 2
              = [_, _] := congrArg₂ (fun o o' => [o, o']) ho ho'
          rw [houts]
          simp only [Base.effect, htaken]
          exact ⟨rfl, rfl, rfl, Or.inr ⟨_, rfl, rfl⟩, rfl⟩

end

section

variable (i : Base) (compressed : Bool) (pc : BitVec 32) (reg : BitVec 5 → BitVec 32)
  {s ins} (hs : Starts s) (hdit : ∀ k, (ins k).dataIndTiming = false) (hm : IsAccess cfg i)

include hs hdit hm

/-- A load or store in its first cycle. -/
theorem access_first : out cfg (idInstr i compressed pc reg) s (ins 0) =
    { rfWrite := none
      lsuRequest :=
        some { we := (mainOf cfg true i).dataWe
               type := (mainOf cfg true i).dataType
               signExt := (mainOf cfg true i).dataSignExtension
               addr := (exOut cfg (idInstr i compressed pc reg) s (ins 0)).aluAdderResultEx
               wdata := reg (rfRaddrB i.encode)
               rfWaddr := regD i.encode }
      pcSet := none
      branchSet := false
      call := false
      done := false } := by
  have hf := fsmOut_first cfg i compressed pc reg (hdit 0) hs.idFsm
  simp only [hm.dataReq, if_true] at hf
  rw [out_base cfg i compressed pc reg s (hdit 0), hf]
  simp [hs.idFsm, hs.branchSetQ, hm.dataReq, hm.rfWe, hm.call]

/-- A load or store waits for the LSU. -/
theorem access_waits (n : ℕ) (hn : ∀ k < n, (ins (k + 1)).lsuValid = false) :
    (after cfg (idInstr i compressed pc reg) s ins (n + 1)).idFsm = .multiCycle
      ∧ (after cfg (idInstr i compressed pc reg) s ins (n + 1)).branchSetQ = false := by
  induction n with
  | zero =>
      have hf := fsmOut_first cfg i compressed pc reg (hdit 0) hs.idFsm
      simp only [hm.dataReq, if_true] at hf
      exact ⟨congrArg IdFsmOut.idFsmD hf, congrArg IdFsmOut.branchSetD hf⟩
  | succ n ih =>
      obtain ⟨hmulti, -⟩ := ih fun k hk => hn k (by omega)
      have hf := fsmOut_later cfg i compressed pc reg (hdit (n + 1)) hmulti
      simp only [hm.dataReq, hn n (by omega), Bool.not_false, Bool.and_true, if_true] at hf
      exact ⟨congrArg IdFsmOut.idFsmD hf, congrArg IdFsmOut.branchSetD hf⟩

/-- A load or store in a later cycle. -/
theorem access_later (hlsu : LsuAnswers i ins) (n : ℕ)
    (hn : ∀ k < n, (ins (k + 1)).lsuValid = false) :
    out cfg (idInstr i compressed pc reg)
        (after cfg (idInstr i compressed pc reg) s ins (n + 1)) (ins (n + 1)) =
      { rfWrite := none
        lsuRequest := none
        pcSet := none
        branchSet := false
        call := false
        done := (ins (n + 1)).lsuValid } := by
  obtain ⟨hmulti, hq⟩ := access_waits cfg i compressed pc reg hs hdit hm n hn
  have hf := fsmOut_later cfg i compressed pc reg (hdit (n + 1)) hmulti
  have hb := hlsu.notBusy (n + 1)
  rw [out_base cfg i compressed pc reg _ (hdit (n + 1)), hf]
  cases hv : (ins (n + 1)).lsuValid with
  | false =>
      simp [hmulti, hq, hm.dataReq, hm.rfWe, hm.call]
  | true =>
      simp [hmulti, hq, hb hv, hm.dataReq, hm.rfWe, hm.call]

/-- A load or store leaves ID with the answer of the LSU. -/
theorem performs_access (hlsu : LsuAnswers i ins) {e : Effect}
    (he : i.effect pc (bytes compressed) reg = some e)
    (hw : e.write = none) (htak : e.taken = false) (hnext : e.nextPc = pc + bytes compressed)
    (hacc : e.access = some (LsuRequest.access
      { we := (mainOf cfg true i).dataWe
        type := (mainOf cfg true i).dataType
        signExt := (mainOf cfg true i).dataSignExtension
        addr := (exOut cfg (idInstr i compressed pc reg) s (ins 0)).aluAdderResultEx
        wdata := reg (rfRaddrB i.encode)
        rfWaddr := regD i.encode })) :
    ∃ n, LeavesAt cfg (idInstr i compressed pc reg) s ins n
      ∧ Performs (outs cfg (idInstr i compressed pc reg) s ins (n + 1)) pc (bytes compressed)
        (i.effect pc (bytes compressed) reg) := by
  have hans := hlsu.answer hm.memory
  have hn : ∀ k < Nat.find hans, (ins (k + 1)).lsuValid = false := fun k hk =>
    Bool.eq_false_of_not_eq_true (Nat.find_min hans hk)
  have ho := access_first cfg i compressed pc reg hs hdit hm
  have hlater := fun k hk => access_later cfg i compressed pc reg hs hdit hm hlsu k
    fun l hl => hn l (Nat.lt_of_lt_of_le hl hk)
  refine ⟨Nat.find hans + 1, ⟨?_, fun k hk => ?_⟩, ?_⟩
  · exact (congrArg DatapathOut.done (hlater _ le_rfl)).trans (Nat.find_spec hans)
  · cases k with
    | zero => exact congrArg DatapathOut.done ho
    | succ k =>
        exact (congrArg DatapathOut.done (hlater k (by omega))).trans (hn k (by omega))
  · have houts : outs cfg (idInstr i compressed pc reg) s ins (Nat.find hans + 1 + 1)
        = out cfg (idInstr i compressed pc reg) s (ins 0)
          :: (List.range (Nat.find hans + 1)).map fun k =>
            out cfg (idInstr i compressed pc reg)
              (after cfg (idInstr i compressed pc reg) s ins (k + 1)) (ins (k + 1)) := by
      rw [outs, List.range_succ_eq_map, List.map_cons, List.map_map]
      rfl
    rw [houts]
    refine Performs.of_first (fun o' ho' => ?_) ?_
    · obtain ⟨k, hk, rfl⟩ := List.mem_map.mp ho'
      rw [hlater k (Nat.lt_succ_iff.mp (List.mem_range.mp hk))]
      exact ⟨rfl, rfl, rfl, rfl, rfl⟩
    · rw [ho, he]
      refine ⟨?_, ?_, htak.symm, Or.inl ⟨rfl, fun f hf => ?_⟩, rfl⟩
      · rw [Option.bind_some, hw]
        rfl
      · rw [Option.bind_some, hacc]
        rfl
      · cases hf
        exact hnext

end

/-- An instruction of RV32I does what the instruction set says: in one or two cycles if it
neither loads nor stores, and else when the LSU answers. -/
theorem performs_base (i : Base) (compressed : Bool) (pc : BitVec 32)
    (reg : BitVec 5 → BitVec 32) (hpc : pc.getLsbD 0 = false) (hs : Starts s)
    (hdit : ∀ k, (ins k).dataIndTiming = false) (hlsu : LsuAnswers i ins) :
    ∃ n, (accessesMemory i = false → n ≤ 1)
      ∧ LeavesAt cfg (idInstr i compressed pc reg) s ins n
      ∧ Performs (outs cfg (idInstr i compressed pc reg) s ins (n + 1)) pc (bytes compressed)
        (i.effect pc (bytes compressed) reg) := by
  obtain ⟨-, hincr⟩ := hlsu.rest 0 (Or.inl rfl)
  cases i with
  | jal off rd =>
      have ht : fetchAddr (pc + (off ++ 0#1).signExtend 32) = pc + (off ++ 0#1).signExtend 32 :=
        fetchAddr_even (even_add hpc (even_signExtend off))
      obtain ⟨n, hn, hp⟩ := performs_jump cfg (.jal off rd) compressed pc reg hs hdit hlsu
        ⟨fun _ => rfl, fun _ => rfl, fun _ => rfl, fun _ => rfl, fun _ => rfl, fun _ => ⟨rfl, rfl⟩⟩
        rfl rfl rfl (by rw [jalTarget_base cfg compressed pc reg s (hdit 0) hincr hs.idFsm, ht])
      exact ⟨n, fun _ => hn, hp⟩
  | jalr imm rs1 rd =>
      obtain ⟨n, hn, hp⟩ := performs_jump cfg (.jalr imm rs1 rd) compressed pc reg hs hdit hlsu
        ⟨fun _ => rfl, fun _ => rfl, fun _ => rfl, fun _ => rfl, fun _ => rfl, fun _ => ⟨rfl, rfl⟩⟩
        rfl rfl rfl (by rw [jalrTarget_base cfg compressed pc reg s (hdit 0) hincr hs.idFsm,
          fetchAddr_eq_and])
      exact ⟨n, fun _ => hn, hp⟩
  | branch cond off rs2 rs1 =>
      obtain ⟨n, hn, hp⟩ := performs_branch cfg cond off rs2 rs1 compressed pc reg hs hdit hlsu hpc
      exact ⟨n, fun _ => hn, hp⟩
  | load kind imm rs1 rd =>
      obtain ⟨n, hp⟩ := performs_access cfg (.load kind imm rs1 rd) compressed pc reg hs hdit
        ⟨fun _ => rfl, fun _ => rfl, fun _ => ⟨rfl, rfl⟩, rfl⟩ hlsu rfl rfl rfl rfl (by
          rw [loadAddr_base cfg compressed pc reg s (hdit 0) hincr]
          simp [LsuRequest.access, mainOf, encode_base, baseWord])
      exact ⟨n, by simp [accessesMemory], hp⟩
  | store size imm rs2 rs1 =>
      obtain ⟨n, hp⟩ := performs_access cfg (.store size imm rs2 rs1) compressed pc reg hs hdit
        ⟨fun _ => rfl, fun _ => rfl, fun _ => ⟨rfl, rfl⟩, rfl⟩ hlsu rfl rfl rfl rfl (by
          rw [storeAddr_base cfg compressed pc reg s (hdit 0) hincr]
          simp [LsuRequest.access, mainOf, encode_base, baseWord, rfRaddrB])
      exact ⟨n, by simp [accessesMemory], hp⟩
  | _ =>
      exact ⟨0, fun _ => Nat.zero_le 1,
        performs_plain cfg _ compressed pc reg hs hdit hlsu rfl rfl rfl⟩

/-- Every instruction of RV32I does what the instruction set says, for all registers and at
every PC, whose lowest bit is zero: in one or two cycles if it neither loads nor stores, and
else when the LSU answers. -/
theorem executes_base (i : Base) (compressed : Bool) (pc : BitVec 31)
    (reg : BitVec 5 → BitVec 32) (hs : Starts s) (hdit : ∀ k, (ins k).dataIndTiming = false)
    (hlsu : LsuAnswers i ins) :
    ∃ n, (accessesMemory i = false → n ≤ 1)
      ∧ LeavesAt cfg (idInstr i compressed (pc ++ 0#1) reg) s ins n
      ∧ Performs (outs cfg (idInstr i compressed (pc ++ 0#1) reg) s ins (n + 1)) (pc ++ 0#1)
        (bytes compressed) (i.effect (pc ++ 0#1) (bytes compressed) reg) :=
  have hpc : (pc ++ 0#1).getLsbD 0 = false := by rw [BitVec.getLsbD_append]; rfl
  performs_base cfg s ins i compressed (pc ++ 0#1) reg hpc hs hdit hlsu

/-- A cycle in which the LSU rests and answers. -/
def restIn : DatapathIn where
  lsuValid := true
  lsuBusy := false
  lsuAddrIncrReq := false
  lsuAddrLast := 0#32
  dataIndTiming := false
  illegalCsr := false
  csrRdata := 0#32
  multdivReadyId := true

/-- `lw x5, 4(x6)` without the branch target ALU, in a core that comes out of reset. -/
theorem executes_base_lw :
    let h := idInstr (.load (.signed .word) 4#12 6#5 5#5) false 0x80#32 fun _ => 0x1000#32
    let s : Datapath .fast := ⟨.firstCycle, false, false, ExBlock.reset .fast⟩
    ∃ n, LeavesAt ⟨true, false, false⟩ h s (fun _ => restIn) n
      ∧ Performs (outs ⟨true, false, false⟩ h s (fun _ => restIn) (n + 1)) 0x80#32 4#32
        (some { access := some ⟨0x1004#32, .word, none, some (5#5, true)⟩
                nextPc := 0x84#32 }) := by
  obtain ⟨n, -, hl, hp⟩ := executes_base ⟨true, false, false⟩
    (⟨.firstCycle, false, false, ExBlock.reset .fast⟩ : Datapath .fast) (fun _ => restIn)
    (.load (.signed .word) 4#12 6#5 5#5) false 0x40#31 (fun _ => 0x1000#32) ⟨rfl, rfl⟩
    (fun _ => rfl) ⟨fun _ _ => ⟨rfl, rfl⟩, fun _ _ => rfl, fun _ => ⟨0, rfl⟩⟩
  exact ⟨n, hl, hp⟩

end Datapath

end CocoIbex
