import CocoIbex.AluSpec
import CocoIbex.Datapath

/-!
# A Cycle of an Instruction

What the ID stage and EX do in a cycle with an instruction that neither multiplies nor divides
nor accesses a CSR, by the decode of its word: for any word, with and without data independent
timing.

`Decodes` collects what the decoders make of the word, which does not change while the
instruction is in ID. From it follow the operands that the ALU sees, the operator, and the
answer of the ID-EX machine; the outputs of the cycle are then a matter of the cycle alone, be
it the first one or a later one. The modules on RV32I, on the transfers of control and on RV32B
each give the decode of their own instructions, and take the rest from here.

## Main results

* `operator`, `operandA` and `operandB` — what the ALU sees;
* `multdivSel` — the multiplier and divider are not selected;
* `fsmOut_first` and `fsmOut_later` — the ID-EX machine in the two kinds of cycles;
* `out_eq` — the outputs of the cycle.
-/

namespace CocoIbex

namespace Datapath

variable (cfg : Config) {m : Multiplier} (h : IdInstr) (s : Datapath m) (x : DatapathIn)

/-- The decode of the instruction in ID. -/
structure Decodes (c : MainOut) (a : AluOut) : Prop where
  main : mainDecode cfg (s.idFsm == .firstCycle) false h.instr = c
  alu : aluDecode cfg (s.idFsm == .firstCycle) (branchTaken s x) h.instr = a
  multSel : a.multSel = false
  divSel : a.divSel = false
  csrAccess : c.csrAccess = false

/-- What the ALU sees of the instruction. -/
def aluSees : AluIn := ExBlock.aluIn cfg m s.ex (exIn cfg h s x)

variable {cfg h s x} {c : MainOut} {a : AluOut} (hd : Decodes cfg h s x c a)

include hd

namespace Decodes

/-- The decode of the ALU controls in ID. -/
theorem alu_eq : Datapath.alu cfg h s x = a := by
  rw [← hd.alu]
  simp only [Datapath.alu, IdStage.alu, IdStage.instrFirstCycle, idIn, Bool.true_and]

/-- The multiplier and divider are not selected. -/
theorem multdivSel : ExBlock.multdivSel cfg (exIn cfg h s x) = false := by
  change (cfg.rv32m && ((Datapath.alu cfg h s x).multSel || (Datapath.alu cfg h s x).divSel))
    = false
  rw [hd.alu_eq, hd.multSel, hd.divSel, Bool.or_self, Bool.and_false]

/-- No operand comes from the multiplier and divider. -/
theorem plain : Alu.Plain (aluSees cfg h s x) := ⟨hd.multdivSel, rfl, rfl⟩

/-- The ALU sees the operator. -/
theorem operator : (aluSees cfg h s x).operator = a.aluOperator :=
  congrArg AluOut.aluOperator hd.alu_eq

/-- It sees the first operand of its multiplexer. -/
theorem operandA : (aluSees cfg h s x).operandA = (operands cfg h s x).aluOperandA a :=
  congrArg (OperandIn.aluOperandA · _) hd.alu_eq

/-- It sees the second operand of its multiplexer. -/
theorem operandB : (aluSees cfg h s x).operandB = (operands cfg h s x).aluOperandB cfg a :=
  congrArg (OperandIn.aluOperandB cfg · _) hd.alu_eq

omit hd in
/-- It sees whether this is the first cycle. -/
theorem first : (aluSees cfg h s x).instrFirstCycle = (s.idFsm == .firstCycle) := Bool.true_and _

/-- The answer of EX. -/
theorem exOut_eq : exOut cfg h s x =
    { aluAdderResultEx := Alu.adderResult (aluSees cfg h s x)
      resultEx := Alu.result cfg.rv32b (aluSees cfg h s x)
      branchTarget :=
        if cfg.branchTargetALU then
          (operands cfg h s x).btAOperand cfg a + (operands cfg h s x).btBOperand cfg a
        else Alu.adderResult (aluSees cfg h s x)
      branchDecision := Alu.cmpResult (aluSees cfg h s x)
      exValid := !Alu.imdValWe cfg.rv32b (aluSees cfg h s x) } := by
  have hA : (exIn cfg h s x).btAOperand = _ := congrArg (OperandIn.btAOperand cfg · _) hd.alu_eq
  have hB : (exIn cfg h s x).btBOperand = _ := congrArg (OperandIn.btBOperand cfg · _) hd.alu_eq
  simp only [exOut, ExBlock.outputs, hd.multdivSel, Bool.false_eq_true, if_false, hA, hB]
  rfl

/-- The intermediate value register after the cycle. -/
theorem imdValQ_next : (next cfg h s x).ex.imdValQ =
    if Alu.imdValWe cfg.rv32b (aluSees cfg h s x) then
      (Alu.imdValD cfg.rv32b (aluSees cfg h s x)).setWidth 34
    else s.ex.imdValQ := by
  simp only [next, ExBlock.next, hd.multdivSel, Bool.false_eq_true, if_false]
  rfl

/-- The ID-EX machine in the first cycle. -/
theorem fsmOut_first (hfirst : s.idFsm = .firstCycle) : fsmOut cfg h s x =
    let d := Alu.cmpResult (aluSees cfg h s x)
    let idle : IdFsmOut := { idFsmD := .firstCycle, rfWeRaw := c.rfWe }
    if c.dataReq then { idle with idFsmD := .multiCycle }
    else if c.branchInDec then
      { idle with
        idFsmD :=
          if x.dataIndTiming || (!cfg.branchTargetALU && d) then .multiCycle else .firstCycle
        stallBranch := (!cfg.branchTargetALU && d) || x.dataIndTiming
        branchSetD := d || x.dataIndTiming }
    else if c.jumpInDec then
      { idle with
        idFsmD := if cfg.branchTargetALU then .firstCycle else .multiCycle
        stallJump := !cfg.branchTargetALU
        jumpSet := c.jumpSet }
    else if a.aluMulticycle then
      { idle with idFsmD := .multiCycle, rfWeRaw := false, stallAlu := true }
    else idle := by
  have halu : IdStage.alu cfg .firstCycle (idSees cfg h s x) = a := hfirst ▸ hd.alu_eq
  have hmain : IdStage.main cfg .firstCycle (idSees cfg h s x) = c := by
    rw [← hd.main, hfirst]
    rfl
  have hmd : IdStage.multdivEnDec cfg .firstCycle (idSees cfg h s x) = false := by
    rw [IdStage.multdivEnDec, halu, hd.multSel, hd.divSel, Bool.or_self, Bool.and_false]
  have hex : (idSees cfg h s x).branchDecision = Alu.cmpResult (aluSees cfg h s x) := by
    rw [idSees, hd.exOut_eq]
    rfl
  have hexec : IdStage.instrExecuting (idSees cfg h s x) = true := rfl
  have hdit : (idSees cfg h s x).dataIndTiming = x.dataIndTiming := rfl
  simp only [fsmOut, IdStage.fsmOut, hfirst, hexec, if_true, hmain, halu, hmd, hex, hdit,
    Bool.false_eq_true, if_false]

omit hd in
/-- In a later cycle the ALU leaves nothing for another one. -/
theorem imdValWe_later (hmulti : s.idFsm = .multiCycle) :
    Alu.imdValWe cfg.rv32b (aluSees cfg h s x) = false := by
  have hfirst : (aluSees cfg h s x).instrFirstCycle = false := by rw [first, hmulti]; rfl
  rw [Alu.imdValWe, hfirst, Bool.and_false]
  split <;> rfl

/-- The ID-EX machine in a later cycle. -/
theorem fsmOut_later (hmulti : s.idFsm = .multiCycle) : fsmOut cfg h s x =
    let idle : IdFsmOut := { idFsmD := .multiCycle, rfWeRaw := c.rfWe }
    if c.dataReq && !x.lsuValid then
      { idle with stallBranch := c.branchInDec, stallJump := c.jumpInDec }
    else { idle with idFsmD := .firstCycle } := by
  have halu : IdStage.alu cfg .multiCycle (idSees cfg h s x) = a := hmulti ▸ hd.alu_eq
  have hmain : IdStage.main cfg .multiCycle (idSees cfg h s x) = c := by
    rw [← hd.main, hmulti]
    rfl
  have hmd : IdStage.multdivEnDec cfg .multiCycle (idSees cfg h s x) = false := by
    rw [IdStage.multdivEnDec, halu, hd.multSel, hd.divSel, Bool.or_self, Bool.and_false]
  have hex : (idSees cfg h s x).exValid = true := by
    rw [idSees, hd.exOut_eq, imdValWe_later hmulti]
    rfl
  have hexec : IdStage.instrExecuting (idSees cfg h s x) = true := rfl
  have hlsu : (idSees cfg h s x).lsuValid = x.lsuValid := rfl
  simp only [fsmOut, IdStage.fsmOut, IdStage.multicycleDone, hmulti, hexec, if_true, hmain, hmd,
    hex, hlsu, Bool.false_eq_true, if_false]
  cases c.dataReq <;> cases x.lsuValid <;> rfl

/-- The outputs of the cycle by the answer of the ID-EX machine. -/
theorem out_eq : out cfg h s x =
    let f := fsmOut cfg h s x
    let ex := exOut cfg h s x
    let branch :=
      if cfg.branchTargetALU && !x.dataIndTiming then f.branchSetD else s.branchSetQ
    { rfWrite :=
        if f.rfWeRaw then
          some (rfWaddr h.instr, match c.rfWdataSel with | .ex => ex.resultEx | .csr => x.csrRdata)
        else none
      lsuRequest :=
        if s.idFsm == .firstCycle && c.dataReq then
          some { we := c.dataWe
                 type := c.dataType
                 signExt := c.dataSignExtension
                 addr := ex.aluAdderResultEx
                 wdata := h.reg (rfRaddrB h.instr)
                 rfWaddr := rfWaddr h.instr }
        else none
      pcSet :=
        if branch || f.jumpSet then some (fetchAddr ex.branchTarget) else none
      branchSet := branch
      call := c.ecallInsn || c.ebrkInsn
      done := !(x.lsuBusy || (c.dataReq && (!x.lsuValid || s.idFsm == .firstCycle))
        || f.stallMultdiv || f.stallJump || f.stallBranch || f.stallAlu) } := by
  have hmain : IdStage.main cfg s.idFsm (idSees cfg h s x) = c := by
    rw [← hd.main]
    rfl
  have hexec : IdStage.instrExecuting (idSees cfg h s x) = true := rfl
  have hcsr : (idSees cfg h s x).illegalCsrInsn = false := by
    change ((mainDecode cfg (s.idFsm == .firstCycle) false h.instr).csrAccess && _) = false
    rw [hd.main, hd.csrAccess, Bool.false_and]
  have hfirst : IdStage.instrFirstCycle s.idFsm (idSees cfg h s x) = (s.idFsm == .firstCycle) :=
    Bool.true_and _
  have hflush : (idSees cfg h s x).flushId = false := rfl
  have hvalid : (idSees cfg h s x).instrValid = true := rfl
  have hlsu : (idSees cfg h s x).lsuValid = x.lsuValid := rfl
  have hbusy : (idSees cfg h s x).lsuBusy = x.lsuBusy := rfl
  simp only [out, branchSet, IdStage.rfWeId, IdStage.lsuReq, IdStage.instrDone, IdStage.stallId,
    IdStage.stallMem, hexec, hmain, hcsr, hfirst, hflush, hvalid, hlsu, hbusy, if_true,
    Bool.not_false, Bool.and_true, Bool.true_and]
  rfl

end Decodes

end Datapath

end CocoIbex
