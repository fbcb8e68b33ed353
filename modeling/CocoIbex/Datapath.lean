import CocoIbex.AdderUse

/-!
# The Datapath of the ID Stage

The operands that ID selects for EX, with the immediates of the decoder, and the cycle of an
instruction in ID without a write-back stage: decoder, operand muxes, EX and the ID-EX machine,
with their registers. The enables of the secure build are all set, and nothing keeps the
instruction from executing.

This is the part of the core in which an instruction is computed, without the part in which it
may be stopped. A run of it has one instruction, and its inputs are the registers, the PC and
the answers of the LSU. So the question what an instruction does is answered here, cycle by
cycle, and the hart adds when it executes.

The immediates and the muxes are those of the source, with the selection of each; the branch
target ALU has operands of its own, and without it a branch or jump takes a second cycle in
which the ALU computes the target (`btAOperand`, `btBOperand`).

No result is stated in this module; RV32I is executed on it in `Execution`, and the two-cycle
instructions in `TwoCycle`.
-/

namespace CocoIbex

/-! ### The immediates -/

/-- `imm_i_type_o`. -/
def immIType (i : BitVec 32) : BitVec 32 := Bits.fill 20 (i.getLsbD 31) ++ i.extractLsb 31 20

/-- `imm_s_type_o`. -/
def immSType (i : BitVec 32) : BitVec 32 :=
  Bits.fill 20 (i.getLsbD 31) ++ i.extractLsb 31 25 ++ i.extractLsb 11 7

/-- `imm_b_type_o`. -/
def immBType (i : BitVec 32) : BitVec 32 :=
  Bits.fill 19 (i.getLsbD 31) ++ bit i 31 ++ bit i 7 ++ i.extractLsb 30 25 ++ i.extractLsb 11 8
    ++ 0#1

/-- `imm_u_type_o`. -/
def immUType (i : BitVec 32) : BitVec 32 := i.extractLsb 31 12 ++ 0#12

/-- `imm_j_type_o`. -/
def immJType (i : BitVec 32) : BitVec 32 :=
  Bits.fill 12 (i.getLsbD 31) ++ i.extractLsb 19 12 ++ bit i 20 ++ i.extractLsb 30 21 ++ 0#1

/-- `zimm_rs1_type_o`. -/
def zimmRs1Type (i : BitVec 32) : BitVec 32 := 0#27 ++ regS1 i

/-! ### The operand muxes -/

/-- What the operand muxes choose from: the instruction in ID, its PC, the registers it reads,
and the address of the LSU for the second part of a misaligned access. -/
structure OperandIn where
  instr : BitVec 32
  instrIsCompressed : Bool
  pcId : BitVec 32
  rfRdataA : BitVec 32
  rfRdataB : BitVec 32
  lsuAddrIncrReq : Bool
  lsuAddrLast : BitVec 32
  deriving DecidableEq, Repr

namespace OperandIn

variable (cfg : Config) (a : AluOut) (x : OperandIn)

/-- `alu_op_a_mux_sel`. -/
def aluOpAMuxSel : OpASel := if x.lsuAddrIncrReq then .fwd else a.aluOpAMuxSel

/-- `alu_op_b_mux_sel`. -/
def aluOpBMuxSel : OpBSel := if x.lsuAddrIncrReq then .imm else a.aluOpBMuxSel

/-- `imm_b_mux_sel`. -/
def immBMuxSel : ImmBSel := if x.lsuAddrIncrReq then .incrAddr else a.immBMuxSel

/-- `imm_a`. -/
def immA : BitVec 32 := if a.immAMuxSel = .z then zimmRs1Type x.instr else 0#32

/-- The size of the instruction in memory. -/
def instrBytes : BitVec 32 := if x.instrIsCompressed then 2#32 else 4#32

/-- `alu_operand_a`. -/
def aluOperandA : BitVec 32 :=
  match aluOpAMuxSel a x with
  | .regA => x.rfRdataA
  | .fwd => x.lsuAddrLast
  | .currPc => x.pcId
  | .imm => immA a x

/-- `imm_b`; with the branch target ALU the offsets of jumps and branches are not selected. -/
def immB : BitVec 32 :=
  match immBMuxSel a x with
  | .i => immIType x.instr
  | .s => immSType x.instr
  | .b => if cfg.branchTargetALU then 4#32 else immBType x.instr
  | .u => immUType x.instr
  | .j => if cfg.branchTargetALU then 4#32 else immJType x.instr
  | .incrPc => instrBytes x
  | .incrAddr => 4#32

/-- `alu_operand_b`. -/
def aluOperandB : BitVec 32 :=
  if aluOpBMuxSel a x = .imm then immB cfg a x else x.rfRdataB

/-- `bt_a_operand_o`. -/
def btAOperand : BitVec 32 :=
  if cfg.branchTargetALU then
    match a.btAMuxSel with
    | .regA => x.rfRdataA
    | _ => x.pcId
  else 0#32

/-- `bt_b_operand_o`. -/
def btBOperand : BitVec 32 :=
  if cfg.branchTargetALU then
    match a.btBMuxSel with
    | .i => immIType x.instr
    | .b => immBType x.instr
    | .j => immJType x.instr
    | _ => instrBytes x
  else 0#32

end OperandIn

/-! ### An instruction in ID -/

/-- The instruction in ID, with the registers as it finds them. -/
structure IdInstr where
  instr : BitVec 32
  instrIsCompressed : Bool
  pcId : BitVec 32
  reg : BitVec 5 → BitVec 32

/-- What an executing instruction sees in a cycle from the LSU and the CSRs. -/
structure DatapathIn where
  lsuValid : Bool
  lsuBusy : Bool
  lsuAddrIncrReq : Bool
  lsuAddrLast : BitVec 32
  dataIndTiming : Bool
  illegalCsr : Bool
  csrRdata : BitVec 32
  multdivReadyId : Bool
  deriving DecidableEq, Repr

/-- A request to the LSU, with the destination register of a load. -/
structure LsuRequest where
  we : Bool
  type : BitVec 2
  signExt : Bool
  addr : BitVec 32
  wdata : BitVec 32
  rfWaddr : BitVec 5
  deriving DecidableEq, Repr

/-- The address of the fetch at a target, `{fetch_addr_n[31:1], 1'b0}`. -/
def fetchAddr (target : BitVec 32) : BitVec 32 := target.extractLsb 31 1 ++ 0#1

/-- What an instruction does in a cycle: the register write of ID, the request to the LSU, the
address to which the fetch is redirected, whether that is for a branch, a call of the
environment or debugger, and whether the instruction leaves ID. -/
structure DatapathOut where
  rfWrite : Option (BitVec 5 × BitVec 32)
  lsuRequest : Option LsuRequest
  pcSet : Option (BitVec 32)
  branchSet : Bool
  call : Bool
  done : Bool
  deriving DecidableEq, Repr

/-- The registers that sequence an instruction in ID, and those of EX. -/
structure Datapath (m : Multiplier) where
  idFsm : IdFsm
  branchSetQ : Bool
  branchTakenQ : Bool
  ex : ExState m

namespace Datapath

variable (cfg : Config) {m : Multiplier} (h : IdInstr) (s : Datapath m) (x : DatapathIn)

/-- `branch_taken`. -/
def branchTaken : Bool := !x.dataIndTiming || s.branchTakenQ

/-- The inputs of the ID-EX machine, with the answer of EX. -/
def idIn (exValid branchDecision : Bool) : IdIn where
  instrValid := true
  instr := h.instr
  illegalCInsn := false
  instrFetchErr := false
  controllerRun := true
  flushId := false
  exValid := exValid
  branchDecision := branchDecision
  branchTaken := branchTaken s x
  dataIndTiming := x.dataIndTiming
  lsuValid := x.lsuValid
  lsuBusy := x.lsuBusy
  illegalCsrInsn :=
    (mainDecode cfg (s.idFsm == .firstCycle) false h.instr).csrAccess && x.illegalCsr

/-- The decode of the ALU controls. -/
def alu : AluOut := IdStage.alu cfg s.idFsm (idIn cfg h s x false false)

/-- The inputs of the operand muxes. -/
def operands : OperandIn where
  instr := h.instr
  instrIsCompressed := h.instrIsCompressed
  pcId := h.pcId
  rfRdataA := h.reg (rfRaddrA cfg (s.idFsm == .firstCycle) (branchTaken s x) h.instr)
  rfRdataB := h.reg (rfRaddrB h.instr)
  lsuAddrIncrReq := x.lsuAddrIncrReq
  lsuAddrLast := x.lsuAddrLast

/-- The inputs of EX; they do not depend on its answer. -/
def exIn : ExIn :=
  let a := alu cfg h s x
  let o := operands cfg h s x
  { CocoIbex.exIn cfg .reset true s.idFsm (idIn cfg h s x false false)
      { aluOperandA := o.aluOperandA a
        aluOperandB := o.aluOperandB cfg a
        btAOperand := o.btAOperand cfg a
        btBOperand := o.btBOperand cfg a
        multdivOperandA := o.rfRdataA
        multdivOperandB := o.rfRdataB
        multdivReadyId := x.multdivReadyId } with
    mdEnable := true
    shiftEnable := true }

/-- The outputs of EX. -/
def exOut : ExOut := ExBlock.outputs cfg m s.ex (exIn cfg h s x)

/-- What the ID-EX machine sees. -/
def idSees : IdIn := idIn cfg h s x (exOut cfg h s x).exValid (exOut cfg h s x).branchDecision

/-- The answer of the ID-EX machine. -/
def fsmOut : IdFsmOut := IdStage.fsmOut cfg s.idFsm (idSees cfg h s x)

/-- `branch_set`. -/
def branchSet : Bool :=
  if cfg.branchTargetALU && !x.dataIndTiming then (fsmOut cfg h s x).branchSetD else s.branchSetQ

/-- The outputs in a cycle. -/
def out : DatapathOut :=
  let y := idSees cfg h s x
  let c := IdStage.main cfg s.idFsm y
  let ex := exOut cfg h s x
  let branch := branchSet cfg h s x
  { rfWrite :=
      if IdStage.rfWeId cfg s.idFsm y then
        some (rfWaddr h.instr, match c.rfWdataSel with | .ex => ex.resultEx | .csr => x.csrRdata)
      else none
    lsuRequest :=
      if IdStage.lsuReq cfg s.idFsm y then
        some { we := c.dataWe
               type := c.dataType
               signExt := c.dataSignExtension
               addr := ex.aluAdderResultEx
               wdata := (operands cfg h s x).rfRdataB
               rfWaddr := rfWaddr h.instr }
      else none
    pcSet :=
      if branch || (fsmOut cfg h s x).jumpSet then some (fetchAddr ex.branchTarget) else none
    branchSet := branch
    call := c.ecallInsn || c.ebrkInsn
    done := IdStage.instrDone cfg s.idFsm y }

/-- One clock edge. -/
def next : Datapath m where
  idFsm := (fsmOut cfg h s x).idFsmD
  branchSetQ := (fsmOut cfg h s x).branchSetD
  branchTakenQ := (exOut cfg h s x).branchDecision
  ex := ExBlock.next cfg m s.ex (exIn cfg h s x)

end Datapath

end CocoIbex
