import CocoIbex.IdStage
import CocoIbex.RegisterFile

/-!
# The Write-Back Stage

The optional third stage of the pipeline, `ibex_wb_stage`: an instruction that leaves ID waits
here for its register write, and a load or store for its response. `IdWb` is the part of
`ibex_id_stage` that sequences an instruction in that pipeline, with the read hazards that the
third stage brings.

The stage holds one instruction: its PC, its kind, and its register write. It is done at once
unless it waits for a response, and is ready for the next one when it is empty or done. The
register file has one write port, and a load writes through it with its response, the others
with the data that they have brought.

The generate blocks of the source with and without the stage are kept apart: `IdStage` has the
one, and this module the other, with the machine of two states, the stalls for the stage and the
hazards, and the kill of an instruction behind a failed access.

No result is stated in this module.
-/

namespace CocoIbex

/-- `wb_instr_type_e`. -/
inductive WbInstrType
  | load | store | other
  deriving DecidableEq, Repr

/-- The registers of the write-back stage. -/
structure WbStage where
  wbValidQ : Bool
  rfWeWbQ : Bool
  rfWaddrWbQ : BitVec 5
  rfWdataWbQ : BitVec 32
  wbInstrTypeQ : WbInstrType
  wbPcQ : BitVec 32
  deriving DecidableEq, Repr

/-- What the write-back stage sees in one cycle: the instruction in ID, and the answer of
the LSU. -/
structure WbIn where
  enWb : Bool
  instrTypeWb : WbInstrType
  pcId : BitVec 32
  rfWaddrId : BitVec 5
  rfWdataId : BitVec 32
  rfWeId : Bool
  rfWdataLsu : BitVec 32
  rfWeLsu : Bool
  lsuDataValid : Bool

namespace WbStage

variable (s : WbStage) (x : WbIn)

/-- After a reset. Only the valid bit has one; the others are taken as zero. -/
def reset : WbStage := ⟨false, false, 0#5, 0#32, .other, 0#32⟩

/-- `wb_done`. -/
def wbDone (lsuDataValid : Bool) : Bool := s.wbInstrTypeQ == .other || lsuDataValid

/-- `ready_wb_o`. -/
def readyWb (lsuDataValid : Bool) : Bool := !s.wbValidQ || s.wbDone lsuDataValid

/-- `rf_write_wb_o`: the instruction will write a register. -/
def rfWriteWb : Bool := s.wbValidQ && (s.rfWeWbQ || s.wbInstrTypeQ == .load)

/-- `outstanding_load_wb_o`. -/
def outstandingLoadWb : Bool := s.wbValidQ && s.wbInstrTypeQ == .load

/-- `outstanding_store_wb_o`. -/
def outstandingStoreWb : Bool := s.wbValidQ && s.wbInstrTypeQ == .store

/-- `rf_wdata_wb_mux_we[0]`. -/
def rfWdataWbMuxWe : Bool := s.rfWeWbQ && s.wbValidQ

/-- `rf_wdata_wb_o`. -/
def rfWdataWb : BitVec 32 := if s.rfWdataWbMuxWe then s.rfWdataWbQ else x.rfWdataLsu

/-- `rf_we_wb_o`. -/
def rfWeWb : Bool := s.rfWdataWbMuxWe || x.rfWeLsu

/-- One clock edge. -/
def next : WbStage :=
  let load {α : Type} (new old : α) : α := if x.enWb then new else old
  { wbValidQ := (x.enWb && s.readyWb x.lsuDataValid) || (s.wbValidQ && !s.wbDone x.lsuDataValid)
    rfWeWbQ := load x.rfWeId s.rfWeWbQ
    rfWaddrWbQ := load x.rfWaddrId s.rfWaddrWbQ
    rfWdataWbQ := load x.rfWdataId s.rfWdataWbQ
    wbInstrTypeQ := load x.instrTypeWb s.wbInstrTypeQ
    wbPcQ := load x.pcId s.wbPcQ }

end WbStage

/-- What the ID stage sees of the write-back stage and the LSU, besides `IdIn`. -/
structure IdWbIn extends IdIn where
  wbException : Bool
  outstandingLoadWb : Bool
  outstandingStoreWb : Bool
  lsuLoad : Bool
  rfWriteWb : Bool
  rfWaddrWb : BitVec 5
  rfReadEnableA : BitVec 32
  rfReadEnableB : BitVec 32
  readyWb : Bool
  deriving DecidableEq

namespace IdWb

variable (cfg : Config) (fsm : IdFsm) (dataReqCompleteQ : Bool) (x : IdWbIn)

/-- The main decode of the instruction in ID. -/
def main : MainOut := IdStage.main cfg fsm x.toIdIn

/-- `outstanding_memory_access`: an access in write-back that does not finish. -/
def outstandingMemoryAccess : Bool := (x.outstandingLoadWb || x.outstandingStoreWb) && !x.lsuValid

/-- `data_req_allowed`. -/
def dataReqAllowed : Bool := !outstandingMemoryAccess x && !dataReqCompleteQ

/-- `instr_kill`. -/
def instrKill : Bool := x.instrFetchErr || x.wbException || !x.controllerRun

/-- The match of a read enable with the register that write-back writes:
`rf_read_enable[rf_waddr_wb_i] & ~rf_read_enable[0]`. -/
def rfRdWbMatch (rfReadEnable : BitVec 32) (rfWaddrWb : BitVec 5) : Bool :=
  rfReadEnable.getLsbD rfWaddrWb.toNat && !rfReadEnable.getLsbD 0

/-- `rf_rd_a_wb_match`. -/
def rfRdAWbMatch : Bool := rfRdWbMatch x.rfReadEnableA x.rfWaddrWb

/-- `rf_rd_b_wb_match`. -/
def rfRdBWbMatch : Bool := rfRdWbMatch x.rfReadEnableB x.rfWaddrWb

/-- `rf_rd_a_hz`. -/
def rfRdAHz : Bool := rfRdAWbMatch x && (main cfg fsm x).rfRenA

/-- `rf_rd_b_hz`. -/
def rfRdBHz : Bool := rfRdBWbMatch x && (main cfg fsm x).rfRenB

/-- `stall_ld_hz`: the instruction reads what a load in write-back will write. -/
def stallLdHz : Bool :=
  x.outstandingLoadWb && x.lsuLoad && (rfRdAHz cfg fsm x || rfRdBHz cfg fsm x) && x.rfWriteWb

/-- `instr_executing`. -/
def instrExecuting : Bool :=
  x.instrValid && !instrKill x && !stallLdHz cfg fsm x && !outstandingMemoryAccess x

/-- `lsu_req_o`. -/
def lsuReq : Bool :=
  if instrExecuting cfg fsm x then
    dataReqAllowed dataReqCompleteQ x && (main cfg fsm x).dataReq
  else false

-- what follows depends on the answer of the LSU to `lsu_req_o`
variable (lsuReqDone : Bool)

/-- `stall_mem`. -/
def stallMem : Bool :=
  x.instrValid
    && (((main cfg fsm x).dataReq
        && (!dataReqAllowed dataReqCompleteQ x || (!dataReqCompleteQ && !lsuReqDone)))
      || outstandingMemoryAccess x)

/-- `multicycle_done`. -/
def multicycleDone : Bool :=
  if (main cfg fsm x).dataReq then !stallMem cfg fsm dataReqCompleteQ x lsuReqDone else x.exValid

/-- The combinational part of the ID-EX machine. -/
def fsmOut : IdFsmOut :=
  let d := main cfg fsm x
  let multdivEnDec := IdStage.multdivEnDec cfg fsm x.toIdIn
  let idle : IdFsmOut := { idFsmD := fsm, rfWeRaw := d.rfWe }
  if instrExecuting cfg fsm x then
    match fsm with
    | .firstCycle =>
      if d.dataReq then
        if !lsuReqDone then { idle with idFsmD := .multiCycle } else idle
      else if multdivEnDec then
        if x.exValid then idle
        else { idle with idFsmD := .multiCycle, rfWeRaw := false, stallMultdiv := true }
      else if d.branchInDec then
        { idle with
          idFsmD :=
            if x.dataIndTiming || (!cfg.branchTargetALU && x.branchDecision) then .multiCycle
            else .firstCycle
          stallBranch := (!cfg.branchTargetALU && x.branchDecision) || x.dataIndTiming
          branchSetD := x.branchDecision || x.dataIndTiming }
      else if d.jumpInDec then
        { idle with
          idFsmD := if cfg.branchTargetALU then .firstCycle else .multiCycle
          stallJump := !cfg.branchTargetALU
          jumpSet := d.jumpSet }
      else if (IdStage.alu cfg fsm x.toIdIn).aluMulticycle then
        { idle with idFsmD := .multiCycle, rfWeRaw := false, stallAlu := true }
      else { idle with idFsmD := .firstCycle }
    | .multiCycle =>
      let o := if multdivEnDec then { idle with rfWeRaw := d.rfWe && x.exValid } else idle
      if multicycleDone cfg fsm dataReqCompleteQ x lsuReqDone && x.readyWb then
        { o with idFsmD := .firstCycle }
      else
        { o with
          stallMultdiv := multdivEnDec
          stallBranch := d.branchInDec
          stallJump := d.jumpInDec }
  else idle

/-- `stall_id`. -/
def stallId : Bool :=
  let o := fsmOut cfg fsm dataReqCompleteQ x lsuReqDone
  stallLdHz cfg fsm x || stallMem cfg fsm dataReqCompleteQ x lsuReqDone || o.stallMultdiv
    || o.stallJump || o.stallBranch || o.stallAlu

/-- `instr_done`, which is `en_wb_o`. -/
def instrDone : Bool :=
  !stallId cfg fsm dataReqCompleteQ x lsuReqDone && !x.flushId && instrExecuting cfg fsm x

/-- `instr_id_done_o`. -/
def instrIdDone : Bool := instrDone cfg fsm dataReqCompleteQ x lsuReqDone && x.readyWb

/-- `stall_wb`. -/
def stallWb : Bool := instrDone cfg fsm dataReqCompleteQ x lsuReqDone && !x.readyWb

/-- `csr_op_en_o`. -/
def csrOpEn : Bool :=
  (main cfg fsm x).csrAccess && instrExecuting cfg fsm x
    && instrIdDone cfg fsm dataReqCompleteQ x lsuReqDone

/-- `rf_we_id_o`. -/
def rfWeId : Bool :=
  (fsmOut cfg fsm dataReqCompleteQ x lsuReqDone).rfWeRaw && instrExecuting cfg fsm x
    && !x.illegalCsrInsn

/-- `instr_type_wb_o`. -/
def instrTypeWb : WbInstrType :=
  if !(main cfg fsm x).dataReq then .other
  else if (main cfg fsm x).dataWe then .store
  else .load

/-- The next value of the flop `data_req_complete`. -/
def dataReqCompleteD : Bool :=
  (dataReqCompleteQ || (lsuReq cfg fsm dataReqCompleteQ x && lsuReqDone))
    && !instrIdDone cfg fsm dataReqCompleteQ x lsuReqDone

end IdWb

end CocoIbex
