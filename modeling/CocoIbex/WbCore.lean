import CocoIbex.Core
import CocoIbex.WbStage

/-!
# The Three-Stage Core

The core with a write-back stage, wired as in `ibex_core`: the IF-ID pipeline registers, the
ID-EX machine, the controller, the LSU, the write-back stage and the register file with one-hot
reads. The fetch port, the data bus, the results of EX, the CSRs and the requests from outside
are inputs, as for the two-stage core.

The pipeline registers, the controller, the LSU and the decoders are those of the two-stage
core. What differs is the part of ID that sequences an instruction (`IdWb`), the stage behind
it, and the wires of the errors: a response may belong to an instruction that has left ID, and
its error goes to the controller beside the exceptions of the instruction in ID. The register
file is part of the core, since the forwarding looks at it.

The wires are functions of the state and the inputs, in the order in which they settle. Whether
the stage behind ID is ready is computed from the response of the LSU first, and what executes
in ID after.

No result is stated in this module; the steps of the core are in `WbCoreStep`.
-/

namespace CocoIbex

/-- The registers of the core. -/
structure WbCore where
  ctrl : Ctrl
  idFsm : IdFsm
  branchSetQ : Bool
  dataReqCompleteQ : Bool
  ifId : IfIdReg
  instrFetchErrId : Bool
  instrFetchErrPlus2Id : Bool
  instrRdataCId : BitVec 16
  pcId : BitVec 32
  lsu : Lsu
  wb : WbStage
  rf : RegisterFile

/-- What the core sees in one cycle. `lsuWdata` is replaced by the operand of ID. -/
structure WbCoreIn extends CoreIn where
  /-- the result of EX or the CSRs -/
  rfWdataId : BitVec 32
  deriving DecidableEq

namespace WbCore

/-- The registers after a reset. -/
def reset : WbCore where
  ctrl := .reset
  idFsm := .firstCycle
  branchSetQ := false
  dataReqCompleteQ := false
  ifId := .reset
  instrFetchErrId := false
  instrFetchErrPlus2Id := false
  instrRdataCId := 0#16
  pcId := 0#32
  lsu := .reset
  wb := .reset
  rf := ⟨fun _ => 0#32, RegisterFile.const_zero⟩

variable (cfg : Config) (s : WbCore) (x : WbCoreIn)

/-! ### The operands -/

/-- `rf_rdata_a`. -/
def rfRdataA : BitVec 32 := s.rf.readSecure s.ifId.rfReadEnableA

/-- `rf_rdata_b`. -/
def rfRdataB : BitVec 32 := s.rf.readSecure s.ifId.rfReadEnableB

/-- `rf_rdata_a_fwd`. -/
def rfRdataAFwd : BitVec 32 :=
  if IdWb.rfRdWbMatch s.ifId.rfReadEnableA s.wb.rfWaddrWbQ && s.wb.rfWriteWb then
    s.wb.rfWdataWbQ
  else s.rfRdataA

/-- `rf_rdata_b_fwd`. -/
def rfRdataBFwd : BitVec 32 :=
  if IdWb.rfRdWbMatch s.ifId.rfReadEnableB s.wb.rfWaddrWbQ && s.wb.rfWriteWb then
    s.wb.rfWdataWbQ
  else s.rfRdataB

/-! ### The wires -/

/-- The main decode of the instruction in ID. -/
def main : MainOut :=
  mainDecode cfg (s.ifId.instrValidId && s.idFsm == .firstCycle) s.ifId.illegalCInsnId
    s.ifId.instrRdataId

/-- The inputs of the LSU with the request `lsuReq`. -/
def lsuIn (lsuReq : Bool) : LsuIn where
  lsuReq := lsuReq
  lsuWe := (main cfg s).dataWe
  lsuType := (main cfg s).dataType
  lsuSignExt := (main cfg s).dataSignExtension
  lsuWdata := s.rfRdataBFwd
  adderResultEx := x.adderResultEx
  dataGnt := x.dataGnt
  dataRvalid := x.dataRvalid
  dataErr := x.dataErr
  dataPmpErr := x.dataPmpErr
  dataRdata := x.dataRdata

/-- `lsu_resp_valid_o`; the responses do not depend on the request of the cycle. -/
def lsuValid : Bool := s.lsu.lsuRespValid (lsuIn cfg s x false)

/-- `load_err_o` of the LSU. -/
def loadErr : Bool := s.lsu.loadErr (lsuIn cfg s x false)

/-- `store_err_o` of the LSU. -/
def storeErr : Bool := s.lsu.storeErr (lsuIn cfg s x false)

/-- `illegal_csr_insn_o` of the CSRs. -/
def illegalCsrInsn : Bool := (main cfg s).csrAccess && x.illegalCsr

/-- The inputs of the controller ahead of the answer of ID. -/
def ctrlDec : CtrlDec where
  fetchEnable := x.fetchEnable
  instrValid := s.ifId.instrValidId
  instrFetchErr := s.instrFetchErrId
  instrFetchErrPlus2 := s.instrFetchErrPlus2Id
  instr := s.ifId.instrRdataId
  instrCompressed := s.instrRdataCId
  instrIsCompressed := s.ifId.instrIsCompressedId
  pcId := s.pcId
  illegalInsn := s.ifId.instrValidId && ((main cfg s).illegalInsn || illegalCsrInsn cfg s x)
  ecallInsn := (main cfg s).ecallInsn
  mretInsn := (main cfg s).mretInsn
  dretInsn := (main cfg s).dretInsn
  wfiInsn := (main cfg s).wfiInsn
  ebrkInsn := (main cfg s).ebrkInsn
  lsuAddrLast := s.lsu.addrLastQ
  loadErr := loadErr cfg s x
  storeErr := storeErr cfg s x
  csrMstatusMie := x.csrMstatusMie
  irqPending := x.irqPending
  irqs := x.irqs
  irqNm := x.irqNm
  debugReq := x.debugReq
  debugSingleStep := x.debugSingleStep
  debugEbreakm := x.debugEbreakm
  debugEbreaku := x.debugEbreaku
  triggerMatch := x.triggerMatch
  privMode := x.privMode
  csrMstatusTw := x.csrMstatusTw

/-- `flush_id`. -/
def flushId : Bool := s.ctrl.flushId (ctrlDec cfg s x)

/-- `wb_exception_o`. -/
def wbException : Bool :=
  s.ctrl.loadErrQ || s.ctrl.storeErrQ || loadErr cfg s x || storeErr cfg s x

/-- The inputs of the ID-EX machine. -/
def idIn : IdWbIn where
  instrValid := s.ifId.instrValidId
  instr := s.ifId.instrRdataId
  illegalCInsn := s.ifId.illegalCInsnId
  instrFetchErr := s.instrFetchErrId
  controllerRun := s.ctrl.controllerRun
  flushId := flushId cfg s x
  exValid := x.exValid
  branchDecision := x.branchDecision
  branchTaken := x.branchTaken
  dataIndTiming := x.dataIndTiming
  lsuValid := lsuValid cfg s x
  lsuBusy := s.lsu.busy
  illegalCsrInsn := illegalCsrInsn cfg s x
  wbException := wbException cfg s x
  outstandingLoadWb := s.wb.outstandingLoadWb
  outstandingStoreWb := s.wb.outstandingStoreWb
  lsuLoad := !s.lsu.dataWeQ
  rfWriteWb := s.wb.rfWriteWb
  rfWaddrWb := s.wb.rfWaddrWbQ
  rfReadEnableA := s.ifId.rfReadEnableA
  rfReadEnableB := s.ifId.rfReadEnableB
  readyWb := s.wb.readyWb (lsuValid cfg s x)

/-- `instr_executing`. -/
def instrExecuting : Bool := IdWb.instrExecuting cfg s.idFsm (idIn cfg s x)

/-- `lsu_req_o`. -/
def lsuReq : Bool := IdWb.lsuReq cfg s.idFsm s.dataReqCompleteQ (idIn cfg s x)

/-- `lsu_req_done_o`. -/
def lsuReqDone : Bool := s.lsu.lsuReqDone (lsuIn cfg s x (lsuReq cfg s x))

/-- The answer of the ID-EX machine. -/
def idOut : IdFsmOut :=
  IdWb.fsmOut cfg s.idFsm s.dataReqCompleteQ (idIn cfg s x) (lsuReqDone cfg s x)

/-- `stall_id`. -/
def stallId : Bool :=
  IdWb.stallId cfg s.idFsm s.dataReqCompleteQ (idIn cfg s x) (lsuReqDone cfg s x)

/-- `stall_wb`. -/
def stallWb : Bool :=
  IdWb.stallWb cfg s.idFsm s.dataReqCompleteQ (idIn cfg s x) (lsuReqDone cfg s x)

/-- `en_wb`. -/
def enWb : Bool :=
  IdWb.instrDone cfg s.idFsm s.dataReqCompleteQ (idIn cfg s x) (lsuReqDone cfg s x)

/-- `csr_op_en_o`. -/
def csrOpEn : Bool :=
  IdWb.csrOpEn cfg s.idFsm s.dataReqCompleteQ (idIn cfg s x) (lsuReqDone cfg s x)

/-- `branch_set`. -/
def branchSet : Bool :=
  if cfg.branchTargetALU && !x.dataIndTiming then (idOut cfg s x).branchSetD else s.branchSetQ

/-- `csr_pipe_flush`. -/
def csrPipeFlush : Bool :=
  let op := csrOperandCheck (main cfg s) s.ifId.instrRdataId
  let addr := funct12 s.ifId.instrRdataId
  if csrOpEn cfg s x && (op == .write || op == .set) then addr == 0x300#12 || addr == 0x304#12
  else if csrOpEn cfg s x && op != .read then
    addr == 0x7b0#12 || addr == 0x7b1#12 || addr == 0x7b2#12 || addr == 0x7b3#12
  else false

/-- The inputs of the controller. -/
def ctrlIn : CtrlIn where
  toCtrlDec := ctrlDec cfg s x
  csrPipeFlush := csrPipeFlush cfg s x
  branchSet := branchSet cfg s x
  jumpSet := (idOut cfg s x).jumpSet
  stall := stallId cfg s x || stallWb cfg s x

/-- The outputs of the controller, but for the choice of the PC that is saved. -/
def ctrlOut : CtrlOut := s.ctrl.out (ctrlIn cfg s x)

/-- The inputs of the pipeline registers. -/
def ifIdIn : IfIdIn where
  fetchValid := x.fetchValid
  fetchRdata := x.fetchRdata
  pcSet := (ctrlOut cfg s x).pcSet
  stall := stallId cfg s x || stallWb cfg s x
  haltIf := (ctrlOut cfg s x).haltIf
  flushId := flushId cfg s x

/-- The inputs of the write-back stage. -/
def wbIn : WbIn where
  enWb := enWb cfg s x
  instrTypeWb := IdWb.instrTypeWb cfg s.idFsm (idIn cfg s x)
  pcId := s.pcId
  rfWaddrId := rfWaddr s.ifId.instrRdataId
  rfWdataId := x.rfWdataId
  rfWeId := IdWb.rfWeId cfg s.idFsm s.dataReqCompleteQ (idIn cfg s x) (lsuReqDone cfg s x)
  rfWdataLsu := s.lsu.lsuRdata (lsuIn cfg s x false)
  rfWeLsu := s.lsu.lsuRdataValid (lsuIn cfg s x false)
  lsuDataValid := lsuValid cfg s x

/-- The register file with the write of the write-back stage. -/
def rfNext : RegisterFile :=
  s.rf.write (s.wb.rfWeWb (wbIn cfg s x)) s.wb.rfWaddrWbQ (s.wb.rfWdataWb (wbIn cfg s x))

/-- The step of the LSU. -/
def lsuStep : LsuStep := s.lsu.step (lsuIn cfg s x (lsuReq cfg s x))

/-- `data_req_o`; a request against the PMP does not reach the bus. -/
def dataReq : Bool := (lsuStep cfg s x).dataReq && !x.dataPmpErr

/-- One clock edge. -/
def next : WbCore :=
  let load {α : Type} (new old : α) : α := if (ifIdIn cfg s x).instrNewId then new else old
  { ctrl := s.ctrl.next (ctrlIn cfg s x)
    idFsm := (idOut cfg s x).idFsmD
    branchSetQ := (idOut cfg s x).branchSetD
    dataReqCompleteQ :=
      IdWb.dataReqCompleteD cfg s.idFsm s.dataReqCompleteQ (idIn cfg s x) (lsuReqDone cfg s x)
    ifId := s.ifId.next (ifIdIn cfg s x)
    instrFetchErrId := load x.fetchErr s.instrFetchErrId
    instrFetchErrPlus2Id := load x.fetchErrPlus2 s.instrFetchErrPlus2Id
    instrRdataCId := load (x.fetchRdata.extractLsb' 0 16) s.instrRdataCId
    pcId := load x.fetchAddr s.pcId
    lsu := s.lsu.next (lsuIn cfg s x (lsuReq cfg s x))
    wb := s.wb.next (wbIn cfg s x)
    rf := rfNext cfg s x }

end WbCore

end CocoIbex
