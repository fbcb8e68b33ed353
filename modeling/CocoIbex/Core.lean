import CocoIbex.Controller
import CocoIbex.IdStage
import CocoIbex.IfId
import CocoIbex.LoadStoreUnit

/-!
# The Two-Stage Core

The machines that decide when an instruction executes and when it leaves, wired as in
`ibex_core` and `ibex_id_stage` without a write-back stage: the IF-ID pipeline registers, the
ID-EX machine, the controller and the LSU. The fetch port, the data bus, EX, the CSRs and the
requests from outside are inputs. A count of the granted and unanswered data requests goes along
for the statement of the bus protocol.

The wires between the machines are functions of the state and of the inputs, in the order in
which they settle within a cycle: `idOut` looks at what the controller says of a cycle without
knowing whether the instruction executes, `ctrlOut` at the requests of ID, and `next` at both.
Each is written down once, so that a loop between two units of the source would show here as a
definition that does not terminate.

`BusOk` is the assumption of the source on the data bus: an answer comes only for a request that
has been granted and not answered.

No result is stated in this module; the steps of the core are in `CoreStep`.
-/

namespace CocoIbex

/-- The registers of the core. -/
structure Core where
  ctrl : Ctrl
  idFsm : IdFsm
  branchSetQ : Bool
  ifId : IfIdReg
  instrFetchErrId : Bool
  instrFetchErrPlus2Id : Bool
  instrRdataCId : BitVec 16
  pcId : BitVec 32
  lsu : Lsu
  /-- granted data requests that are not answered; not a register of the core -/
  outstanding : ℕ
  deriving DecidableEq

/-- What the core sees in one cycle. -/
structure CoreIn where
  fetchEnable : Bool
  -- the fetch port
  fetchValid : Bool
  fetchRdata : BitVec 32
  fetchAddr : BitVec 32
  fetchErr : Bool
  fetchErrPlus2 : Bool
  -- EX
  exValid : Bool
  branchDecision : Bool
  branchTaken : Bool
  adderResultEx : BitVec 32
  lsuWdata : BitVec 32
  -- the data bus, and the PMP verdict on the data request
  dataGnt : Bool
  dataRvalid : Bool
  dataErr : Bool
  dataPmpErr : Bool
  dataRdata : BitVec 32
  -- the CSRs; `illegalCsr` is the verdict on a CSR access
  dataIndTiming : Bool
  illegalCsr : Bool
  csrMstatusMie : Bool
  irqPending : Bool
  irqs : Irqs
  debugSingleStep : Bool
  debugEbreakm : Bool
  debugEbreaku : Bool
  triggerMatch : Bool
  privMode : PrivLvl
  csrMstatusTw : Bool
  -- requests from outside
  irqNm : Bool
  debugReq : Bool
  deriving DecidableEq

namespace Core

/-- The registers after a reset. -/
def reset : Core where
  ctrl := .reset
  idFsm := .firstCycle
  branchSetQ := false
  ifId := .reset
  instrFetchErrId := false
  instrFetchErrPlus2Id := false
  instrRdataCId := 0#16
  pcId := 0#32
  lsu := .reset
  outstanding := 0

variable (cfg : Config) (s : Core) (x : CoreIn)

/-! ### The wires -/

/-- The main decode of the instruction in ID. -/
def main : MainOut :=
  mainDecode cfg (s.ifId.instrValidId && s.idFsm == .firstCycle) s.ifId.illegalCInsnId
    s.ifId.instrRdataId

/-- The inputs of the LSU with the request `lsuReq`. -/
def lsuIn (lsuReq : Bool) : LsuIn where
  lsuReq := lsuReq
  lsuWe := (main cfg s).dataWe
  lsuType := (main cfg s).dataType
  lsuSignExt := (main cfg s).dataSignExtension
  lsuWdata := x.lsuWdata
  adderResultEx := x.adderResultEx
  dataGnt := x.dataGnt
  dataRvalid := x.dataRvalid
  dataErr := x.dataErr
  dataPmpErr := x.dataPmpErr
  dataRdata := x.dataRdata

/-- `lsu_resp_valid_o`; the responses do not depend on the request of the cycle. -/
def lsuValid : Bool := s.lsu.lsuRespValid (lsuIn cfg s x false)

/-- `illegal_csr_insn_o` of the CSRs. -/
def illegalCsrInsn : Bool := (main cfg s).csrAccess && x.illegalCsr

/-- The inputs of the controller ahead of the answer of ID. -/
def ctrlDec : CtrlDec where
  fetchEnable := x.fetchEnable
  instrValid := s.ifId.instrValidId
  instrFetchErr := s.instrFetchErrId
  instrFetchErrPlus2 := s.instrFetchErrPlus2Id
  instr := s.ifId.instrRdataId
  instrCompressed := s.instrRdataCId
  instrIsCompressed := s.ifId.instrIsCompressedId
  pcId := s.pcId
  illegalInsn := s.ifId.instrValidId && ((main cfg s).illegalInsn || illegalCsrInsn cfg s x)
  ecallInsn := (main cfg s).ecallInsn
  mretInsn := (main cfg s).mretInsn
  dretInsn := (main cfg s).dretInsn
  wfiInsn := (main cfg s).wfiInsn
  ebrkInsn := (main cfg s).ebrkInsn
  lsuAddrLast := s.lsu.addrLastQ
  loadErr := s.lsu.loadErr (lsuIn cfg s x false)
  storeErr := s.lsu.storeErr (lsuIn cfg s x false)
  csrMstatusMie := x.csrMstatusMie
  irqPending := x.irqPending
  irqs := x.irqs
  irqNm := x.irqNm
  debugReq := x.debugReq
  debugSingleStep := x.debugSingleStep
  debugEbreakm := x.debugEbreakm
  debugEbreaku := x.debugEbreaku
  triggerMatch := x.triggerMatch
  privMode := x.privMode
  csrMstatusTw := x.csrMstatusTw

/-- `flush_id`. -/
def flushId : Bool := s.ctrl.flushId (ctrlDec cfg s x)

/-- The inputs of the ID-EX machine. -/
def idIn : IdIn where
  instrValid := s.ifId.instrValidId
  instr := s.ifId.instrRdataId
  illegalCInsn := s.ifId.illegalCInsnId
  instrFetchErr := s.instrFetchErrId
  controllerRun := s.ctrl.controllerRun
  flushId := flushId cfg s x
  exValid := x.exValid
  branchDecision := x.branchDecision
  branchTaken := x.branchTaken
  dataIndTiming := x.dataIndTiming
  lsuValid := lsuValid cfg s x
  lsuBusy := s.lsu.busy
  illegalCsrInsn := illegalCsrInsn cfg s x

/-- The answer of the ID-EX machine. -/
def idOut : IdFsmOut := IdStage.fsmOut cfg s.idFsm (idIn cfg s x)

/-- `stall_id`. -/
def stallId : Bool := IdStage.stallId cfg s.idFsm (idIn cfg s x)

/-- `instr_id_done_o`. -/
def instrIdDone : Bool := IdStage.instrDone cfg s.idFsm (idIn cfg s x)

/-- `lsu_req_o`. -/
def lsuReq : Bool := IdStage.lsuReq cfg s.idFsm (idIn cfg s x)

/-- `csr_op_en_o`. -/
def csrOpEn : Bool := IdStage.csrOpEn cfg s.idFsm (idIn cfg s x)

/-- `branch_set`: direct with the branch target ALU, else one cycle later. Without
`DataIndTiming` the input `data_ind_timing_i` is low. -/
def branchSet : Bool :=
  if cfg.branchTargetALU && !x.dataIndTiming then (idOut cfg s x).branchSetD else s.branchSetQ

/-- `csr_pipe_flush`: a write to `mstatus` or `mie`, or a change of a debug CSR. -/
def csrPipeFlush : Bool :=
  let op := csrOperandCheck (main cfg s) s.ifId.instrRdataId
  let addr := funct12 s.ifId.instrRdataId
  if csrOpEn cfg s x && (op == .write || op == .set) then addr == 0x300#12 || addr == 0x304#12
  else if csrOpEn cfg s x && op != .read then
    addr == 0x7b0#12 || addr == 0x7b1#12 || addr == 0x7b2#12 || addr == 0x7b3#12
  else false

/-- The inputs of the controller. -/
def ctrlIn : CtrlIn where
  toCtrlDec := ctrlDec cfg s x
  csrPipeFlush := csrPipeFlush cfg s x
  branchSet := branchSet cfg s x
  jumpSet := (idOut cfg s x).jumpSet
  stall := stallId cfg s x

/-- The outputs of the controller. -/
def ctrlOut : CtrlOut := s.ctrl.out (ctrlIn cfg s x)

/-- The inputs of the pipeline registers. -/
def ifIdIn : IfIdIn where
  fetchValid := x.fetchValid
  fetchRdata := x.fetchRdata
  pcSet := (ctrlOut cfg s x).pcSet
  stall := stallId cfg s x
  haltIf := (ctrlOut cfg s x).haltIf
  flushId := flushId cfg s x

/-- The step of the LSU. -/
def lsuStep : LsuStep := s.lsu.step (lsuIn cfg s x (lsuReq cfg s x))

/-- `data_req_o`; a request against the PMP does not reach the bus. -/
def dataReq : Bool := (lsuStep cfg s x).dataReq && !x.dataPmpErr

/-- One clock edge. -/
def next : Core :=
  let load {α : Type} (new old : α) : α := if (ifIdIn cfg s x).instrNewId then new else old
  { ctrl := s.ctrl.next (ctrlIn cfg s x)
    idFsm := (idOut cfg s x).idFsmD
    branchSetQ := (idOut cfg s x).branchSetD
    ifId := s.ifId.next (ifIdIn cfg s x)
    instrFetchErrId := load x.fetchErr s.instrFetchErrId
    instrFetchErrPlus2Id := load x.fetchErrPlus2 s.instrFetchErrPlus2Id
    instrRdataCId := load (x.fetchRdata.extractLsb' 0 16) s.instrRdataCId
    pcId := load x.fetchAddr s.pcId
    lsu := s.lsu.next (lsuIn cfg s x (lsuReq cfg s x))
    outstanding := s.outstanding + x.dataGnt.toNat - x.dataRvalid.toNat }

/-! ### The bus -/

/-- The data bus keeps to the protocol: a grant answers a request, a response a granted
request of an earlier cycle. The PMP verdict on a request that waits for its grant, or for
the response to the first part, does not change. -/
structure BusOk : Prop where
  gnt : x.dataGnt = true → dataReq cfg s x = true
  rvalid : x.dataRvalid = true → s.outstanding ≠ 0
  pmpWait : s.lsu.lsFsm = .waitGnt ∨ s.lsu.lsFsm = .waitGntMis → x.dataPmpErr = s.lsu.pmpErrQ
  pmpGranted : s.lsu.lsFsm = .waitRvalidMisGntsDone → x.dataPmpErr = false

/-- The bus keeps to its protocol or not within one cycle. -/
instance : Decidable (BusOk cfg s x) :=
  decidable_of_iff
    ((x.dataGnt = true → dataReq cfg s x = true) ∧ (x.dataRvalid = true → s.outstanding ≠ 0) ∧
      (s.lsu.lsFsm = .waitGnt ∨ s.lsu.lsFsm = .waitGntMis → x.dataPmpErr = s.lsu.pmpErrQ) ∧
      (s.lsu.lsFsm = .waitRvalidMisGntsDone → x.dataPmpErr = false))
    ⟨fun h => ⟨h.1, h.2.1, h.2.2.1, h.2.2.2⟩, fun h => ⟨h.gnt, h.rvalid, h.pmpWait, h.pmpGranted⟩⟩

end Core

end CocoIbex
