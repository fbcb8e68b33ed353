import CocoIbex.AluSpec
import CocoIbex.ArchHart
import CocoIbex.Datapath
import CocoIbex.PerfEvents
import CocoIbex.PmpLock

/-!
# The Whole Hart

`ibex_core` without a write-back stage, but for the fetch unit: the hart with its counters and
its register file, and with EX and the PMP in the place of the inputs that stood for them. The
operands come from the register file, the results and the verdict on a data request go back to
the hart. The words that are fetched, the answers of the data bus and the requests from outside
are inputs.

The layers below were each verified with some units as inputs, over all values of these. Here
the inputs are computed from the state: `wired` and `archIn` are the inputs that the units
amount to in a cycle, so that a run of the whole hart is a run of each layer, and all that holds
there holds here. The masks of the secure builds are parameters, with one for each unit.

The order in which the signals settle is that of the source: operands, EX, the address of a data
request with its verdict, and then the core.

## Main results

* `decIn_main` — the decoders see what the ID-EX machine sees. The invariants of the hart are in
  `WholeMem` and `WholeRest`.
-/

namespace CocoIbex

/-- The parameters. A flag of a secure build is set where its macro is defined. -/
structure WholeParams extends ArchParams where
  regreadSecure : Bool
  mdSecure : Bool
  shiftSecure : Bool
  adderSecure : Bool
  deriving DecidableEq, Repr

/-- What the hart sees in one cycle. -/
structure WholeIn where
  fetchEnable : Bool
  -- the fetch port, but for the address
  fetchValid : Bool
  fetchRdata : BitVec 32
  fetchErr : Bool
  fetchErrPlus2 : Bool
  -- the data bus
  dataGnt : Bool
  dataRvalid : Bool
  dataErr : Bool
  dataRdata : BitVec 32
  -- constants
  hartId : BitVec 32
  bootAddr : BitVec 32
  -- requests from outside
  irqSoftware : Bool
  irqTimer : Bool
  irqExternal : Bool
  irqFast : BitVec 15
  irqNm : Bool
  debugReq : Bool
  deriving DecidableEq

/-- A cycle in which nothing comes from outside. -/
def WholeIn.idle : WholeIn where
  fetchEnable := true
  fetchValid := false
  fetchRdata := 0#32
  fetchErr := false
  fetchErrPlus2 := false
  dataGnt := false
  dataRvalid := false
  dataErr := false
  dataRdata := 0#32
  hartId := 0#32
  bootAddr := 0#32
  irqSoftware := false
  irqTimer := false
  irqExternal := false
  irqFast := 0#15
  irqNm := false
  debugReq := false

/-- A cycle in which the fetch unit has the word `w`. -/
def WholeIn.fetch (w : BitVec 32) : WholeIn :=
  { WholeIn.idle with fetchValid := true, fetchRdata := w }

/-- The registers, with `n` regions of the PMP and the multiplier `m`. -/
structure WholeHart (n : ℕ) (m : Multiplier) where
  arch : ArchHart n
  branchTakenQ : Bool
  ex : ExState m

/-- A small hart without the masks of the secure build. -/
def WholeParams.small : WholeParams :=
  { Hart.smallParams with
    mhpmCounterWidth := 40
    regwriteSecure := false
    regreadSecure := false
    mdSecure := false
    shiftSecure := false
    adderSecure := false }

namespace WholeHart

variable {n : ℕ} {m : Multiplier} (P : WholeParams) (h : WholeHart n m) (x : WholeIn)

/-- After a reset, with `a` in the fetch unit. -/
def reset (n : ℕ) (m : Multiplier) (a : BitVec 31) : WholeHart n m :=
  ⟨.reset n a, false, ExBlock.reset m⟩

/-- The core of the hart. -/
def core : Core := h.arch.obs.core

/-- The CSRs of the hart. -/
def csr : CsRegs n := h.arch.obs.csr

/-! ### EX -/

/-- `branch_taken`. -/
def branchTaken : Bool := !h.csr.dataIndTiming P.toCsrParams || h.branchTakenQ

/-- What the decoders see. They do not depend on the answers of EX, of the LSU and of the
CSRs in the cycle. -/
def decIn : IdIn where
  instrValid := h.core.ifId.instrValidId
  instr := h.core.ifId.instrRdataId
  illegalCInsn := h.core.ifId.illegalCInsnId
  instrFetchErr := h.core.instrFetchErrId
  controllerRun := h.core.ctrl.controllerRun
  flushId := false
  exValid := false
  branchDecision := false
  branchTaken := h.branchTaken P
  dataIndTiming := h.csr.dataIndTiming P.toCsrParams
  lsuValid := false
  lsuBusy := h.core.lsu.busy
  illegalCsrInsn := false

/-- The ALU decode of the instruction in ID. -/
def alu : AluOut := IdStage.alu P.cfg h.core.idFsm (h.decIn P)

/-- `rf_rdata_a`. -/
def rfRdataA : BitVec 32 :=
  if P.regreadSecure then h.arch.rf.readSecure h.core.ifId.rfReadEnableA
  else h.arch.rf.read (rfRaddrA P.cfg (IdStage.instrFirstCycle h.core.idFsm (h.decIn P))
    (h.branchTaken P) h.core.ifId.instrRdataId)

/-- `rf_rdata_b`. -/
def rfRdataB : BitVec 32 :=
  if P.regreadSecure then h.arch.rf.readSecure h.core.ifId.rfReadEnableB
  else h.arch.rf.read (rfRaddrB h.core.ifId.instrRdataId)

/-- The inputs of the operand muxes. -/
def operands : OperandIn where
  instr := h.core.ifId.instrRdataId
  instrIsCompressed := h.core.ifId.instrIsCompressedId
  pcId := h.core.pcId
  rfRdataA := h.rfRdataA P
  rfRdataB := h.rfRdataB P
  lsuAddrIncrReq := h.core.lsu.addrIncr
  lsuAddrLast := h.core.lsu.addrLastQ

/-- The inputs of EX. Without a write-back stage `multdiv_ready_id` is constantly set. -/
def exIn : ExIn :=
  let a := h.alu P
  let o := h.operands P
  { CocoIbex.exIn P.cfg h.core.ifId (!P.adderSecure || h.core.ifId.adderEnable) h.core.idFsm
      (h.decIn P)
      { aluOperandA := o.aluOperandA a
        aluOperandB := o.aluOperandB P.cfg a
        btAOperand := o.btAOperand P.cfg a
        btBOperand := o.btBOperand P.cfg a
        multdivOperandA := o.rfRdataA
        multdivOperandB := o.rfRdataB
        multdivReadyId := true } with
    mdEnable := !P.mdSecure || h.core.ifId.mdEnable
    shiftEnable := !P.shiftSecure || h.core.ifId.shiftEnable }

/-- The outputs of EX. -/
def exOut : ExOut := ExBlock.outputs P.cfg m h.ex (h.exIn P)

/-! ### The PMP -/

/-- `data_addr_o`. -/
def dataAddr : BitVec 32 := (h.exOut P).aluAdderResultEx.extractLsb 31 2 ++ 0b00#2

/-- The data request as the PMP sees it. -/
def dataAccess : Pmp.Access where
  priv := h.csr.privModeLsu
  type := if (Core.main P.cfg h.core).dataWe then .write else .read
  addr := 0#2 ++ h.dataAddr P

/-- `pmp_req_err[PMP_D]`. -/
def dataPmpErr : Bool :=
  P.pmpEnable && Pmp.pmpReqErr h.csr.pmpRegions P.pmpGranularity (h.dataAccess P)

/-! ### The hart -/

/-- The inputs of the hart, without the counters. -/
def hartIn : HartIn where
  fetchEnable := x.fetchEnable
  fetchValid := x.fetchValid
  fetchRdata := x.fetchRdata
  fetchErr := x.fetchErr
  fetchErrPlus2 := x.fetchErrPlus2
  exValid := (h.exOut P).exValid
  branchDecision := (h.exOut P).branchDecision
  branchTaken := h.branchTaken P
  branchTargetEx := (h.exOut P).branchTarget
  adderResultEx := (h.exOut P).aluAdderResultEx
  aluOperandAEx := (h.exIn P).aluOperandA
  lsuWdata := h.rfRdataB P
  dataGnt := x.dataGnt
  dataRvalid := x.dataRvalid
  dataErr := x.dataErr
  dataPmpErr := h.dataPmpErr P
  dataRdata := x.dataRdata
  hartId := x.hartId
  bootAddr := x.bootAddr
  perfRdata := 0#32
  irqSoftware := x.irqSoftware
  irqTimer := x.irqTimer
  irqExternal := x.irqExternal
  irqFast := x.irqFast
  irqNm := x.irqNm
  debugReq := x.debugReq

/-- The inputs of the hart with the read data of the counters. -/
def wired : HartIn := h.arch.wired P.toArchParams ⟨h.hartIn P x, .none, 0#32⟩

/-- The inputs of the hart with its register file and its counters. -/
def archIn : ArchIn where
  toHartIn := h.hartIn P x
  events := h.arch.obs.perfEvents P.toHartParams (h.wired P x)
  resultEx := (h.exOut P).resultEx

/-- The inputs of the core. -/
def coreIn : CoreIn := h.arch.obs.coreIn P.toHartParams (h.wired P x)

/-- One clock edge. -/
def next : WholeHart n m where
  arch := h.arch.next P.toArchParams (h.archIn P x)
  branchTakenQ := (h.exOut P).branchDecision
  ex := ExBlock.next P.cfg m h.ex (h.exIn P)

/-- The data bus answers each granted request once and in order: a grant answers a request,
a response a granted request of an earlier cycle. -/
structure BusOk : Prop where
  gnt : x.dataGnt = true → Core.dataReq P.cfg h.core (h.coreIn P x) = true
  rvalid : x.dataRvalid = true → h.core.outstanding ≠ 0

/-- The bus keeps to its protocol or not within one cycle. -/
instance : Decidable (BusOk P h x) :=
  decidable_of_iff
    ((x.dataGnt = true → Core.dataReq P.cfg h.core (h.coreIn P x) = true) ∧
      (x.dataRvalid = true → h.core.outstanding ≠ 0))
    ⟨fun h => ⟨h.1, h.2⟩, fun h => ⟨h.gnt, h.rvalid⟩⟩

variable {P h x}

/-! ### The parts -/

/-- The decoders see what the ID-EX machine sees. -/
theorem decIn_main :
    IdStage.main P.cfg h.core.idFsm (h.decIn P) = Core.main P.cfg h.core := rfl

/-- What EX and the CSRs answer does not enter what the decoders ask of them, so that the two can
be computed one after the other. -/
theorem decIn_lines :
    IdStage.alu P.cfg h.core.idFsm (h.arch.obs.idIn P.toHartParams (h.wired P x)) = h.alu P ∧
      IdStage.instrExecuting (h.arch.obs.idIn P.toHartParams (h.wired P x))
        = IdStage.instrExecuting (h.decIn P) := ⟨rfl, rfl⟩

end WholeHart

end CocoIbex
