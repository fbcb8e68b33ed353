import CocoIbex.Hart
import CocoIbex.WbCore

/-!
# The Three-Stage Hart

The three-stage core with its CSRs. The address that the fetch unit hands over and the result of
EX are inputs, besides those of the two-stage hart. The controller and the CSRs are a trap unit
here too (`trapUnit_next`); the PC of a load or store that failed is saved from the write-back
stage.

The CSRs are wired to the core as in the two-stage hart, and the loop over the verdict on an
access is cut in the same place (`csrOpEn_coreIn`). The parameters are those of the two-stage
hart as well, with one more in the trap unit, which says that the PC of the write-back stage is
saved for an error from there (`HartParams.trapWb`).

## Main results

* `csrOpEn_coreIn` — the verdict on a CSR access does not enter the enable of the access;
* `trapUnit_next` — the controller and the CSRs of the hart step as a trap unit.
-/

namespace CocoIbex

/-- The parameters of the trap unit with the write-back stage. -/
def HartParams.trapWb (P : HartParams) : TrapParams := { P.trap with writebackStage := true }

/-- What the hart sees in one cycle. -/
structure WbHartIn extends HartIn where
  fetchAddr : BitVec 32
  rfWdataId : BitVec 32
  deriving DecidableEq

/-- A cycle in which nothing comes from outside. -/
def WbHartIn.idle : WbHartIn := ⟨.idle, 0#32, 0#32⟩

/-- A cycle in which the fetch unit has the word `w` of the address `a`. -/
def WbHartIn.fetch (a w : BitVec 32) : WbHartIn := ⟨.fetch w, a, 0#32⟩

/-- The registers of the hart. -/
structure WbHart (n : ℕ) where
  core : WbCore
  csr : CsRegs n

namespace WbHart

variable {n : ℕ} (P : HartParams) (h : WbHart n) (x : WbHartIn)

/-- The registers after a reset. -/
def reset (n : ℕ) : WbHart n := ⟨.reset, .reset n⟩

/-! ### The wires -/

/-- The inputs of the CSRs but for the CSR instruction and the strobes of the controller. -/
def csrLines : CsRegsIn :=
  { CsRegsIn.idle with
    hartId := x.hartId
    bootAddr := x.bootAddr
    perfRdata := x.perfRdata
    irqSoftware := x.irqSoftware
    irqTimer := x.irqTimer
    irqExternal := x.irqExternal
    irqFast := x.irqFast
    debugMode := h.core.ctrl.debugModeQ
    pcIf := x.fetchAddr
    pcId := h.core.pcId
    pcWb := h.core.wb.wbPcQ }

/-- The inputs of the core, but for the verdict on a CSR access. -/
def coreLines : WbCoreIn where
  fetchEnable := x.fetchEnable
  fetchValid := x.fetchValid
  fetchRdata := x.fetchRdata
  fetchAddr := x.fetchAddr
  fetchErr := x.fetchErr
  fetchErrPlus2 := x.fetchErrPlus2
  exValid := x.exValid
  branchDecision := x.branchDecision
  branchTaken := x.branchTaken
  adderResultEx :=
    if h.core.lsu.addrIncr then h.core.lsu.addrLastQ + 4#32 else x.adderResultEx
  lsuWdata := x.lsuWdata
  dataGnt := x.dataGnt
  dataRvalid := x.dataRvalid
  dataErr := x.dataErr
  dataPmpErr := x.dataPmpErr
  dataRdata := x.dataRdata
  dataIndTiming := h.csr.dataIndTiming P.toCsrParams
  illegalCsr := false
  csrMstatusMie := h.csr.mstatus.mie
  irqPending := h.csr.irqPending (h.csrLines x)
  irqs := h.csr.irqs (h.csrLines x)
  debugSingleStep := h.csr.dcsr.step
  debugEbreakm := h.csr.dcsr.ebreakm
  debugEbreaku := h.csr.dcsr.ebreaku
  triggerMatch := h.csr.triggerMatch P.toCsrParams (h.csrLines x)
  privMode := h.csr.privLvl
  csrMstatusTw := h.csr.mstatus.tw
  irqNm := x.irqNm
  debugReq := x.debugReq
  rfWdataId := x.rfWdataId

/-- The CSR instruction in ID as the CSRs see it. -/
def csrPort : CsRegsIn :=
  let m := WbCore.main P.cfg h.core
  let enabled := !P.csrSecure || h.core.ifId.csrEnable
  { h.csrLines x with
    csrAccess := m.csrAccess
    csrAddr := if m.csrAccess && enabled then funct12 h.core.ifId.instrRdataId else 0#12
    csrWdata := if enabled then x.aluOperandAEx else 0#32
    csrOp := csrOperandCheck m h.core.ifId.instrRdataId
    csrOpEn := WbCore.csrOpEn P.cfg h.core (h.coreLines P x) }

/-- `illegal_csr_insn_o`. -/
def illegalCsrInsn : Bool := h.csr.illegalCsrInsn P.toCsrParams (h.csrPort P x)

/-- The inputs of the core. -/
def coreIn : WbCoreIn := { h.coreLines P x with illegalCsr := h.illegalCsrInsn P x }

/-- The trap unit of the hart. -/
def trapUnit : TrapUnit n := ⟨h.core.ctrl, h.csr⟩

/-- The inputs of the trap unit. -/
def trapIn : TrapIn where
  ctrl := WbCore.ctrlIn P.cfg h.core (h.coreIn P x)
  csr := h.csrPort P x
  branchTargetEx := x.branchTargetEx

/-- The inputs of the CSRs. -/
def csrIn : CsRegsIn := h.trapUnit.csrIn P.trapWb (h.trapIn P x)

/-- One clock edge. -/
def next : WbHart n where
  core := WbCore.next P.cfg h.core (h.coreIn P x)
  csr := h.csr.next P.toCsrParams (h.csrIn P x)

variable {P h x}

/-- The verdict on a CSR access does not enter the enable of the access, so that the CSRs can be
read before the verdict is there. -/
theorem csrOpEn_coreIn :
    WbCore.csrOpEn P.cfg h.core (h.coreIn P x) = WbCore.csrOpEn P.cfg h.core (h.coreLines P x) := by
  rfl

/-- The controller and the CSRs of the hart step as a trap unit. -/
theorem trapUnit_next : (h.next P x).trapUnit = h.trapUnit.next P.trapWb (h.trapIn P x) := by
  rfl

end WbHart

end CocoIbex
