import CocoIbex.CoreStep
import CocoIbex.FetchFifo
import CocoIbex.TrapUnit

/-!
# The Hart

The two-stage core with its CSRs and the address register of its fetch unit. The words that the
fetch unit hands over, the results of EX, the data bus and the requests from outside are inputs,
so a run of the hart is one of any program in any environment. The controller and the CSRs of
the hart are a trap unit (`trapUnit_next`), and the address register is that of the fetch FIFO
(`fifo_instrAddrQ_next`).

There is a loop of wires between the core and the CSRs: an access is illegal or not by the
verdict of the CSRs, which look at the access, and the core needs the verdict for its requests.
The loop is cut where the source has no path. Whether ID enables an access does not depend on
the verdict (`csrOpEn_coreIn`), so the CSRs are read first.

What is proved of the trap unit for all inputs holds of the hart, since the signals between the
two are those of the trap unit in every cycle.

## Main results

* `trapUnit_ctrlOut` and `trapUnit_next` — the hart steps as a trap unit;
* `fifo_instrAddrQ_next` — its address register steps as that of the fetch FIFO.
-/

namespace CocoIbex

/-- The parameters of the hart. -/
structure HartParams extends CsrParams where
  rv32b : Bool
  branchTargetALU : Bool
  csrSecure : Bool
  dmHaltAddr : BitVec 32
  dmExceptionAddr : BitVec 32
  deriving DecidableEq, Repr

/-- The parameters of the decoders. -/
def HartParams.cfg (P : HartParams) : Config := ⟨P.rv32m, P.rv32b, P.branchTargetALU⟩

/-- The parameters of the trap unit. -/
def HartParams.trap (P : HartParams) : TrapParams :=
  { P.toCsrParams with
    writebackStage := false
    dmHaltAddr := P.dmHaltAddr
    dmExceptionAddr := P.dmExceptionAddr }

/-- What the hart sees in one cycle. -/
structure HartIn where
  fetchEnable : Bool
  -- the fetch port, but for the address
  fetchValid : Bool
  fetchRdata : BitVec 32
  fetchErr : Bool
  fetchErrPlus2 : Bool
  -- EX, with the sum of the operands of the instruction
  exValid : Bool
  branchDecision : Bool
  branchTaken : Bool
  branchTargetEx : BitVec 32
  adderResultEx : BitVec 32
  aluOperandAEx : BitVec 32
  lsuWdata : BitVec 32
  -- the data bus, and the PMP verdict on the data request
  dataGnt : Bool
  dataRvalid : Bool
  dataErr : Bool
  dataPmpErr : Bool
  dataRdata : BitVec 32
  -- constants, and the read data of the counters
  hartId : BitVec 32
  bootAddr : BitVec 32
  perfRdata : BitVec 32
  -- requests from outside
  irqSoftware : Bool
  irqTimer : Bool
  irqExternal : Bool
  irqFast : BitVec 15
  irqNm : Bool
  debugReq : Bool
  deriving DecidableEq

/-- A cycle in which nothing comes from outside. -/
def HartIn.idle : HartIn where
  fetchEnable := true
  fetchValid := false
  fetchRdata := 0#32
  fetchErr := false
  fetchErrPlus2 := false
  exValid := true
  branchDecision := false
  branchTaken := false
  branchTargetEx := 0#32
  adderResultEx := 0#32
  aluOperandAEx := 0#32
  lsuWdata := 0#32
  dataGnt := false
  dataRvalid := false
  dataErr := false
  dataPmpErr := false
  dataRdata := 0#32
  hartId := 0#32
  bootAddr := 0#32
  perfRdata := 0#32
  irqSoftware := false
  irqTimer := false
  irqExternal := false
  irqFast := 0#15
  irqNm := false
  debugReq := false

/-- A cycle in which the fetch unit has the word `w`. -/
def HartIn.fetch (w : BitVec 32) : HartIn :=
  { HartIn.idle with fetchValid := true, fetchRdata := w }

/-- The registers of the hart. `fetchAddrQ` is the half-word address that the fetch unit
hands over next: `instr_addr_q` of the fetch FIFO, `output_addr_q` of the instruction
cache. It has no reset. -/
structure Hart (n : ℕ) where
  core : Core
  csr : CsRegs n
  fetchAddrQ : BitVec 31

namespace Hart

variable {n : ℕ} (P : HartParams) (h : Hart n) (x : HartIn)

/-- The registers after a reset, with `a` in the fetch unit. -/
def reset (n : ℕ) (a : BitVec 31) : Hart n := ⟨.reset, .reset n, a⟩

/-- `pc_if_o`. -/
def pcIf : BitVec 32 := h.fetchAddrQ ++ 0#1

/-! ### The wires -/

/-- The inputs of the CSRs but for the CSR instruction and the strobes of the controller. -/
def csrLines : CsRegsIn :=
  { CsRegsIn.idle with
    hartId := x.hartId
    bootAddr := x.bootAddr
    perfRdata := x.perfRdata
    irqSoftware := x.irqSoftware
    irqTimer := x.irqTimer
    irqExternal := x.irqExternal
    irqFast := x.irqFast
    debugMode := h.core.ctrl.debugModeQ
    pcIf := h.pcIf
    pcId := h.core.pcId }

/-- The inputs of the core, but for the verdict on a CSR access. -/
def coreLines : CoreIn where
  fetchEnable := x.fetchEnable
  fetchValid := x.fetchValid
  fetchRdata := x.fetchRdata
  fetchAddr := h.pcIf
  fetchErr := x.fetchErr
  fetchErrPlus2 := x.fetchErrPlus2
  exValid := x.exValid
  branchDecision := x.branchDecision
  branchTaken := x.branchTaken
  adderResultEx :=
    if h.core.lsu.addrIncr then h.core.lsu.addrLastQ + 4#32 else x.adderResultEx
  lsuWdata := x.lsuWdata
  dataGnt := x.dataGnt
  dataRvalid := x.dataRvalid
  dataErr := x.dataErr
  dataPmpErr := x.dataPmpErr
  dataRdata := x.dataRdata
  dataIndTiming := h.csr.dataIndTiming P.toCsrParams
  illegalCsr := false
  csrMstatusMie := h.csr.mstatus.mie
  irqPending := h.csr.irqPending (h.csrLines x)
  irqs := h.csr.irqs (h.csrLines x)
  debugSingleStep := h.csr.dcsr.step
  debugEbreakm := h.csr.dcsr.ebreakm
  debugEbreaku := h.csr.dcsr.ebreaku
  triggerMatch := h.csr.triggerMatch P.toCsrParams (h.csrLines x)
  privMode := h.csr.privLvl
  csrMstatusTw := h.csr.mstatus.tw
  irqNm := x.irqNm
  debugReq := x.debugReq

/-- The CSR instruction in ID as the CSRs see it. The secure build masks it with its
enable. `csr_op_en` does not depend on the verdict on the access. -/
def csrPort : CsRegsIn :=
  let m := Core.main P.cfg h.core
  let enabled := !P.csrSecure || h.core.ifId.csrEnable
  { h.csrLines x with
    csrAccess := m.csrAccess
    csrAddr := if m.csrAccess && enabled then funct12 h.core.ifId.instrRdataId else 0#12
    csrWdata := if enabled then x.aluOperandAEx else 0#32
    csrOp := csrOperandCheck m h.core.ifId.instrRdataId
    csrOpEn := Core.csrOpEn P.cfg h.core (h.coreLines P x) }

/-- `illegal_csr_insn_o`. -/
def illegalCsrInsn : Bool := h.csr.illegalCsrInsn P.toCsrParams (h.csrPort P x)

/-- The inputs of the core. -/
def coreIn : CoreIn := { h.coreLines P x with illegalCsr := h.illegalCsrInsn P x }

/-- The trap unit of the hart. -/
def trapUnit : TrapUnit n := ⟨h.core.ctrl, h.csr⟩

/-- The inputs of the trap unit. -/
def trapIn : TrapIn where
  ctrl := Core.ctrlIn P.cfg h.core (h.coreIn P x)
  csr := h.csrPort P x
  branchTargetEx := x.branchTargetEx

/-- The outputs of the controller. -/
def ctrlOut : CtrlOut := Core.ctrlOut P.cfg h.core (h.coreIn P x)

/-- The inputs of the CSRs. -/
def csrIn : CsRegsIn := h.trapUnit.csrIn P.trap (h.trapIn P x)

/-- `fetch_addr_n`. -/
def fetchAddrN : BitVec 32 := h.trapUnit.fetchAddrN P.trap (h.trapIn P x)

/-- `id_in_ready_o`. -/
def idInReady : Bool := h.core.ctrl.idInReady (Core.ctrlIn P.cfg h.core (h.coreIn P x))

/-- The address register of the fetch unit after a cycle. -/
def fetchAddrD : BitVec 31 :=
  if (h.ctrlOut P x).pcSet then (h.fetchAddrN P x).extractLsb' 1 31
  else if x.fetchValid && h.idInReady P x then
    h.fetchAddrQ + if isCompressed x.fetchRdata then 1#31 else 2#31
  else h.fetchAddrQ

/-- One clock edge. -/
def next : Hart n where
  core := Core.next P.cfg h.core (h.coreIn P x)
  csr := h.csr.next P.toCsrParams (h.csrIn P x)
  fetchAddrQ := h.fetchAddrD P x

variable {P h x}

/-! ### The parts -/

/-- The verdict on a CSR access does not enter the enable of the access, so that the CSRs can be
read before the verdict is there. -/
theorem csrOpEn_coreIn :
    Core.csrOpEn P.cfg h.core (h.coreIn P x) = Core.csrOpEn P.cfg h.core (h.coreLines P x) := by
  rfl

/-- The controller of the hart does what it does in the trap unit. -/
theorem trapUnit_ctrlOut : h.trapUnit.ctrlOut P.trap (h.trapIn P x) = h.ctrlOut P x := by
  rfl

/-- The controller and the CSRs of the hart step as a trap unit. -/
theorem trapUnit_next : (h.next P x).trapUnit = h.trapUnit.next P.trap (h.trapIn P x) := by
  rfl

/-- A run of the hart is one of its trap unit. -/
theorem trapUnit_run (h : Hart n) (ins : List HartIn) :
    ∃ ins', (Machine.run (next P) h ins).trapUnit
      = Machine.run (TrapUnit.next P.trap) h.trapUnit ins' := by
  induction ins generalizing h with
  | nil => exact ⟨[], rfl⟩
  | cons x ins ih =>
      obtain ⟨ins', hrun⟩ := ih (h.next P x)
      exact ⟨h.trapIn P x :: ins', hrun⟩

/-- The low bits of a word from two halves are those of its lower half. -/
theorem quadrant_append (a b : BitVec 16) : quadrant (a ++ b) = b.extractLsb' 0 2 :=
  BitVec.extractLsb'_append_eq_of_add_le (by decide)

/-- The address register follows the rule of the fetch FIFO. -/
theorem fifo_instrAddrQ_next (f : FetchFifo) (y : FifoIn) :
    (f.next y).instrAddrQ
      = if y.clear then y.inAddr.extractLsb' 1 31
        else if f.outValid y && y.outReady then
          f.instrAddrQ + if isCompressed (f.out y).rdata then 1#31 else 2#31
        else f.instrAddrQ := by
  have hincr : f.addrIncrTwo y = isCompressed (f.out y).rdata := by
    simp only [FetchFifo.addrIncrTwo, FetchFifo.out, isCompressed]
    split_ifs with hu
    · have hupper := isCompressedHalf_upper (f.head y).rdata
      simp only [isCompressedHalf, halfOf, if_pos] at hupper
      simp only [FetchFifo.unalignedIsCompressed, FetchFifo.rdataUnaligned, ← hupper]
      split_ifs <;> rw [quadrant_append]
    · rfl
  simp only [FetchFifo.next, hincr]
  cases y.clear <;> cases y.outReady <;> cases f.outValid y <;> rfl

/-- The parameters of a small hart with the hardware trigger. -/
def smallParams : HartParams :=
  { dbgTriggerEn := true
    dataIndTiming := false
    icache := false
    mhpmCounterNum := 10
    pmpEnable := false
    pmpGranularity := 0
    rv32e := false
    rv32m := true
    rv32b := false
    branchTargetALU := false
    csrSecure := true
    dmHaltAddr := 0x800#32
    dmExceptionAddr := 0x808#32 }

end Hart

end CocoIbex
