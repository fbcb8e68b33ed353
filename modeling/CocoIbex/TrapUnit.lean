import CocoIbex.Controller
import CocoIbex.CsRegisters

/-!
# The Trap Unit

The controller and the CSRs, wired as in `ibex_core`, with the fetch address multiplexer of
`ibex_if_stage`. The controller decides on traps from the CSRs, and strobes the CSRs when it
takes one. All other signals are inputs: the instruction in ID, the LSU errors, the CSR
instruction, the fetch address and the requests from outside. The pipeline with the write-back
stage saves the PC of another stage in `FLUSH`; that is the only difference of its controller.

Each event of a trap is a predicate on the state and the input of one cycle: an entry, an MRET,
a DRET, a debug entry, a CSR write. The lemmas say in which state of the controller each of them
happens and what it strobes, so that an invariant on the trap registers is shown event by event
and not state by state. Both harts contain a trap unit, and what is proved here for all inputs
is proved for them.

## Main results

* `flushOut_eq` — `FLUSH`, with the next state that an entry to debug mode may replace;
* `out_csrSaveCause`, `out_csrRestoreMretId`, `out_csrRestoreDretId` and `out_debugModeD` — when
  the registers are strobed;
* `of_flush` and `flushExc_of_raised` — an exception that is raised in `DECODE` is taken in
  `FLUSH` one cycle later.
-/

namespace CocoIbex

/-- The parameters of the trap unit. -/
structure TrapParams extends CsrParams where
  writebackStage : Bool
  dmHaltAddr : BitVec 32
  dmExceptionAddr : BitVec 32
  deriving DecidableEq, Repr

/-- The inputs of one cycle. What the CSRs drive of `ctrl`, and what the controller drives
of `csr`, is replaced. -/
structure TrapIn where
  ctrl : CtrlIn
  csr : CsRegsIn
  branchTargetEx : BitVec 32
  deriving DecidableEq

/-- A cycle in which ID holds no instruction. -/
def CtrlIn.idle : CtrlIn where
  fetchEnable := true
  instrValid := false
  instrFetchErr := false
  instrFetchErrPlus2 := false
  instr := 0#32
  instrCompressed := 0#16
  instrIsCompressed := false
  pcId := 0#32
  illegalInsn := false
  ecallInsn := false
  mretInsn := false
  dretInsn := false
  wfiInsn := false
  ebrkInsn := false
  lsuAddrLast := 0#32
  loadErr := false
  storeErr := false
  csrMstatusMie := false
  irqPending := false
  irqs := ⟨false, false, false, 0#15⟩
  irqNm := false
  debugReq := false
  debugSingleStep := false
  debugEbreakm := false
  debugEbreaku := false
  triggerMatch := false
  privMode := .m
  csrMstatusTw := false
  csrPipeFlush := false
  branchSet := false
  jumpSet := false
  stall := false

/-- A cycle in which the trap unit is asked for nothing. -/
def TrapIn.idle : TrapIn := ⟨.idle, .idle, 0#32⟩

/-- The registers of the trap unit. -/
structure TrapUnit (n : ℕ) where
  ctrl : Ctrl
  csr : CsRegs n

namespace Ctrl

variable (s : Ctrl) (y : CtrlIn)

/-- An exception is taken in `FLUSH`, or an ebreak goes on to debug mode. -/
def flushExc : Bool := s.ctrlFsm == .flush && (s.excReqQ || s.storeErrQ || s.loadErrQ)

/-- `csr_save_id_o`. With the write-back stage the PC of an instruction that failed there
is saved from there. -/
def csrSaveId (wb : Bool) : Bool :=
  if wb && flushExc s then
    !(s.storeErrQ || s.loadErrQ) && !ebreakDebug s y.toCtrlDec
  else (out s y).csrSaveId

/-- `csr_save_wb_o`. -/
def csrSaveWb (wb : Bool) : Bool := wb && flushExc s && (s.storeErrQ || s.loadErrQ)

end Ctrl

namespace TrapUnit

variable {n : ℕ} (P : TrapParams) (s : TrapUnit n) (x : TrapIn)

/-- The registers after a reset. -/
def reset (n : ℕ) : TrapUnit n := ⟨.reset, .reset n⟩

/-! ### The wires -/

/-- The inputs of the controller. -/
def ctrlIn : CtrlIn :=
  { x.ctrl with
    csrMstatusMie := s.csr.mstatus.mie
    irqPending := s.csr.irqPending x.csr
    irqs := s.csr.irqs x.csr
    debugSingleStep := s.csr.dcsr.step
    debugEbreakm := s.csr.dcsr.ebreakm
    debugEbreaku := s.csr.dcsr.ebreaku
    triggerMatch := s.csr.triggerMatch P.toCsrParams x.csr
    privMode := s.csr.privLvl
    csrMstatusTw := s.csr.mstatus.tw }

/-- The outputs of the controller. -/
def ctrlOut : CtrlOut := s.ctrl.out (s.ctrlIn P x)

/-- The inputs of the CSRs. -/
def csrIn : CsRegsIn :=
  let o := s.ctrlOut P x
  { x.csr with
    csrMtvecInit := o.pcMux == .boot && o.pcSet
    nmiMode := s.ctrl.nmiModeQ
    debugMode := s.ctrl.debugModeQ
    debugCause := o.debugCause
    debugCsrSave := o.debugCsrSave
    csrSaveIf := o.csrSaveIf
    csrSaveId := s.ctrl.csrSaveId (s.ctrlIn P x) P.writebackStage
    csrSaveWb := s.ctrl.csrSaveWb P.writebackStage
    csrRestoreMret := o.csrRestoreMretId
    csrRestoreDret := o.csrRestoreDretId
    csrSaveCause := o.csrSaveCause
    csrMcause := o.excCause
    csrMtval := o.csrMtval }

/-- `exc_pc`. -/
def excPc : BitVec 32 :=
  let o := s.ctrlOut P x
  match o.excPcMux with
  | .exc => s.csr.mtvec.extractLsb' 8 24 ++ 0#8
  | .irq => s.csr.mtvec.extractLsb' 8 24 ++ 0#1 ++ o.excCause.bits.extractLsb' 0 5 ++ 0#2
  | .dbd => P.dmHaltAddr
  | .dbgExc => P.dmExceptionAddr

/-- `fetch_addr_n`. -/
def fetchAddrN : BitVec 32 :=
  match (s.ctrlOut P x).pcMux with
  | .boot => x.csr.bootAddr.extractLsb' 8 24 ++ 0x80#8
  | .jump => x.branchTargetEx
  | .exc => s.excPc P x
  | .eret => s.csr.mepc
  | .dret => s.csr.depc

/-- One clock edge. -/
def next : TrapUnit n where
  ctrl := s.ctrl.next (s.ctrlIn P x)
  csr := s.csr.next P.toCsrParams (s.csrIn P x)

/-! ### Events -/

/-- A trap is entered: the CSRs save its cause, outside of debug mode. -/
def trapEntry : Bool :=
  (s.ctrlOut P x).csrSaveCause && !(s.ctrlOut P x).debugCsrSave && !s.ctrl.debugModeQ

/-- An MRET is executed. -/
def mretExec : Bool := (s.ctrlOut P x).csrRestoreMretId

/-- A DRET is executed. -/
def dretExec : Bool := (s.ctrlOut P x).csrRestoreDretId

/-- A CSR instruction writes the register at the address `a`. -/
def csrWe (a : BitVec 12) : Bool := s.csr.csrWe P.toCsrParams (s.csrIn P x) a

/-- A CSR instruction writes a register. -/
def csrWrite : Bool := s.csr.csrWeInt P.toCsrParams (s.csrIn P x)

end TrapUnit

/-! ### The strobes of the controller -/

namespace Ctrl

variable (s : Ctrl) (y : CtrlIn)

/-- `FLUSH` with the next state that an entry to debug mode may replace. -/
theorem flushOut_eq :
    flushOut s y
      = { flushBase s y with
          ctrlFsmNs :=
            if enterDebugMode s y.toCtrlDec then .dbgTakenIf else (flushBase s y).ctrlFsmNs } := by
  unfold flushOut
  split_ifs <;> rfl

/-- An MRET is executed: in `FLUSH`, without an exception. -/
def mretFlush : Bool := s.ctrlFsm == .flush && !flushExc s && mretInsn y.toCtrlDec

/-- A DRET is executed. -/
def dretFlush : Bool :=
  s.ctrlFsm == .flush && !flushExc s && !mretInsn y.toCtrlDec && dretInsn y.toCtrlDec

/-- An ebreak asks for debug mode, and the core is not in it. -/
def ebreakForced : Bool := ebreakIntoDebug y.toCtrlDec && !s.debugModeQ

/-- The cause of a trap is saved when an interrupt is taken, at an entry to debug mode, and
for an exception in `FLUSH`. -/
theorem out_csrSaveCause :
    (out s y).csrSaveCause =
      match s.ctrlFsm with
      | .irqTaken => handleIrq s y.toCtrlDec
      | .dbgTakenIf => debugCauseStands y.toCtrlDec
      | .dbgTakenId => ebreakForced s y
      | .flush => flushExc s && !ebreakDebug s y.toCtrlDec
      | _ => false := by
  unfold out
  cases hs : s.ctrlFsm with
  | irqTaken =>
      simp only [irqTakenOut]
      cases handleIrq s y.toCtrlDec <;> rfl
  | dbgTakenIf =>
      simp only [dbgTakenIfOut]
      cases debugCauseStands y.toCtrlDec <;> rfl
  | flush =>
      simp only [flushOut_eq, flushBase, flushExc, hs]
      cases s.excReqQ || s.storeErrQ || s.loadErrQ with
      | true => rfl
      | false => simp only [Bool.false_eq_true, if_false]; split_ifs <;> rfl
  | _ => rfl

/-- The debug registers are saved at an entry to debug mode. -/
theorem out_debugCsrSave :
    (out s y).debugCsrSave =
      match s.ctrlFsm with
      | .dbgTakenIf => debugCauseStands y.toCtrlDec
      | .dbgTakenId => ebreakForced s y
      | _ => false := by
  unfold out
  cases hs : s.ctrlFsm with
  | irqTaken =>
      simp only [irqTakenOut]
      cases handleIrq s y.toCtrlDec <;> rfl
  | dbgTakenIf =>
      simp only [dbgTakenIfOut]
      cases debugCauseStands y.toCtrlDec <;> rfl
  | flush =>
      simp only [flushOut_eq, flushBase]
      split_ifs <;> rfl
  | _ => rfl

/-- MRET restores the CSRs in FLUSH. -/
theorem out_csrRestoreMretId : (out s y).csrRestoreMretId = mretFlush s y := by
  unfold out mretFlush flushExc
  cases hs : s.ctrlFsm with
  | irqTaken =>
      simp only [irqTakenOut]
      cases handleIrq s y.toCtrlDec <;> rfl
  | dbgTakenIf =>
      simp only [dbgTakenIfOut]
      cases debugCauseStands y.toCtrlDec <;> rfl
  | flush =>
      simp only [flushOut_eq, flushBase]
      cases s.excReqQ || s.storeErrQ || s.loadErrQ with
      | true => simp [defaults]
      | false =>
          simp only [Bool.false_eq_true, if_false]
          split_ifs <;> simp_all [defaults]
  | _ => rfl

/-- DRET restores the privilege level in FLUSH. -/
theorem out_csrRestoreDretId : (out s y).csrRestoreDretId = dretFlush s y := by
  unfold out dretFlush flushExc
  cases hs : s.ctrlFsm with
  | irqTaken =>
      simp only [irqTakenOut]
      cases handleIrq s y.toCtrlDec <;> rfl
  | dbgTakenIf =>
      simp only [dbgTakenIfOut]
      cases debugCauseStands y.toCtrlDec <;> rfl
  | flush =>
      simp only [flushOut_eq, flushBase]
      cases s.excReqQ || s.storeErrQ || s.loadErrQ with
      | true => simp [defaults]
      | false =>
          simp only [Bool.false_eq_true, if_false]
          split_ifs <;> simp_all [defaults]
  | _ => rfl

/-- Debug mode is entered in its two states and left by a DRET. -/
theorem out_debugModeD :
    (out s y).debugModeD =
      match s.ctrlFsm with
      | .dbgTakenIf => debugCauseStands y.toCtrlDec || s.debugModeQ
      | .dbgTakenId => true
      | _ => s.debugModeQ && !dretFlush s y := by
  unfold out dretFlush flushExc
  cases hs : s.ctrlFsm with
  | irqTaken =>
      simp only [irqTakenOut]
      cases handleIrq s y.toCtrlDec <;> simp [defaults]
  | dbgTakenIf =>
      simp only [dbgTakenIfOut]
      cases debugCauseStands y.toCtrlDec <;> rfl
  | flush =>
      simp only [flushOut_eq, flushBase]
      split_ifs <;> simp_all [defaults]
  | _ => simp [decodeOut, dbgTakenIdOut, defaults]

/-- NMI mode is entered by a non-maskable interrupt and left by an MRET. -/
theorem out_nmiModeD :
    (out s y).nmiModeD =
      match s.ctrlFsm with
      | .irqTaken => (handleIrq s y.toCtrlDec && y.irqNm) || s.nmiModeQ
      | _ => s.nmiModeQ && !mretFlush s y := by
  unfold out mretFlush flushExc
  cases hs : s.ctrlFsm with
  | irqTaken =>
      simp only [irqTakenOut]
      cases hi : handleIrq s y.toCtrlDec with
      | false => rfl
      | true =>
          have hn : s.nmiModeQ = false := by
            simp only [handleIrq, Bool.and_eq_true, Bool.not_eq_true'] at hi
            exact hi.1.2
          cases y.irqNm <;> simp [hn]
  | dbgTakenIf =>
      simp only [dbgTakenIfOut]
      cases debugCauseStands y.toCtrlDec <;> simp [defaults]
  | flush =>
      simp only [flushOut_eq, flushBase]
      split_ifs <;> simp_all [defaults]
  | _ => simp [decodeOut, dbgTakenIdOut, defaults]

variable {s y}

/-- The instruction in ID, or the memory access it waits for, raises an exception. -/
def raised (s : Ctrl) (x : CtrlDec) : Bool := excReqD s x || excReqLsu x

/-- An exception that is raised in `DECODE` is taken in `FLUSH` one cycle later. -/
theorem flushExc_of_raised (hs : s.ctrlFsm = .decode) (hv : y.instrValid = true)
    (hr : raised s y.toCtrlDec = true) : flushExc (next s y) = true := by
  have hspecial : specialReqAll s y = true := by
    simp only [raised] at hr
    simp only [specialReqAll, Bool.or_assoc, hr, Bool.or_true]
  have hfsm : (next s y).ctrlFsm = .flush := by
    change (out s y).ctrlFsmNs = .flush
    simp [out, hs, decodeOut, hspecial, hv]
  have hexc : ((next s y).excReqQ || (next s y).storeErrQ || (next s y).loadErrQ) = true := by
    simp only [next, Bool.or_assoc]
    exact hr
  simp [flushExc, hfsm, hexc]

/-- `FLUSH` is entered for an instruction in ID that asks for something special, and which
stays in ID. -/
theorem of_flush (h : (out s y).ctrlFsmNs = .flush) :
    s.ctrlFsm = .decode ∧ y.instrValid = true ∧ specialReqAll s y = true ∧
      (out s y).haltIf = true := by
  unfold out at h ⊢
  cases hs : s.ctrlFsm with
  | decode =>
      simp only [hs, decodeOut] at h ⊢
      split_ifs at h with h1 h2 h3
      rw [Bool.and_eq_true] at h3
      exact ⟨trivial, h3.1, h3.2, by simp [h3.1, h3.2]⟩
  | reset => simp only [hs] at h; split_ifs at h
  | sleep => simp only [hs] at h; split_ifs at h
  | firstFetch => simp only [hs] at h; split_ifs at h
  | irqTaken =>
      simp only [hs, irqTakenOut] at h
      cases hi : handleIrq s y.toCtrlDec <;> simp [hi] at h
  | dbgTakenIf =>
      simp only [hs, dbgTakenIfOut] at h
      cases hc : debugCauseStands y.toCtrlDec <;> simp [hc] at h
  | flush =>
      simp only [hs, flushOut_eq, flushBase] at h
      split_ifs at h
  | _ => simp [hs, dbgTakenIdOut] at h

/-- A state in which ID is ready and the fetch is not redirected is followed by `DECODE`. -/
theorem decode_of_ready (hs : y.stall = false) (hh : (out s y).haltIf = false)
    (hp : (out s y).pcSet = false) : (out s y).ctrlFsmNs = .decode := by
  unfold out at hh hp ⊢
  cases hc : s.ctrlFsm with
  | decode =>
      simp only [hc, decodeOut, hs] at hh ⊢
      cases hd : enterDebugMode s y.toCtrlDec <;> cases hi : handleIrq s y.toCtrlDec <;>
        cases hsp : specialReqAll s y <;> cases hv : y.instrValid <;> simp_all
  | firstFetch =>
      simp only [hc, Bool.or_eq_false_iff] at hh
      simp [hh.1, hh.2, hs]
  | irqTaken =>
      simp only [irqTakenOut]
      cases handleIrq s y.toCtrlDec <;> rfl
  | dbgTakenIf =>
      simp only [dbgTakenIfOut]
      cases debugCauseStands y.toCtrlDec <;> rfl
  | flush =>
      simp only [hc, flushOut_eq, flushBase] at hh
      split_ifs at hh
  | _ => simp [hc, dbgTakenIdOut] at hh hp

/-- The state that enters debug mode at the fetched instruction is reached outside of debug
mode only. -/
theorem enterDebugMode_of_ctrlFsmNs (h : (out s y).ctrlFsmNs = .dbgTakenIf) :
    enterDebugMode s y.toCtrlDec = true ∧ s.ctrlFsm ≠ .dbgTakenIf ∧ s.ctrlFsm ≠ .dbgTakenId := by
  by_contra hne
  unfold out at h
  cases hs : s.ctrlFsm with
  | reset => simp only [hs] at h; split_ifs at h
  | sleep => simp only [hs] at h; split_ifs at h
  | firstFetch =>
      simp only [hs] at h
      split_ifs at h with hd
      exact hne ⟨hd, by simp [hs], by simp [hs]⟩
  | decode =>
      simp only [hs, decodeOut] at h
      split_ifs at h with hd
      rw [Bool.and_eq_true] at hd
      exact hne ⟨hd.2, by simp [hs], by simp [hs]⟩
  | irqTaken =>
      simp only [hs, irqTakenOut] at h
      cases hi : handleIrq s y.toCtrlDec <;> simp [hi] at h
  | dbgTakenIf =>
      simp only [hs, dbgTakenIfOut] at h
      cases hc : debugCauseStands y.toCtrlDec <;> simp [hc] at h
  | flush =>
      simp only [hs, flushOut_eq] at h
      split_ifs at h with hd
      · exact hne ⟨hd, by simp [hs], by simp [hs]⟩
      · simp only [flushBase] at h
        split_ifs at h
  | _ => simp [hs, dbgTakenIdOut] at h

end Ctrl

end CocoIbex
