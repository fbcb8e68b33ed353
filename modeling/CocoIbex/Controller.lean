import Mathlib.Tactic.SplitIfs
import CocoIbex.Pkg

/-!
# The Controller

`ibex_controller`, without a write-back stage: the machine that starts the core, runs
instructions, and takes exceptions, interrupts and debug entries. In each state it decides
whether ID executes (`controller_run`), whether the instruction in ID stays (`halt_if`) or is
killed (`flush_id`), and where the fetch goes on (`pc_set`).

The outputs of a state are one function each (`decodeOut`, `flushOut` and the others) that
starts from the defaults of the source, and `next` reads the next state and the flops off them.
The order of the assignments is kept: a later one overrides an earlier one, and the special
requests are looked at in the order of their priorities.

What ID tells the controller of the instruction is `CtrlDec`. A special request of `DECODE` is
remembered in flops for one cycle and is handled in `FLUSH`, where the exception cause and
`mtval` are chosen (`excCauseMtval`).

## Main results

* `out_flushId` — when ID is flushed, state by state: while the core sleeps, in the debug
  entries, and in `FLUSH`;
* `flushBase_flushId` and `flushOut_of_kept` — in `FLUSH` everything is flushed but an EBREAK
  that is to enter debug mode.
-/

namespace CocoIbex

/-- The states of the controller, `ctrl_fsm_e`. -/
inductive CtrlFsm
  | reset | bootSet | waitSleep | sleep | firstFetch | decode | flush
  | irqTaken | dbgTakenIf | dbgTakenId
  deriving DecidableEq, Repr

/-- The registers of the controller. -/
structure Ctrl where
  ctrlFsm : CtrlFsm
  nmiModeQ : Bool
  debugModeQ : Bool
  loadErrQ : Bool
  storeErrQ : Bool
  excReqQ : Bool
  illegalInsnQ : Bool
  deriving DecidableEq, Repr

/-- The inputs of the controller that do not depend on how ID proceeds in the cycle: the
instruction in ID as the decoder sees it, the LSU errors, and the requests from outside. -/
structure CtrlDec where
  fetchEnable : Bool
  instrValid : Bool
  instrFetchErr : Bool
  instrFetchErrPlus2 : Bool
  instr : BitVec 32
  instrCompressed : BitVec 16
  instrIsCompressed : Bool
  pcId : BitVec 32
  illegalInsn : Bool
  ecallInsn : Bool
  mretInsn : Bool
  dretInsn : Bool
  wfiInsn : Bool
  ebrkInsn : Bool
  lsuAddrLast : BitVec 32
  loadErr : Bool
  storeErr : Bool
  csrMstatusMie : Bool
  irqPending : Bool
  irqs : Irqs
  irqNm : Bool
  debugReq : Bool
  debugSingleStep : Bool
  debugEbreakm : Bool
  debugEbreaku : Bool
  triggerMatch : Bool
  privMode : PrivLvl
  csrMstatusTw : Bool
  deriving DecidableEq, Repr

/-- The inputs of the controller. -/
structure CtrlIn extends CtrlDec where
  csrPipeFlush : Bool
  branchSet : Bool
  jumpSet : Bool
  stall : Bool
  deriving DecidableEq, Repr

/-- The signals that the controller assigns, with the values ahead of the case
distinction; `ctrlFsmNs`, `debugModeD` and `nmiModeD` have those of the registers. -/
structure CtrlOut where
  ctrlFsmNs : CtrlFsm
  debugModeD : Bool
  nmiModeD : Bool
  instrReq : Bool := true
  csrSaveIf : Bool := false
  csrSaveId : Bool := false
  csrRestoreMretId : Bool := false
  csrRestoreDretId : Bool := false
  csrSaveCause : Bool := false
  csrMtval : BitVec 32 := 0#32
  pcMux : PcSel := .boot
  pcSet : Bool := false
  excPcMux : ExcPcSel := .irq
  excCause : ExcCause := .insnAddrMisa
  ctrlBusy : Bool := true
  haltIf : Bool := false
  flushId : Bool := false
  debugCsrSave : Bool := false
  debugCause : DbgCause := .ebreak
  perfTbranch : Bool := false
  perfJump : Bool := false
  controllerRun : Bool := false
  deriving DecidableEq, Repr

namespace Ctrl

variable (s : Ctrl) (x : CtrlDec) (y : CtrlIn)

/-- The registers after a reset. -/
def reset : Ctrl := ⟨.reset, false, false, false, false, false, false⟩

/-! ### Requests -/

/-- `mret_insn`, and likewise the other signals that only count for a valid
instruction. -/
def mretInsn : Bool := x.mretInsn && x.instrValid
/-- `dret_insn`, as the other requests below with the valid bit of ID. -/
def dretInsn : Bool := x.dretInsn && x.instrValid
/-- `wfi_insn`. -/
def wfiInsn : Bool := x.wfiInsn && x.instrValid
/-- `ecall_insn`. -/
def ecallInsn : Bool := x.ecallInsn && x.instrValid
/-- `ebrk_insn`. -/
def ebrkInsn : Bool := x.ebrkInsn && x.instrValid
/-- `instr_fetch_err`. -/
def instrFetchErr : Bool := x.instrFetchErr && x.instrValid
/-- `csr_pipe_flush`, of the inputs that the decoder and the CSRs give. -/
def csrPipeFlush : Bool := y.csrPipeFlush && y.instrValid

/-- `illegal_dret`: a dret outside of debug mode. -/
def illegalDret : Bool := dretInsn x && !s.debugModeQ

/-- `illegal_umode`. -/
def illegalUmode : Bool := x.privMode != .m && (mretInsn x || (x.csrMstatusTw && wfiInsn x))

/-- `illegal_insn_d`. -/
def illegalInsnD : Bool :=
  (x.illegalInsn || illegalDret s x || illegalUmode x) && s.ctrlFsm != .flush

/-- `exc_req_d`. -/
def excReqD : Bool :=
  (ecallInsn x || ebrkInsn x || illegalInsnD s x || instrFetchErr x) && s.ctrlFsm != .flush

/-- `exc_req_lsu`. -/
def excReqLsu : Bool := x.storeErr || x.loadErr

/-- `special_req_all`. -/
def specialReqAll : Bool :=
  mretInsn y.toCtrlDec || dretInsn y.toCtrlDec || wfiInsn y.toCtrlDec || csrPipeFlush y
    || excReqD s y.toCtrlDec || excReqLsu y.toCtrlDec

/-- `special_req_branch`. -/
def specialReqBranch : Bool := instrFetchErr x && s.ctrlFsm != .flush

/-- `enter_debug_mode`. -/
def enterDebugMode : Bool :=
  (x.debugReq || (x.debugSingleStep && x.instrValid) || x.triggerMatch) && !s.debugModeQ

/-- `ebreak_into_debug`. -/
def ebreakIntoDebug : Bool :=
  if x.privMode = .m then x.debugEbreakm
  else if x.privMode = .u then x.debugEbreaku
  else false

/-- `handle_irq`. -/
def handleIrq : Bool :=
  !s.debugModeQ && !s.nmiModeQ && (x.irqNm || (x.irqPending && x.csrMstatusMie))

/-- `mfip_id`: the fast interrupt with the highest number; the first has none above. -/
def mfipId (fast : BitVec 15) : BitVec 4 :=
  ([14, 13, 12, 11, 10, 9, 8, 7, 6, 5, 4, 3, 2, 1].find? fun n => fast.getLsbD n).elim 0#4
    (BitVec.ofNat 4)

/-! ### The states -/

/-- The assigned values in a state that changes none of them. -/
def defaults : CtrlOut :=
  { ctrlFsmNs := s.ctrlFsm, debugModeD := s.debugModeQ, nmiModeD := s.nmiModeQ }

/-- The state `DECODE`. -/
def decodeOut : CtrlOut :=
  let special := specialReqAll s y
  let jump := (y.branchSet || y.jumpSet) && !specialReqBranch s y.toCtrlDec
  let debug := enterDebugMode s y.toCtrlDec
  let irq := handleIrq s y.toCtrlDec
  -- the current instruction is complete and asks for nothing special
  let free := !y.stall && !special
  { defaults s with
    controllerRun := true
    pcMux := .jump
    pcSet := y.instrValid && jump
    perfTbranch := y.instrValid && jump && y.branchSet
    perfJump := y.instrValid && jump && y.jumpSet
    haltIf := (y.instrValid && (special || ((debug || irq) && y.stall))) || (free && (debug || irq))
    ctrlFsmNs :=
      if free && debug then .dbgTakenIf
      else if free && irq then .irqTaken
      else if y.instrValid && special then .flush
      else .decode }

/-- The state `IRQ_TAKEN`. -/
def irqTakenOut : CtrlOut :=
  let o : CtrlOut := { defaults s with pcMux := .exc, excPcMux := .irq, ctrlFsmNs := .decode }
  if handleIrq s x then
    { o with
      pcSet := true, csrSaveIf := true, csrSaveCause := true
      nmiModeD := if x.irqNm && !s.nmiModeQ then true else s.nmiModeQ
      excCause :=
        if x.irqNm && !s.nmiModeQ then .irqNm
        else if x.irqs.irqFast ≠ 0#15 then .irqFast (mfipId x.irqs.irqFast)
        else if x.irqs.irqExternal then .irqExternalM
        else if x.irqs.irqSoftware then .irqSoftwareM
        else .irqTimerM }
  else o

/-- The cause of a debug entry is still there in `DBG_TAKEN_IF`. -/
def debugCauseStands : Bool := x.debugSingleStep || x.debugReq || x.triggerMatch

/-- The state `DBG_TAKEN_IF`. -/
def dbgTakenIfOut : CtrlOut :=
  let o : CtrlOut := { defaults s with pcMux := .exc, excPcMux := .dbd, ctrlFsmNs := .decode }
  if debugCauseStands x then
    { o with
      flushId := true, pcSet := true, csrSaveIf := true, debugCsrSave := true
      csrSaveCause := true, debugModeD := true
      debugCause :=
        if x.triggerMatch then .trigger else if x.debugSingleStep then .step else .haltreq }
  else o

/-- The state `DBG_TAKEN_ID`. -/
def dbgTakenIdOut : CtrlOut :=
  let forced := ebreakIntoDebug x && !s.debugModeQ
  { defaults s with
    flushId := true, pcMux := .exc, pcSet := true, excPcMux := .dbd
    csrSaveCause := forced, csrSaveId := forced, debugCsrSave := forced
    debugCause := .ebreak, debugModeD := true, ctrlFsmNs := .decode }

/-- An exception in `FLUSH` that is an ebreak into debug mode. -/
def ebreakDebug : Bool :=
  !instrFetchErr x && !s.illegalInsnQ && !ecallInsn x && ebrkInsn x
    && (s.debugModeQ || ebreakIntoDebug x)

/-- The cause and `mtval` of an exception in `FLUSH`, by their priorities. -/
def excCauseMtval : ExcCause × BitVec 32 :=
  if instrFetchErr x then
    (.instrAccessFault, if x.instrFetchErrPlus2 then x.pcId + 2#32 else x.pcId)
  else if s.illegalInsnQ then
    (.illegalInsn, if x.instrIsCompressed then 0#16 ++ x.instrCompressed else x.instr)
  else if ecallInsn x then (if x.privMode = .m then .ecallMmode else .ecallUmode, 0#32)
  else if ebrkInsn x then
    (if s.debugModeQ || ebreakIntoDebug x then .insnAddrMisa else .breakpoint, 0#32)
  else if s.storeErrQ then (.storeAccessFault, x.lsuAddrLast)
  else (.loadAccessFault, x.lsuAddrLast)

/-- The state `FLUSH` before the entry to debug mode is considered. -/
def flushBase : CtrlOut :=
  let o : CtrlOut := { defaults s with haltIf := true, flushId := true, ctrlFsmNs := .decode }
  if s.excReqQ || s.storeErrQ || s.loadErrQ then
    let dbg := ebreakDebug s y.toCtrlDec
    { o with
      pcSet := !dbg
      pcMux := .exc
      excPcMux := if s.debugModeQ then .dbgExc else .exc
      csrSaveId := false
      csrSaveCause := !dbg
      excCause := (excCauseMtval s y.toCtrlDec).1
      csrMtval := (excCauseMtval s y.toCtrlDec).2
      flushId := !dbg
      ctrlFsmNs := if dbg then .dbgTakenId else .decode }
  else if mretInsn y.toCtrlDec then
    { o with
      pcMux := .eret, pcSet := true, csrRestoreMretId := true, nmiModeD := false }
  else if dretInsn y.toCtrlDec then
    { o with pcMux := .dret, pcSet := true, debugModeD := false, csrRestoreDretId := true }
  else if wfiInsn y.toCtrlDec then { o with ctrlFsmNs := .waitSleep }
  else if csrPipeFlush y && handleIrq s y.toCtrlDec then { o with ctrlFsmNs := .irqTaken }
  else o

/-- The state `FLUSH`. -/
def flushOut : CtrlOut :=
  if enterDebugMode s y.toCtrlDec then { flushBase s y with ctrlFsmNs := .dbgTakenIf }
  else flushBase s y

/-- The combinational part of the controller. -/
def out : CtrlOut :=
  match s.ctrlFsm with
  | .reset =>
    { defaults s with
      instrReq := false, pcSet := true, ctrlFsmNs := if y.fetchEnable then .bootSet else .reset }
  | .bootSet => { defaults s with pcSet := true, ctrlFsmNs := .firstFetch }
  | .waitSleep =>
    { defaults s with
      ctrlBusy := false, instrReq := false, haltIf := true, flushId := true, ctrlFsmNs := .sleep }
  | .sleep =>
    let wake := y.irqNm || y.irqPending || y.debugReq || s.debugModeQ || y.debugSingleStep
    { defaults s with
      instrReq := false, haltIf := true, flushId := true, ctrlBusy := wake
      ctrlFsmNs := if wake then .firstFetch else .sleep }
  | .firstFetch =>
    let debug := enterDebugMode s y.toCtrlDec
    let irq := handleIrq s y.toCtrlDec
    { defaults s with
      haltIf := debug || irq
      ctrlFsmNs :=
        if debug then .dbgTakenIf
        else if irq then .irqTaken
        -- `id_in_ready_o` without a halt
        else if !y.stall then .decode
        else .firstFetch }
  | .decode => decodeOut s y
  | .irqTaken => irqTakenOut s y.toCtrlDec
  | .dbgTakenIf => dbgTakenIfOut s y.toCtrlDec
  | .dbgTakenId => dbgTakenIdOut s y.toCtrlDec
  | .flush => flushOut s y

/-- `id_in_ready_o`. -/
def idInReady : Bool := !y.stall && !(out s y).haltIf

/-- `instr_valid_clear_o`. -/
def instrValidClear : Bool := !(y.stall || (out s y).haltIf) || (out s y).flushId

/-- One clock edge. -/
def next : Ctrl where
  ctrlFsm := (out s y).ctrlFsmNs
  nmiModeQ := (out s y).nmiModeD
  debugModeQ := (out s y).debugModeD
  loadErrQ := y.loadErr
  storeErrQ := y.storeErr
  excReqQ := excReqD s y.toCtrlDec
  illegalInsnQ := illegalInsnD s y.toCtrlDec

/-! ### What the machine assigns before ID has answered -/

/-- `flush_id_o` depends on the state and the decoded instruction only. -/
def flushId : Bool :=
  match s.ctrlFsm with
  | .waitSleep | .sleep | .dbgTakenId => true
  | .dbgTakenIf => debugCauseStands x
  | .flush => !((s.excReqQ || s.storeErrQ || s.loadErrQ) && ebreakDebug s x)
  | _ => false

/-- `controller_run_o` is the state `DECODE`. -/
def controllerRun : Bool := s.ctrlFsm == .decode

/-- In FLUSH the instruction is flushed but for an EBREAK that goes to debug mode. -/
theorem flushBase_flushId :
    (flushBase s y).flushId
      = !((s.excReqQ || s.storeErrQ || s.loadErrQ) && ebreakDebug s y.toCtrlDec) := by
  cases h : s.excReqQ || s.storeErrQ || s.loadErrQ with
  | true => simp [flushBase, h]
  | false =>
      simp only [flushBase, h]
      split_ifs <;> simp_all

/-- Only an ebreak into debug mode is kept in `FLUSH`. -/
theorem flushOut_of_kept (h : (flushBase s y).flushId = false) :
    (flushOut s y).ctrlFsmNs = .dbgTakenId ∨ (flushOut s y).ctrlFsmNs = .dbgTakenIf := by
  simp only [flushBase_flushId, Bool.not_eq_false', Bool.and_eq_true] at h
  simp only [flushOut]
  split_ifs
  · exact Or.inr rfl
  · simp [flushBase, h.1, h.2]

/-- The flush of ID in all states. -/
theorem out_flushId : (out s y).flushId = flushId s y.toCtrlDec := by
  simp only [out, flushId]
  cases s.ctrlFsm with
  | flush =>
      simp only [flushOut, ← flushBase_flushId]
      split_ifs <;> rfl
  | dbgTakenIf =>
      simp only [dbgTakenIfOut]
      split_ifs <;> simp_all [defaults]
  | irqTaken =>
      simp only [irqTakenOut]
      split_ifs <;> rfl
  | _ => rfl

end Ctrl

end CocoIbex
