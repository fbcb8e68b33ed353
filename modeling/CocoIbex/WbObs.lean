import CocoIbex.LsuFault
import CocoIbex.WbCoreStep
import CocoIbex.WbHart

/-!
# The Observed Three-Stage Hart

The response to a load or store comes when it has left ID, and an error is signalled for one
cycle. `WbObs` is the three-stage hart with the history of the accesses that failed and of the
traps for them, and with what younger instructions do in between. `WbObs.Inv` ties it to the
registers: the LSU answers the access in the write-back stage only, and while that waits there
is no effect of a younger instruction but by the controller (`younger_eq`).

A fault is kept with its cause, the PC of the instruction and the address of the transaction
that failed, and a trap with the values that it leaves in the trap registers, so that the two
can be compared as a whole. What a younger instruction may do before the trap is a register
write, an access, a CSR write or a redirect (`younger`). The history is read by nothing in the
hart.

## Main results

* `inv_next` and `inv_run` — the invariant survives every run on a bus that keeps to its
  protocol;
* `lsuValid_of_gone` — an access leaves write-back with its last response only;
* `younger_eq` — while an access waits, younger instructions have no effect but by the
  controller.
-/

namespace CocoIbex

/-- A load or store that failed: the cause of its trap, its PC and the failing address. -/
structure Fault where
  cause : ExcCause
  pc : BitVec 32
  addr : BitVec 32
  deriving DecidableEq, Repr

/-- The hart with its observations. -/
structure WbObs (n : ℕ) where
  hart : WbHart n
  log : FaultLog
  /-- the load or store that left ID last: whether it is a store, and its PC -/
  access : Bool × BitVec 32
  /-- a younger instruction has had an effect while its response was awaited -/
  overtaken : Bool
  /-- the controller has taken a trap or returned from one in that time -/
  diverted : Bool
  /-- the accesses that failed, the earliest first -/
  faults : List Fault
  /-- the traps with a load or store access fault -/
  traps : List Fault
  /-- an access failed after a younger instruction had had an effect -/
  late : Bool

namespace WbObs

variable {n : ℕ} (P : HartParams) (o : WbObs n) (x : WbHartIn)

/-- After a reset. -/
def reset (n : ℕ) : WbObs n :=
  ⟨.reset n, .empty, (false, 0#32), false, false, [], [], false⟩

/-- The core of the hart. -/
def core : WbCore := o.hart.core

/-- The inputs of the core. -/
def coreIn : WbCoreIn := o.hart.coreIn P x

/-- The inputs of the LSU. -/
def lsuIn : LsuIn :=
  WbCore.lsuIn P.cfg o.core (o.coreIn P x) (WbCore.lsuReq P.cfg o.core (o.coreIn P x))

/-- The instruction in ID as the controller sees it. -/
def ctrlDec : CtrlDec := WbCore.ctrlDec P.cfg o.core (o.coreIn P x)

/-- The write-back stage holds a load or store. -/
def inWb : Bool := o.core.wb.outstandingLoadWb || o.core.wb.outstandingStoreWb

/-- A load or store leaves ID. -/
def leaves : Bool := WbCore.enWb P.cfg o.core (o.coreIn P x) && WbCore.memInsn P.cfg o.core

/-! ### Events -/

/-- The access in write-back has its last response, and a transaction of it has failed. -/
def fault : Option Fault :=
  if WbCore.lsuValid P.cfg o.core (o.coreIn P x) then
    (o.log.answer (o.lsuIn P x)).first.map fun addr =>
      ⟨if o.access.1 then .storeAccessFault else .loadAccessFault, o.access.2, addr⟩
  else none

/-- A trap for a load or store, with the cause, the PC and the address that go to the CSRs. -/
def faultTrap : Option Fault :=
  let c := o.hart.csrIn P x
  if c.csrSaveCause
      && (c.csrMcause == .loadAccessFault || c.csrMcause == .storeAccessFault) then
    some ⟨c.csrMcause, CsRegs.exceptionPc c, c.csrMtval⟩
  else none

/-- The controller takes a trap, other than for a load or store, or an interrupt, enters
debug mode, or returns from a trap or from debug mode. -/
def diverts : Bool :=
  let s := o.core.ctrl
  let d := o.ctrlDec P x
  match s.ctrlFsm with
  | .irqTaken => s.handleIrq d
  | .dbgTakenIf => Ctrl.debugCauseStands d
  | .dbgTakenId => Ctrl.ebreakIntoDebug d && !s.debugModeQ
  | .flush =>
      if s.excReqQ then !s.ebreakDebug d
      else if s.storeErrQ || s.loadErrQ then false
      else Ctrl.mretInsn d || Ctrl.dretInsn d
  | _ => false

/-- The instruction in ID has an effect: it leaves, writes a CSR, asks for memory, traps or
is interrupted, or returns from a trap. -/
def younger : Bool :=
  let c := o.hart.csrIn P x
  WbCore.enWb P.cfg o.core (o.coreIn P x) || o.hart.csr.csrWeInt P.toCsrParams c
    || WbCore.lsuReq P.cfg o.core (o.coreIn P x)
    || c.csrSaveCause || c.csrRestoreMret || c.csrRestoreDret

/-- One clock edge. -/
def next : WbObs n where
  hart := o.hart.next P x
  log := o.log.next o.core.lsu (o.lsuIn P x)
  access := if o.leaves P x then ((WbCore.main P.cfg o.core).dataWe, o.core.pcId) else o.access
  overtaken := !o.leaves P x && (o.overtaken || (o.inWb && o.younger P x))
  diverted := !o.leaves P x && (o.diverted || (o.inWb && o.diverts P x))
  faults := o.faults ++ (o.fault P x).toList
  traps := o.traps ++ (o.faultTrap P x).toList
  late := o.late || ((o.fault P x).isSome && (o.overtaken || o.younger P x))

/-- An error is taken care of: the controller is in `DECODE`, ID holds an instruction that
raises no exception of its own, and no trap has come between since the access left. -/
def Caught : Prop :=
  o.core.ctrl.ctrlFsm = .decode ∧ o.core.ifId.instrValidId = true ∧
    o.core.ctrl.excReqD (o.ctrlDec P x) = false ∧ o.diverted = false

/-- It is seen in the state and the input. -/
instance : Decidable (Caught P o x) := inferInstanceAs (Decidable (_ ∧ _ ∧ _ ∧ _))

/-- The data bus keeps to its protocol. -/
structure BusOk : Prop where
  gnt : x.dataGnt = true → WbCore.dataReq P.cfg o.core (o.coreIn P x) = true
  rvalid : x.dataRvalid = true → o.log.pending ≠ []
  pmpWait : o.core.lsu.lsFsm = .waitGnt ∨ o.core.lsu.lsFsm = .waitGntMis →
    x.dataPmpErr = o.core.lsu.pmpErrQ
  pmpGranted : o.core.lsu.lsFsm = .waitRvalidMisGntsDone → x.dataPmpErr = false

/-- The bus keeps to its protocol or not within one cycle. -/
instance : Decidable (BusOk P o x) :=
  decidable_of_iff
    ((x.dataGnt = true → WbCore.dataReq P.cfg o.core (o.coreIn P x) = true) ∧
      (x.dataRvalid = true → o.log.pending ≠ []) ∧
      (o.core.lsu.lsFsm = .waitGnt ∨ o.core.lsu.lsFsm = .waitGntMis →
        x.dataPmpErr = o.core.lsu.pmpErrQ) ∧
      (o.core.lsu.lsFsm = .waitRvalidMisGntsDone → x.dataPmpErr = false))
    ⟨fun h => ⟨h.1, h.2.1, h.2.2.1, h.2.2.2⟩, fun h => ⟨h.gnt, h.rvalid, h.pmpWait, h.pmpGranted⟩⟩

/-! ### The invariant -/

/-- The observations agree with the registers. -/
structure Inv (P : HartParams) (o : WbObs n) : Prop where
  core : WbCore.Inv P.cfg o.core
  fault : Lsu.FaultInv o.core.lsu o.log
  /-- without an access there is no transaction -/
  rest : o.inWb = false → o.core.lsu.busy = false →
    o.log.pending = [] ∧ o.core.lsu.pmpErrQ = false
  access : o.inWb = true → o.access = (o.core.wb.outstandingStoreWb, o.core.wb.wbPcQ)
  /-- an access that failed has left the write-back stage -/
  errors : o.core.ctrl.loadErrQ = true ∨ o.core.ctrl.storeErrQ = true →
    o.core.wb.wbValidQ = false
  /-- a younger instruction has had an effect just when a trap has come between -/
  diverted : o.inWb = true → o.overtaken = o.diverted

/-- Nothing has been observed after a reset. -/
theorem inv_reset (P : HartParams) : Inv P (reset n) where
  core := WbCore.inv_reset
  fault := Lsu.faultInv_reset
  rest := fun _ _ => ⟨rfl, rfl⟩
  access := fun h => nomatch h
  errors := fun h => by simp [reset, core, WbHart.reset, WbCore.reset, Ctrl.reset] at h
  diverted := fun h => nomatch h

variable {P o x}

/-! ### The transactions -/

/-- The bus protocol is that of the log. -/
theorem faultOk (hi : Inv P o) (hok : BusOk P o x) :
    Lsu.FaultOk o.core.lsu o.log (o.lsuIn P x) where
  gnt := by
    intro hg
    have h : (_ && !_) = true := hok.gnt hg
    rwa [Bool.and_eq_true, Bool.not_eq_true'] at h
  rvalid := hok.rvalid
  pmpWait := hok.pmpWait
  pmpGranted := hok.pmpGranted
  incr := fun ha => if_pos ha
  start := by
    intro hf hr
    have hx := (WbCore.of_lsuReq hr).1
    have hout := (WbCore.of_instrExecuting hx).2.2.2.2.2
    cases hin : o.inWb with
    | false =>
        have hnone := (hi.rest hin (by simp [Lsu.busy, hf])).1
        rw [FaultLog.answer]
        split_ifs <;> simp [hnone]
    | true =>
        have h : (o.inWb && !WbCore.lsuValid P.cfg o.core (o.coreIn P x)) = false := hout
        rw [hin, Bool.true_and, Bool.not_eq_false'] at h
        exact Lsu.answer_pending hi.fault hok.rvalid h

/-- The LSU answers an access in write-back only. -/
theorem inWb_of_lsuValid (hi : Inv P o) (hok : BusOk P o x)
    (h : WbCore.lsuValid P.cfg o.core (o.coreIn P x) = true) : o.inWb = true := by
  by_contra hne
  rw [Bool.not_eq_true] at hne
  simp only [WbCore.lsuValid, Lsu.lsuRespValid, Bool.and_eq_true, Bool.or_eq_true, beq_iff_eq] at h
  obtain ⟨hv, hf⟩ := h
  obtain ⟨hnone, hp⟩ := hi.rest hne (by simp [Lsu.busy, hf])
  exact hok.rvalid (hv.resolve_right (by simp [hp])) hnone

/-- The LSU keeps the direction of the access in write-back. -/
theorem dataWeQ_of_inWb (hi : Inv P o) (h : o.inWb = true) :
    o.core.lsu.dataWeQ = o.core.wb.outstandingStoreWb := by
  cases hs : o.core.wb.outstandingStoreWb with
  | true => exact hi.core.wbStore hs
  | false => exact hi.core.wbLoad (by simpa [inWb, hs] using h)

/-- An access that failed is one for which the LSU signals an error, and it is the one in
write-back. -/
theorem fault_eq (hi : Inv P o) (hok : BusOk P o x) :
    o.fault P x =
      if Ctrl.excReqLsu (o.ctrlDec P x) then
        some ⟨if (o.ctrlDec P x).storeErr then .storeAccessFault else .loadAccessFault,
          o.core.wb.wbPcQ, o.core.lsu.addrLastQ⟩
      else none := by
  have hstore : (o.ctrlDec P x).storeErr = o.core.lsu.storeErr (o.lsuIn P x) := rfl
  have hload : (o.ctrlDec P x).loadErr = o.core.lsu.loadErr (o.lsuIn P x) := rfl
  have hvalid : WbCore.lsuValid P.cfg o.core (o.coreIn P x)
      = o.core.lsu.lsuRespValid (o.lsuIn P x) := rfl
  rw [Ctrl.excReqLsu, hstore, hload, Lsu.storeErr, Lsu.loadErr, fault, hvalid]
  cases hresp : o.core.lsu.lsuRespValid (o.lsuIn P x) with
  | false => simp
  | true =>
      have hin := inWb_of_lsuValid hi hok (hvalid.trans hresp)
      rw [Lsu.answer_first hi.fault hok.rvalid hresp, hi.access hin, ← dataWeQ_of_inWb hi hin]
      cases o.core.lsu.dataOrPmpErr (o.lsuIn P x) <;> cases o.core.lsu.dataWeQ <;> rfl

/-! ### Steps -/

/-- Without an instruction that executes nothing leaves ID, writes a CSR or asks for
memory. -/
theorem silent_of_not_executing
    (hx : WbCore.instrExecuting P.cfg o.core (o.coreIn P x) = false) :
    WbCore.enWb P.cfg o.core (o.coreIn P x) = false ∧
      o.hart.csr.csrWeInt P.toCsrParams (o.hart.csrIn P x) = false ∧
      WbCore.lsuReq P.cfg o.core (o.coreIn P x) = false := by
  have hx' : IdWb.instrExecuting P.cfg o.core.idFsm (WbCore.idIn P.cfg o.core (o.coreIn P x))
      = false := hx
  have hop : (o.hart.csrIn P x).csrOpEn = WbCore.csrOpEn P.cfg o.core (o.coreIn P x) := rfl
  have hop' : WbCore.csrOpEn P.cfg o.core (o.coreIn P x) = false := by
    simp [WbCore.csrOpEn, IdWb.csrOpEn, hx']
  refine ⟨?_, ?_, ?_⟩
  · simp [WbCore.enWb, IdWb.instrDone, hx']
  · simp [CsRegs.csrWeInt, CsRegs.csrWreq, hop, hop']
  · simp [WbCore.lsuReq, IdWb.lsuReq, hx']

/-- Then there is no effect but of the controller. -/
theorem younger_eq (hx : WbCore.instrExecuting P.cfg o.core (o.coreIn P x) = false)
    (hl : o.core.ctrl.loadErrQ = false) (hs : o.core.ctrl.storeErrQ = false) :
    o.younger P x = o.diverts P x := by
  obtain ⟨hen, hcsr, hreq⟩ := silent_of_not_executing hx
  have hsave : (o.hart.csrIn P x).csrSaveCause = _ :=
    Ctrl.out_csrSaveCause o.core.ctrl (WbCore.ctrlIn P.cfg o.core (o.coreIn P x))
  have hmret : (o.hart.csrIn P x).csrRestoreMret = _ :=
    Ctrl.out_csrRestoreMretId o.core.ctrl (WbCore.ctrlIn P.cfg o.core (o.coreIn P x))
  have hdret : (o.hart.csrIn P x).csrRestoreDret = _ :=
    Ctrl.out_csrRestoreDretId o.core.ctrl (WbCore.ctrlIn P.cfg o.core (o.coreIn P x))
  have hdec : (WbCore.ctrlIn P.cfg o.core (o.coreIn P x)).toCtrlDec = o.ctrlDec P x := rfl
  rw [hdec] at hsave
  simp only [younger, diverts, hen, hcsr, hreq, hsave, hmret, hdret, Bool.false_or,
    Ctrl.mretFlush, Ctrl.dretFlush, Ctrl.flushExc, Ctrl.ebreakForced, hl, hs, hdec]
  cases hf : o.core.ctrl.ctrlFsm with
  | flush =>
      cases o.core.ctrl.excReqQ with
      | true => simp
      | false => cases Ctrl.mretInsn (o.ctrlDec P x) <;> simp
  | irqTaken => simp [show (CtrlFsm.irqTaken == CtrlFsm.flush) = false from rfl]
  | dbgTakenIf => simp [show (CtrlFsm.dbgTakenIf == CtrlFsm.flush) = false from rfl]
  | dbgTakenId => simp [show (CtrlFsm.dbgTakenId == CtrlFsm.flush) = false from rfl]
  | _ => rfl

/-- The write-back stage holds a load or store. -/
theorem inWb_iff :
    o.inWb = true ↔ o.core.wb.wbValidQ = true ∧ o.core.wb.wbInstrTypeQ ≠ .other :=
  WbCore.inWb_iff

/-- While an access waits in write-back the flops of the LSU errors are clear. -/
theorem errors_of_inWb (hi : Inv P o) (h : o.inWb = true) :
    o.core.ctrl.loadErrQ = false ∧ o.core.ctrl.storeErrQ = false := by
  rw [← Bool.or_eq_false_iff, ← Bool.not_eq_true, Bool.or_eq_true]
  intro herr
  have hgone := hi.errors herr
  rw [(inWb_iff.mp h).1] at hgone
  cases hgone

/-- An access that waits in write-back after a cycle has just left ID, or has waited for
the whole cycle. -/
theorem inWb_next (h : (o.next P x).inWb = true) :
    (o.leaves P x = true ∧ (o.next P x).core.wb.wbPcQ = o.core.pcId ∧
      (o.next P x).core.wb.outstandingStoreWb = (WbCore.main P.cfg o.core).dataWe) ∨
    (o.leaves P x = false ∧ WbCore.instrExecuting P.cfg o.core (o.coreIn P x) = false ∧
      o.inWb = true ∧ (o.next P x).core.wb.wbPcQ = o.core.wb.wbPcQ ∧
      (o.next P x).core.wb.outstandingStoreWb = o.core.wb.outstandingStoreWb) := by
  obtain ⟨hv, ht⟩ := inWb_iff.mp h
  have hnext : (o.next P x).core = WbCore.next P.cfg o.core (o.coreIn P x) := rfl
  rw [hnext] at hv ht ⊢
  have hpc : (WbCore.next P.cfg o.core (o.coreIn P x)).wb.wbPcQ
      = if WbCore.enWb P.cfg o.core (o.coreIn P x) then o.core.pcId else o.core.wb.wbPcQ := rfl
  obtain ⟨hen, hm, htype⟩ | ⟨hen, hout, htype, hv'⟩ := WbCore.wb_next hv ht
  · refine Or.inl ⟨by simp [leaves, hen, hm], by rw [hpc, if_pos hen], ?_⟩
    rw [WbStage.outstandingStoreWb, hv, htype]
    cases (WbCore.main P.cfg o.core).dataWe <;> rfl
  · have hx : WbCore.instrExecuting P.cfg o.core (o.coreIn P x) = false := by
      by_contra hne
      rw [Bool.not_eq_false] at hne
      have := (WbCore.of_instrExecuting hne).2.2.2.2.2
      rw [hout] at this
      cases this
    rw [htype] at ht
    refine Or.inr ⟨by simp [leaves, hen], hx, inWb_iff.mpr ⟨hv', ht⟩, by simp [hpc, hen], ?_⟩
    rw [WbStage.outstandingStoreWb, WbStage.outstandingStoreWb, hv, hv', htype]

/-- An access is gone from write-back only with its last response. -/
theorem lsuValid_of_gone (h : o.inWb = true) (h' : (o.next P x).inWb = false) :
    WbCore.lsuValid P.cfg o.core (o.coreIn P x) = true :=
  WbCore.lsuValid_of_gone h h'

/-- With nothing in write-back and the LSU idle nothing is outstanding. -/
theorem rest_next (hi : Inv P o) (hok : BusOk P o x) (hin : (o.next P x).inWb = false)
    (hb : (o.next P x).core.lsu.busy = false) :
    (o.next P x).log.pending = [] ∧ (o.next P x).core.lsu.pmpErrQ = false := by
  have hlsu : (o.next P x).core.lsu = o.core.lsu.next (o.lsuIn P x) := rfl
  cases hreq : WbCore.lsuReq P.cfg o.core (o.coreIn P x) with
  | true =>
      -- a request that is complete moves on to write-back
      have hstay : (o.next P x).inWb = true := WbCore.inWb_of_lsuReq hreq hb
      rw [hin] at hstay
      cases hstay
  | false =>
      have hf := hi.core.idle_of_not_lsuReq hreq
      have hreq' : (o.lsuIn P x).lsuReq = false := hreq
      have hg : (o.lsuIn P x).dataGnt = false := by
        by_contra hne
        rw [Bool.not_eq_false] at hne
        have := ((faultOk hi hok).gnt hne).1
        simp [Lsu.step_dataReq, hf, hreq'] at this
      have hlog : (o.next P x).log.pending = (o.log.answer (o.lsuIn P x)).pending := by
        change (o.log.next o.core.lsu (o.lsuIn P x)).pending = _
        simp [FaultLog.next, hg]
      rw [hlog, hlsu]
      refine ⟨?_, by simp [Lsu.next, Lsu.step, hf, hreq']⟩
      cases hold : o.inWb with
      | true =>
          exact Lsu.answer_pending hi.fault hok.rvalid (lsuValid_of_gone hold hin)
      | false =>
          have hnone := (hi.rest hold (by simp [Lsu.busy, hf])).1
          rw [FaultLog.answer]
          split_ifs <;> simp [hnone]

/-- In the cycle of an error nothing executes, and write-back is empty afterwards. -/
theorem gone_of_excReqLsu (h : Ctrl.excReqLsu (o.ctrlDec P x) = true) :
    WbCore.instrExecuting P.cfg o.core (o.coreIn P x) = false ∧
      (o.next P x).core.wb.wbValidQ = false := by
  have herr : (WbCore.storeErr P.cfg o.core (o.coreIn P x)
      || WbCore.loadErr P.cfg o.core (o.coreIn P x)) = true := h
  have hexc : WbCore.wbException P.cfg o.core (o.coreIn P x) = true := by
    rw [WbCore.wbException, Bool.or_assoc, Bool.or_comm (WbCore.loadErr ..), herr, Bool.or_true]
  have hx : WbCore.instrExecuting P.cfg o.core (o.coreIn P x) = false := by
    by_contra hne
    rw [Bool.not_eq_false] at hne
    have := (WbCore.of_instrExecuting hne).2.2.1
    rw [hexc] at this
    cases this
  have hvalid : WbCore.lsuValid P.cfg o.core (o.coreIn P x) = true := by
    by_contra hne
    rw [Bool.not_eq_true] at hne
    obtain ⟨hl, hs⟩ := WbCore.errors_of_not_lsuValid hne
    simp [hl, hs] at herr
  have hen := (silent_of_not_executing hx).1
  have hout : WbCore.outstanding P.cfg o.core (o.coreIn P x) = false := by
    rw [WbCore.outstanding, hvalid, Bool.not_true, Bool.and_false]
  exact ⟨hx, WbCore.wbValidQ_next hen hout⟩

/-- One cycle keeps the invariant. -/
theorem inv_next (hi : Inv P o) (hok : BusOk P o x) : Inv P (o.next P x) where
  core := WbCore.inv_next hi.core
  fault := Lsu.faultInv_next hi.fault (faultOk hi hok)
  rest := rest_next hi hok
  access := by
    intro h
    obtain ⟨hl, hpc, hst⟩ | ⟨hl, -, hin, hpc, hst⟩ := inWb_next h
    · have hacc : (o.next P x).access
          = ((WbCore.main P.cfg o.core).dataWe, o.core.pcId) := if_pos hl
      rw [hacc, hpc, hst]
    · have hacc : (o.next P x).access = o.access := by simp [next, hl]
      rw [hacc, hi.access hin, hpc, hst]
  errors := fun h => (gone_of_excReqLsu (Bool.or_eq_true_iff.mpr h.symm)).2
  diverted := by
    intro h
    obtain ⟨hl, -⟩ | ⟨hl, hx, hin, -⟩ := inWb_next h
    · simp [next, hl]
    · have herr := errors_of_inWb hi hin
      simp [next, hl, hi.diverted hin, younger_eq hx herr.1 herr.2]

/-- The invariant holds in every run on a bus that keeps to its protocol. -/
theorem inv_run {ins : List WbHartIn} (hok : Machine.Along (next P) (BusOk P) (reset n) ins) :
    Inv P (Machine.run (next P) (reset n) ins) :=
  Machine.run_induction (Inv P) (fun _ _ => inv_next) (inv_reset P) hok

end WbObs

end CocoIbex
