import CocoIbex.Assertions
import CocoIbex.SingleStep

/-!
# The Hart without Traps

A hart whose CSRs allow no interrupt, no single step and no trigger, and that is asked for
nothing from outside: the controller starts it, and then stays in `DECODE` as long as the
instructions ask for nothing special. What one cycle does in each of these states.

Three things keep a program undisturbed. The registers after a reset enable nothing (`Calm`),
and only a CSR instruction or a trap could change that; the requests from outside are absent
(`Undisturbed`); and the instructions are ordinary, so that the special requests are low. Under
these conditions the controller has four states that matter, from the reset to `DECODE`
(`CtrlFsm.Ordinary`), and in each of them it is known what it asks of the fetch and of ID.

## Main results

* `of_booting` — the controller sends the fetch to the boot address;
* `of_waiting` — ID waits for a word;
* `of_ordinary` — ID is ready when the instruction in it does not stall;
* `loaded_of_deliver` — a word that is handed over is in ID in the next cycle.
-/

namespace CocoIbex

/-- The states before the first trap. -/
def CtrlFsm.Ordinary (s : CtrlFsm) : Prop :=
  s = .reset ∨ s = .bootSet ∨ s = .firstFetch ∨ s = .decode

/-- Neither a non-maskable interrupt nor a debug request, and the fetch is enabled. -/
structure HartIn.Undisturbed (x : HartIn) : Prop where
  irqNm : x.irqNm = false
  debugReq : x.debugReq = false
  fetchEnable : x.fetchEnable = true

/-- `{boot_addr_i[31:8], 8'h80}` as a half-word address. -/
def HartIn.bootPc (x : HartIn) : BitVec 31 :=
  (x.bootAddr.extractLsb' 8 24 ++ 0x80#8).extractLsb' 1 31

namespace HartObs

variable {n : ℕ} {P : HartParams} {o : HartObs n} {x : HartIn}

/-! ### The CSRs -/

/-- The CSRs allow no interrupt, no single step and no trigger, and branches take as long as
they need. -/
structure Calm (o : HartObs n) : Prop where
  mie : o.csr.mstatus.mie = false
  step : o.csr.dcsr.step = false
  tmatchControl : o.csr.tmatchControl = false
  dataIndTimingQ : o.csr.dataIndTimingQ = false

/-- The hart is calm after a reset. -/
theorem calm_reset (a : BitVec 31) : Calm (reset n a) := ⟨rfl, rfl, rfl, rfl⟩

/-- No debug mode is asked for. -/
theorem Calm.enterDebugMode (hc : Calm o) (hx : x.Undisturbed) :
    o.core.ctrl.enterDebugMode (Core.ctrlIn P.cfg o.core (o.coreIn P x)).toCtrlDec = false := by
  have hreq : (Core.ctrlIn P.cfg o.core (o.coreIn P x)).debugReq = x.debugReq := rfl
  have hstep : (Core.ctrlIn P.cfg o.core (o.coreIn P x)).debugSingleStep = o.csr.dcsr.step := rfl
  have htrig : (Core.ctrlIn P.cfg o.core (o.coreIn P x)).triggerMatch
      = (P.dbgTriggerEn && o.csr.tmatchControl && o.hart.pcIf == o.csr.tmatchValue) := rfl
  simp [Ctrl.enterDebugMode, hreq, hstep, htrig, hx.debugReq, hc.step, hc.tmatchControl]

/-- No interrupt is taken. -/
theorem Calm.handleIrq (hc : Calm o) (hx : x.Undisturbed) :
    o.core.ctrl.handleIrq (Core.ctrlIn P.cfg o.core (o.coreIn P x)).toCtrlDec = false := by
  have hnm : (Core.ctrlIn P.cfg o.core (o.coreIn P x)).irqNm = x.irqNm := rfl
  have hmie : (Core.ctrlIn P.cfg o.core (o.coreIn P x)).csrMstatusMie = o.csr.mstatus.mie := rfl
  simp [Ctrl.handleIrq, hnm, hmie, hx.irqNm, hc.mie]

/-- A calm hart does not stretch its branches. -/
theorem Calm.dataIndTiming (hc : Calm o) : o.csr.dataIndTiming P.toCsrParams = false := by
  simp [CsRegs.dataIndTiming, hc.dataIndTimingQ]

/-- Without a write of ID the CSRs stay calm. -/
theorem Calm.next (hc : Calm o) (hf : o.core.ctrl.ctrlFsm.Ordinary)
    (hen : Core.csrOpEn P.cfg o.core (o.coreIn P x) = false) : Calm (o.next P x) := by
  have hcause : (o.hart.csrIn P x).csrSaveCause = false := by
    refine (Ctrl.out_csrSaveCause o.core.ctrl (Core.ctrlIn P.cfg o.core (o.coreIn P x))).trans ?_
    obtain hf | hf | hf | hf := hf <;> rw [hf]
  have hmret : (o.hart.csrIn P x).csrRestoreMret = false := by
    refine (Ctrl.out_csrRestoreMretId o.core.ctrl
      (Core.ctrlIn P.cfg o.core (o.coreIn P x))).trans ?_
    obtain hf | hf | hf | hf := hf <;> simp [Ctrl.mretFlush, hf]
  have hdret : (o.hart.csrIn P x).csrRestoreDret = false := by
    refine (Ctrl.out_csrRestoreDretId o.core.ctrl
      (Core.ctrlIn P.cfg o.core (o.coreIn P x))).trans ?_
    obtain hf | hf | hf | hf := hf <;> simp [Ctrl.dretFlush, hf]
  have hen' : (o.hart.csrIn P x).csrOpEn = false := hen
  have hwe : ∀ a, o.csr.csrWe P.toCsrParams (o.hart.csrIn P x) a = false := fun a => by
    simp [CsRegs.csrWe, CsRegs.csrWeInt, CsRegs.csrWreq, hen']
  have hcsr : (o.next P x).csr = o.csr.written P.toCsrParams (o.hart.csrIn P x) := by
    change CsRegs.trapped _ _ _ = _
    simp only [CsRegs.trapped, hcause, hmret, hdret, Bool.false_eq_true, if_false]
    rfl
  constructor <;> rw [hcsr] <;> simp [CsRegs.written, CsRegs.tmatchWe, hwe, hc.mie, hc.step,
    hc.tmatchControl, hc.dataIndTimingQ]

/-! ### The start -/

/-- A word that is handed over starts an instruction. -/
structure Loaded (o o' : HartObs n) (x : HartIn) : Prop where
  valid : o'.core.ifId.instrValidId = true
  pcId : o'.core.pcId = o.hart.fetchAddrQ ++ 0#1
  word : o'.word = x.fetchRdata
  ended : o'.ended = false
  target : o'.target = none
  ctrlFsm : o'.core.ctrl.ctrlFsm = .decode
  fetchErr : o'.core.instrFetchErrId = x.fetchErr

/-- A word that is handed over is loaded into ID. -/
theorem loaded_of_deliver (hd : o.deliver P x = true) : Loaded o (o.next P x) x := by
  obtain ⟨hset, -, -, hnew⟩ := of_deliver hd
  have hset' : (Core.ifIdIn P.cfg o.core (o.coreIn P x)).pcSet = false := hset
  have hnew' := hnew
  simp only [IfIdIn.instrNewId, Bool.and_eq_true] at hnew'
  exact
    { valid := by
        change (o.core.ifId.next (Core.ifIdIn P.cfg o.core (o.coreIn P x))).instrValidId = true
        simp [IfIdReg.next, hnew'.1, hnew'.2, hset']
      pcId := if_pos hnew
      word := if_pos hnew
      ended := by simp [next, hd]
      target := if_pos hd
      ctrlFsm := (running_of_deliver hd).1
      fetchErr := if_pos hnew }

/-- The controller sends the fetch to the boot address. -/
theorem of_booting (hf : o.core.ctrl.ctrlFsm = .reset ∨ o.core.ctrl.ctrlFsm = .bootSet)
    (hx : x.Undisturbed) :
    o.redirect P x = some x.bootPc ∧ o.deliver P x = false ∧
      (o.next P x).core.ctrl.ctrlFsm
        = if o.core.ctrl.ctrlFsm = .reset then .bootSet else .firstFetch := by
  have hen : (Core.ctrlIn P.cfg o.core (o.coreIn P x)).fetchEnable = true := hx.fetchEnable
  have hns : (o.next P x).core.ctrl.ctrlFsm
      = (Ctrl.out o.core.ctrl (Core.ctrlIn P.cfg o.core (o.coreIn P x))).ctrlFsmNs := rfl
  have hset : (o.hart.ctrlOut P x).pcSet = true ∧ (o.hart.ctrlOut P x).pcMux = .boot := by
    change (Ctrl.out o.core.ctrl _).pcSet = true ∧ (Ctrl.out o.core.ctrl _).pcMux = .boot
    obtain hf | hf := hf <;> simp [Ctrl.out, hf, Ctrl.defaults]
  have hmux : (o.hart.trapUnit.ctrlOut P.trap (o.hart.trapIn P x)).pcMux = .boot := hset.2
  have haddr : (o.hart.fetchAddrN P x).extractLsb' 1 31 = x.bootPc := by
    rw [Hart.fetchAddrN, TrapUnit.fetchAddrN, hmux]
    rfl
  refine ⟨?_, ?_, ?_⟩
  · rw [redirect, if_pos hset.1, haddr]
  · have hset' : (Core.ctrlOut P.cfg o.core (o.coreIn P x)).pcSet = true := hset.1
    simp [deliver, Core.deliver, hset']
  · rw [hns]
    obtain hf | hf := hf <;> simp [Ctrl.out, hf, hen]

/-! ### ID is empty -/

/-- ID waits for a word. -/
theorem of_waiting (hi : Inv P o) (hok : BusOk P o x) (hc : Calm o) (hx : x.Undisturbed)
    (hf : o.core.ctrl.ctrlFsm = .firstFetch ∨ o.core.ctrl.ctrlFsm = .decode)
    (hv : o.core.ifId.instrValidId = false) :
    (o.hart.ctrlOut P x).pcSet = false ∧ o.hart.idInReady P x = true ∧
      (o.next P x).core.ctrl.ctrlFsm = .decode := by
  obtain ⟨hstall, hspecial⟩ := quiet_of_invalid hi hok hv
  have hdbg := hc.enterDebugMode (P := P) hx
  have hirq := hc.handleIrq (P := P) hx
  set y := Core.ctrlIn P.cfg o.core (o.coreIn P x) with hy
  have hst : y.stall = false := hstall
  have hval : y.instrValid = false := hv
  have hns : (o.next P x).core.ctrl.ctrlFsm = (Ctrl.out o.core.ctrl y).ctrlFsmNs := rfl
  have hset : (o.hart.ctrlOut P x).pcSet = (Ctrl.out o.core.ctrl y).pcSet := rfl
  have hready : o.hart.idInReady P x = (!y.stall && !(Ctrl.out o.core.ctrl y).haltIf) := rfl
  rw [hns, hset, hready]
  obtain hf | hf := hf
  · simp [Ctrl.out, hf, hdbg, hirq, hst, Ctrl.defaults]
  · simp [Ctrl.out, hf, Ctrl.decodeOut, hdbg, hirq, hst, hval, hspecial, Ctrl.defaults]

/-! ### An instruction executes -/

/-- Without a request for anything special ID is ready when the instruction does not stall. -/
theorem of_ordinary (hc : Calm o) (hx : x.Undisturbed) (he : Core.Executing o.core)
    (hs : o.core.ctrl.specialReqAll (Core.ctrlIn P.cfg o.core (o.coreIn P x)) = false) :
    o.hart.idInReady P x = !Core.stallId P.cfg o.core (o.coreIn P x) ∧
      (o.next P x).core.ctrl.ctrlFsm = .decode := by
  have hdbg := hc.enterDebugMode (P := P) hx
  have hirq := hc.handleIrq (P := P) hx
  set y := Core.ctrlIn P.cfg o.core (o.coreIn P x) with hy
  have hst : y.stall = Core.stallId P.cfg o.core (o.coreIn P x) := rfl
  have hns : (o.next P x).core.ctrl.ctrlFsm = (Ctrl.out o.core.ctrl y).ctrlFsmNs := rfl
  have hready : o.hart.idInReady P x = (!y.stall && !(Ctrl.out o.core.ctrl y).haltIf) := rfl
  rw [hns, hready, hst]
  simp [Ctrl.out, he.2.2, Ctrl.decodeOut, hdbg, hirq, hs]

end HartObs

end CocoIbex
