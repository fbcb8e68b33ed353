import CocoIbex.DebugMode
import CocoIbex.HardwareTrigger
import CocoIbex.PreciseTrap

/-!
# Ebreaks into Debug Mode

An ebreak that is to enter debug mode goes from `DECODE` through `FLUSH` to `DBG_TAKEN_ID`,
which saves its address in `dpc`. `FLUSH` gives way to any other request for debug mode: then
`DBG_TAKEN_IF` saves the address behind the ebreak, and the ebreak is lost
(`ebreak_recorded_iff`).

The ebreak stays in ID while the controller walks through the two states, since `FLUSH` does not
flush an instruction that is to be saved in `DBG_TAKEN_ID`. So three cycles are followed: the
one in which the ebreak is seen (`EbreakIn`), `FLUSH` (`EbreakFlush`) and the entry
(`EbreakTaken`). `OnlyEbreak` excludes what `FLUSH` prefers to it: a halt request, the trigger,
and the step bit of `dcsr`.

## Main results

* `decode_of_kept` and `ifId_of_kept` — what is kept in ID stays as it is;
* `csrWeInt_of_not_executing` — an instruction that does not execute writes no CSR;
* `ebreak_recorded_iff` — in every run the entry saves the address of the ebreak, the cause and
  the privilege level if and only if `FLUSH` meets no other request for debug mode.
-/

namespace CocoIbex

namespace Ctrl

variable {s : Ctrl} {y : CtrlIn}

/-- A state other than `DECODE` that halts and goes on to `DECODE` flushes ID. -/
theorem flushId_of_haltIf (hne : s.ctrlFsm ≠ .decode) (hn : (out s y).ctrlFsmNs = .decode)
    (hh : (out s y).haltIf = true) : flushId s y.toCtrlDec = true := by
  rw [← out_flushId]
  unfold out at hn hh ⊢
  cases hc : s.ctrlFsm with
  | decode => exact absurd hc hne
  | flush =>
      simp only [hc] at hn ⊢
      by_contra hk
      rw [Bool.not_eq_true] at hk
      have hbase : (flushBase s y).flushId = false := by simpa [flushOut_eq] using hk
      obtain h | h := flushOut_of_kept s y hbase <;> simp [h] at hn
  | firstFetch =>
      simp only [hc, Bool.or_eq_true] at hn hh
      cases hd : enterDebugMode s y.toCtrlDec <;> cases hi : handleIrq s y.toCtrlDec <;>
        simp_all
  | irqTaken =>
      simp only [hc, irqTakenOut] at hh
      cases hi : handleIrq s y.toCtrlDec <;> simp [hi, defaults] at hh
  | dbgTakenIf =>
      simp only [hc, dbgTakenIfOut] at hh
      cases hi : debugCauseStands y.toCtrlDec <;> simp [hi, defaults] at hh
  | dbgTakenId => rfl
  | _ => simp [hc, defaults] at hn hh ⊢

/-- What `FLUSH` does for an ebreak into debug mode, and where it goes on. -/
theorem out_ebreakDebug (hx : flushExc s = true) (hb : ebreakDebug s y.toCtrlDec = true) :
    let o := out s y
    o.ctrlFsmNs = (if enterDebugMode s y.toCtrlDec then .dbgTakenIf else .dbgTakenId) ∧
      o.debugModeD = s.debugModeQ ∧ o.pcSet = false ∧ o.haltIf = true ∧ o.flushId = false ∧
      o.csrSaveCause = false ∧ o.csrRestoreMretId = false ∧ o.csrRestoreDretId = false := by
  simp only [flushExc, Bool.and_eq_true, beq_iff_eq] at hx
  simp [out, hx.1, flushOut_eq, flushBase, hx.2, hb, defaults]

end Ctrl

namespace Core

variable {cfg : Config} {s : Core} {x : CoreIn}

/-- No branch is to be set for a word that is handed over. -/
theorem branchSetQ_of_deliver (hd : deliver cfg s x = true) :
    (next cfg s x).branchSetQ = false := by
  obtain ⟨-, hstall, -, hset⟩ := of_deliver hd
  by_contra hne
  have hset' : (IdStage.fsmOut cfg s.idFsm (idIn cfg s x)).branchSetD = true := by
    simpa [next, idOut] using hne
  obtain ⟨he, -⟩ := IdStage.fsmOut_of_branchSetD cfg _ _ hset'
  rw [pcSet_of_executing (instrExecuting_iff.mp he), Bool.or_eq_false_iff, branchSet] at hset
  split_ifs at hset with hc
  · rw [idOut, hset'] at hset
    cases hset.1
  · have hs := IdStage.stallId_of_branchSetD cfg _ _ hset' (by simpa using hc)
    rw [stallId, hs] at hstall
    cases hstall

/-- An instruction that is neither a branch nor a jump leaves the fetch alone in `DECODE`. -/
theorem pcSet_of_not_inDec (hfsm : s.ctrl.ctrlFsm = .decode) (hq : s.branchSetQ = false)
    (hb : (main cfg s).branchInDec = false) (hj : (main cfg s).jumpInDec = false) :
    (ctrlOut cfg s x).pcSet = false := by
  have hno : (idOut cfg s x).branchSetD = false ∧ (idOut cfg s x).jumpSet = false := by
    rw [← Bool.or_eq_false_iff, ← Bool.not_eq_true, Bool.or_eq_true]
    intro h
    have := IdStage.inDec_of_fsmOut cfg _ _ h
    simp [hb, hj] at this
  have hset : branchSet cfg s x = false := by
    rw [branchSet, hno.1, hq, ite_self]
  simp [ctrlOut, Ctrl.out, hfsm, Ctrl.decodeOut, ctrlIn, hset, hno.2]

end Core

namespace HartObs

variable {n : ℕ} {P : HartParams} {o : HartObs n} {x x' x'' : HartIn}

/-! ### Where the fetch stands -/

/-- An ebreak in `DECODE` came with the last word: it has not ended, nor redirected the
fetch, and no branch is to be set. -/
def EbreakFresh (P : HartParams) (o : HartObs n) : Prop :=
  o.core.ifId.instrValidId = true → (Core.main P.cfg o.core).ebrkInsn = true →
    o.core.ctrl.ctrlFsm = .decode →
      o.ended = false ∧ o.target = none ∧ o.core.branchSetQ = false

/-- An ebreak is special. -/
theorem special_of_ebrkInsn (hv : o.core.ifId.instrValidId = true)
    (hb : (Core.main P.cfg o.core).ebrkInsn = true) (hfsm : o.core.ctrl.ctrlFsm = .decode) :
    o.core.ctrl.specialReqAll (Core.ctrlIn P.cfg o.core (o.coreIn P x)) = true := by
  have hebrk : Ctrl.ebrkInsn (Core.ctrlDec P.cfg o.core (o.coreIn P x)) = true := by
    simp [Ctrl.ebrkInsn, Core.ctrlDec, hv, hb]
  have hdec : (Core.ctrlIn P.cfg o.core (o.coreIn P x)).toCtrlDec
      = Core.ctrlDec P.cfg o.core (o.coreIn P x) := rfl
  simp [Ctrl.specialReqAll, Ctrl.excReqD, hdec, hebrk, hfsm]

/-- The pipeline registers of an instruction that stays in ID are as before. -/
theorem ifId_of_kept (hi : Inv P o) (hi' : Inv P (o.next P x)) (hd : o.deliver P x = false)
    (hv : (o.next P x).core.ifId.instrValidId = true) :
    (o.next P x).core.ifId = o.core.ifId := by
  obtain ⟨hv', -, hword⟩ := kept_next hd hv
  rw [(hi'.ifId hv).1, (hi.ifId hv').1, hword]

/-- An instruction that stays in ID is an ebreak as before. -/
theorem ebrkInsn_next (hi : Inv P o) (hi' : Inv P (o.next P x)) (hd : o.deliver P x = false)
    (hv : (o.next P x).core.ifId.instrValidId = true) :
    (Core.main P.cfg (o.next P x).core).ebrkInsn = (Core.main P.cfg o.core).ebrkInsn := by
  rw [Core.main, Core.main, ifId_of_kept hi hi' hd hv]
  exact (mainDecode_system ..).2

/-- An ebreak is no load or store. -/
theorem memInsn_of_ebrkInsn (hb : (Core.main P.cfg o.core).ebrkInsn = true) :
    Core.memInsn P.cfg o.core = false := by
  by_contra hm
  have hno := (Core.onlyMem ((Bool.not_eq_false _).mp hm)).ebrkInsn
  rw [hb] at hno
  cases hno

/-- Where the controller goes on to `DECODE`, an instruction that is no load or store is kept
in ID by its own stall only. -/
theorem decode_of_kept (hi : Inv P o) (hd : o.deliver P x = false)
    (hv : (o.next P x).core.ifId.instrValidId = true) (hm : Core.memInsn P.cfg o.core = false)
    (hfsm : (o.next P x).core.ctrl.ctrlFsm = .decode) :
    o.core.ctrl.ctrlFsm = .decode ∧ Core.stallId P.cfg o.core (o.coreIn P x) = true := by
  have hd' : Core.deliver P.cfg o.core (o.coreIn P x) = false := hd
  obtain ⟨-, hflush, hhold, -, -⟩ := Core.instr_next hd' hv
  have hns : (Ctrl.out o.core.ctrl (Core.ctrlIn P.cfg o.core (o.coreIn P x))).ctrlFsmNs
      = .decode := hfsm
  by_cases hc : o.core.ctrl.ctrlFsm = .decode
  · refine ⟨hc, ?_⟩
    by_contra hne
    rw [Bool.not_eq_true] at hne
    have hhalt := hhold.resolve_left (by simp [hne])
    -- a halt ends `DECODE`
    obtain hn | hn | ⟨hn, -⟩ := Core.next_of_haltIf hc hne hhalt <;>
      · rw [show (Core.next P.cfg o.core (o.coreIn P x)).ctrl.ctrlFsm = .decode from hfsm] at hn
        cases hn
  · -- nothing stalls it, and a halt is a flush
    have hex : ¬ Core.Executing o.core := fun h => hc h.2.2
    have hbusy := (hi.core.rest fun h => hex h.1).1
    have hstall := Core.stallId_of_not_executing (x := o.coreIn P x) hex hbusy hm
    have hhalt := hhold.resolve_left (by simp [hstall])
    have hkill : Core.flushId P.cfg o.core (o.coreIn P x) = true :=
      Ctrl.flushId_of_haltIf hc hns hhalt
    rw [hflush] at hkill
    cases hkill

/-- In `DECODE` an ebreak does not stay. -/
theorem ebreakFresh_next (hi : Inv P o) (hok : BusOk P o x) : EbreakFresh P (o.next P x) := by
  intro hv hb hfsm
  have hi' := inv_next hi hok
  cases hd : o.deliver P x with
  | true =>
      refine ⟨by simp [next, hd], by simp [next, hd], ?_⟩
      exact Core.branchSetQ_of_deliver hd
  | false =>
      exfalso
      rw [ebrkInsn_next hi hi' hd hv] at hb
      have hv' := (kept_next hd hv).1
      have hc := (decode_of_kept hi hd hv (memInsn_of_ebrkInsn hb) hfsm).1
      -- it goes on to `FLUSH`
      have hns : (Ctrl.out o.core.ctrl (Core.ctrlIn P.cfg o.core (o.coreIn P x))).ctrlFsmNs
          = .decode := hfsm
      have hsp := special_of_ebrkInsn (x := x) hv' hb hc
      have hvalid : (Core.ctrlIn P.cfg o.core (o.coreIn P x)).instrValid = true := hv'
      simp [Ctrl.out, hc, Ctrl.decodeOut, hsp, hvalid] at hns

/-- What is remembered of an EBREAK is fresh in every run. -/
theorem ebreakFresh_run (a : BitVec 31) {ins : List HartIn}
    (hok : Machine.Along (next P) (BusOk P) (reset n a) ins) :
    EbreakFresh P (Machine.run (next P) (reset n a) ins) := by
  refine (Machine.run_induction (fun o => Inv P o ∧ EbreakFresh P o) ?_ ⟨inv_reset P a, ?_⟩ hok).2
  · rintro o x ⟨hi, -⟩ hx
    exact ⟨inv_next hi hx, ebreakFresh_next hi hx⟩
  · intro hv
    cases hv

/-! ### The three cycles -/

/-- ID executes an ebreak that is to enter debug mode: the core is outside of it, `ebreakm`
or `ebreaku` is set for its mode, and no exception of the cycle has a higher priority. -/
structure EbreakIn (P : HartParams) (o : HartObs n) (x : HartIn) : Prop where
  valid : o.core.ifId.instrValidId = true
  fsm : o.core.ctrl.ctrlFsm = .decode
  debugModeQ : o.core.ctrl.debugModeQ = false
  exception : o.exception P x = some (.breakpoint, 0#32)
  into : Ctrl.ebreakIntoDebug (o.ctrlDec P x) = true

/-- `o'` is in debug mode for the ebreak that is in ID in `o`, and nothing else is saved. -/
structure EbreakRecorded (o o' : HartObs n) : Prop where
  debugModeQ : o'.core.ctrl.debugModeQ = true
  depc : o'.csr.depc = o.core.pcId
  mepc : o'.csr.mepc = o.csr.mepc
  mcause : o'.csr.mcause = o.csr.mcause
  mstatus : o'.csr.mstatus = o.csr.mstatus

/-- What is recorded depends on the PC in ID and on the CSRs. -/
theorem ebreakRecorded_iff {o' : HartObs n} :
    EbreakRecorded o o' ↔ o'.core.ctrl.debugModeQ = true ∧ o'.csr.depc = o.core.pcId ∧
      o'.csr.mepc = o.csr.mepc ∧ o'.csr.mcause = o.csr.mcause ∧
      o'.csr.mstatus = o.csr.mstatus :=
  ⟨fun h => ⟨h.debugModeQ, h.depc, h.mepc, h.mcause, h.mstatus⟩,
    fun h => ⟨h.1, h.2.1, h.2.2.1, h.2.2.2.1, h.2.2.2.2⟩⟩

/-- Nothing but the ebreak asks for debug mode: there is no halt request in the cycle `x'`
behind it, no single step, and no trigger at the address behind it. -/
def OnlyEbreak (P : HartParams) (o : HartObs n) (x' : HartIn) : Prop :=
  x'.debugReq = false ∧ o.csr.dcsr.step = false ∧
    o.csr.triggerMatch P.toCsrParams (o.hart.csrLines x') = false

/-- The ebreak raises its exception in this cycle. -/
theorem EbreakIn.ebrkInsn (h : EbreakIn P o x) :
    (Core.main P.cfg o.core).ebrkInsn = true ∧ (o.ctrlDec P x).instrFetchErr = false ∧
      o.illegal P x = false ∧ (o.ctrlDec P x).ecallInsn = false := by
  have he := h.exception
  have hmain : (Core.main P.cfg o.core).ebrkInsn = (o.ctrlDec P x).ebrkInsn := rfl
  rw [hmain]
  simp only [HartObs.exception, causes, List.find?_cons] at he
  cases h1 : (o.ctrlDec P x).instrFetchErr with
  | true => simp [h1] at he
  | false =>
    cases h2 : o.illegal P x with
    | true => simp [h1, h2] at he
    | false =>
      cases h3 : (o.ctrlDec P x).ecallInsn with
      | true =>
          simp only [h1, h2, h3] at he
          split_ifs at he <;> simp at he
      | false =>
        cases h4 : (o.ctrlDec P x).ebrkInsn with
        | true => exact ⟨rfl, rfl, rfl, rfl⟩
        | false =>
          cases h5 : (o.ctrlDec P x).storeErr <;> cases h6 : (o.ctrlDec P x).loadErr <;>
            simp [h1, h2, h3, h4, h5, h6] at he

/-- A cycle that halts ID hands over no word. -/
theorem deliver_of_halt (hh : (o.hart.ctrlOut P x).haltIf = true) : o.deliver P x = false := by
  by_contra hne
  have hno := (Core.of_deliver ((Bool.not_eq_false _).mp hne)).2.2.1
  have hh' : (Core.ctrlOut P.cfg o.core (o.coreIn P x)).haltIf = true := hh
  rw [hh'] at hno
  cases hno

/-- Behind the ebreak `FLUSH` sees it again, and neither the CSRs nor the fetch have moved. -/
structure EbreakFlush (P : HartParams) (o : HartObs n) (x x' : HartIn) : Prop where
  flushing : Flushing P o x
  ebreakDebug : (o.next P x).core.ctrl.ebreakDebug ((o.next P x).ctrlDec P x') = true
  enter : (o.next P x).core.ctrl.enterDebugMode ((o.next P x).ctrlDec P x') = false ↔
    OnlyEbreak P o x'
  fetchAddrQ : (o.next P x).hart.fetchAddrQ = o.hart.fetchAddrQ

/-- An EBREAK that goes to debug mode does so by FLUSH. -/
theorem ebreakFlush_of_ebreakIn (hi : Inv P o) (hfresh : EbreakFresh P o) (hok : BusOk P o x)
    (h : EbreakIn P o x) :
    EbreakFlush P o x x' := by
  have hf := flushing_of_raised hi hok h.fsm h.valid (raised_of_exception h.fsm h.valid h.exception)
  obtain ⟨hebrk, hfetch, hill, hecall⟩ := h.ebrkInsn
  obtain ⟨hvalid', hfetch', -, -, hecall', hebrk', -, hinto'⟩ := hf.ctrlDec x'
  have hebrk0 : (o.ctrlDec P x).ebrkInsn = true := hebrk
  have haddr : (o.next P x).hart.fetchAddrQ = o.hart.fetchAddrQ := by
    obtain ⟨hnobranch, hnojump⟩ := mainDecode_ebrkInsn hebrk
    have hset : (o.hart.ctrlOut P x).pcSet = false :=
      Core.pcSet_of_not_inDec h.fsm (hfresh h.valid hebrk h.fsm).2.2 hnobranch hnojump
    have hhalt : (o.hart.ctrlOut P x).haltIf = true :=
      (Ctrl.of_flush (s := o.core.ctrl) (y := Core.ctrlIn P.cfg o.core (o.coreIn P x))
        hf.fsm).2.2.2
    rw [fetchAddrQ_next (deliver_of_halt hhalt), redirect, hset]
    rfl
  have hcsr : (o.next P x).hart.csr = o.hart.csr := hf.csr
  refine ⟨hf, ?_, ?_, haddr⟩
  · simp [Ctrl.ebreakDebug, Ctrl.instrFetchErr, Ctrl.ecallInsn, Ctrl.ebrkInsn, hvalid', hfetch',
      hfetch, hf.illegalInsnQ, hill, hecall', hecall, hebrk', hebrk0, hinto', h.into]
  · have hdbg := hf.debugModeQ.trans h.debugModeQ
    have hpc : (o.next P x).hart.pcIf = o.hart.pcIf := by rw [Hart.pcIf, Hart.pcIf, haddr]
    have htrig : ((o.next P x).ctrlDec P x').triggerMatch
        = o.csr.triggerMatch P.toCsrParams (o.hart.csrLines x') := by
      change CsRegs.triggerMatch P.toCsrParams (o.next P x).hart.csr
        ((o.next P x).hart.csrLines x') = _
      rw [CsRegs.triggerMatch, CsRegs.triggerMatch, hcsr]
      change (_ && _ && (o.next P x).hart.pcIf == _) = (_ && _ && o.hart.pcIf == _)
      rw [hpc]
      rfl
    have hstep : ((o.next P x).ctrlDec P x').debugSingleStep = o.csr.dcsr.step :=
      congrArg (fun c : CsRegs n => c.dcsr.step) hcsr
    have hreq : ((o.next P x).ctrlDec P x').debugReq = x'.debugReq := rfl
    simp [Ctrl.enterDebugMode, hdbg, htrig, hstep, hreq, hvalid', OnlyEbreak, and_assoc]

/-- An instruction that does not execute writes no CSR. -/
theorem csrWeInt_of_not_executing (hx : ¬ Core.Executing o.core) :
    o.csr.csrWeInt P.toCsrParams (o.hart.csrIn P x) = false := by
  have hen : Core.csrOpEn P.cfg o.core (o.coreIn P x) = false := by
    simp [Core.csrOpEn, IdStage.csrOpEn, Core.instrExecuting_eq_false hx]
  have hen' : (o.hart.csrIn P x).csrOpEn = false := hen
  simp [CsRegs.csrWeInt, CsRegs.csrWreq, hen']

/-- The CSRs are as before when the controller saves and restores nothing and ID does not
execute. -/
theorem csr_next_of_quiet (hx : ¬ Core.Executing o.core)
    (hb : ((o.hart.ctrlOut P x).pcMux == .boot && (o.hart.ctrlOut P x).pcSet) = false)
    (hc : (o.hart.ctrlOut P x).csrSaveCause = false)
    (hd : (o.hart.ctrlOut P x).csrRestoreDretId = false)
    (hm : (o.hart.ctrlOut P x).csrRestoreMretId = false) : (o.next P x).csr = o.csr :=
  CsRegs.next_eq_self (csrWeInt_of_not_executing hx) hb hc hd hm

/-- A cycle that halts ID and does not flush it leaves it as it is. -/
theorem id_next_of_halt (hh : (o.hart.ctrlOut P x).haltIf = true)
    (hf : (o.hart.ctrlOut P x).flushId = false) :
    o.deliver P x = false ∧ (o.next P x).core.ifId = o.core.ifId ∧
      (o.next P x).core.pcId = o.core.pcId := by
  set y := Core.ifIdIn P.cfg o.hart.core (o.hart.coreIn P x) with hy
  have hflush : y.flushId = false :=
    (Ctrl.out_flushId o.core.ctrl (Core.ctrlIn P.cfg o.core (o.coreIn P x))).symm.trans hf
  have hhalt : y.haltIf = true := hh
  have hready : y.idInReady = false := by simp [IfIdIn.idInReady, hhalt]
  have hnew : y.instrNewId = false := by simp [IfIdIn.instrNewId, hready]
  have hreg : o.hart.core.ifId.next y = o.hart.core.ifId := by
    simp [IfIdReg.next, hready, hnew, IfIdIn.instrValidClear, hhalt, hflush]
  refine ⟨?_, hreg, by simp [next, core, Hart.next, Core.next, ← hy, hnew]⟩
  change (y.instrNewId && _) = false
  rw [hnew, Bool.false_and]

/-- The second cycle: the ebreak is still in ID, the CSRs and the fetch have not moved, and
the controller enters debug mode for the ebreak or for another request. -/
structure EbreakTaken (P : HartParams) (o o'' : HartObs n) (x' : HartIn) : Prop where
  only : OnlyEbreak P o x' → o''.core.ctrl.ctrlFsm = .dbgTakenId
  other : ¬ OnlyEbreak P o x' → o''.core.ctrl.ctrlFsm = .dbgTakenIf
  debugModeQ : o''.core.ctrl.debugModeQ = false
  ifId : o''.core.ifId = o.core.ifId
  pcId : o''.core.pcId = o.core.pcId
  csr : o''.csr = o.csr
  fetchAddrQ : o''.hart.fetchAddrQ = o.hart.fetchAddrQ

/-- From FLUSH it is taken in the next cycle. -/
theorem EbreakFlush.taken (h : EbreakFlush P o x x') (hd : o.core.ctrl.debugModeQ = false) :
    EbreakTaken P o ((o.next P x).next P x') x' := by
  obtain ⟨hns, hdbg, hset, hhalt, hflush, hsave, hmret, hdret⟩ :=
    Ctrl.out_ebreakDebug (y := Core.ctrlIn P.cfg (o.next P x).core ((o.next P x).coreIn P x'))
      h.flushing.exc h.ebreakDebug
  have hout : (o.next P x).hart.ctrlOut P x' = Ctrl.out (o.next P x).core.ctrl
      (Core.ctrlIn P.cfg (o.next P x).core ((o.next P x).coreIn P x')) := rfl
  have hfsm : ((o.next P x).next P x').core.ctrl.ctrlFsm
      = ((o.next P x).hart.ctrlOut P x').ctrlFsmNs := rfl
  rw [← hout] at hns hdbg hset hhalt hflush hsave hmret hdret
  have hex : ¬ Core.Executing (o.next P x).core := by
    intro hx
    have := hx.2.2
    rw [h.flushing.fsm] at this
    cases this
  obtain ⟨hdel, hid, hpc⟩ := id_next_of_halt hhalt hflush
  have hcsr := csr_next_of_quiet hex (by simp [hset]) hsave hdret hmret
  refine ⟨fun hq => ?_, fun hq => ?_, ?_, ?_, ?_, ?_, ?_⟩
  · have henter := h.enter.mpr hq
    have henter' : (o.next P x).core.ctrl.enterDebugMode
        (Core.ctrlIn P.cfg (o.next P x).core ((o.next P x).coreIn P x')).toCtrlDec = false := henter
    rw [hfsm, hns, henter']
    rfl
  · have henter : (o.next P x).core.ctrl.enterDebugMode ((o.next P x).ctrlDec P x') = true := by
      rw [← Bool.not_eq_false]
      exact fun hne => hq (h.enter.mp hne)
    have henter' : (o.next P x).core.ctrl.enterDebugMode
        (Core.ctrlIn P.cfg (o.next P x).core ((o.next P x).coreIn P x')).toCtrlDec = true := henter
    rw [hfsm, hns, henter']
    rfl
  · exact hdbg.trans (h.flushing.debugModeQ.trans hd)
  · exact hid.trans h.flushing.ifId
  · exact hpc.trans h.flushing.pcId
  · exact hcsr.trans h.flushing.csr
  · rw [fetchAddrQ_next hdel, redirect, hset]
    exact h.fetchAddrQ

/-! ### The third cycle -/

/-- `DBG_TAKEN_ID` saves the address of the instruction in ID, and flushes it. -/
theorem next_of_dbgTakenId (hfsm : o.core.ctrl.ctrlFsm = .dbgTakenId)
    (hd : o.core.ctrl.debugModeQ = false) (hinto : Ctrl.ebreakIntoDebug (o.ctrlDec P x) = true) :
    EbreakRecorded o (o.next P x) ∧ (o.next P x).core.ifId.instrValidId = false := by
  have hout : o.hart.ctrlOut P x = Ctrl.dbgTakenIdOut o.core.ctrl (o.ctrlDec P x) := by
    change Ctrl.out o.core.ctrl (Core.ctrlIn P.cfg o.core (o.coreIn P x)) = _
    simp only [Ctrl.out, hfsm]
    rfl
  have hforced : (Ctrl.ebreakIntoDebug (o.ctrlDec P x) && !o.core.ctrl.debugModeQ) = true := by
    rw [hinto, hd]
    rfl
  have hsave : (o.hart.csrIn P x).csrSaveCause = true ∧ (o.hart.csrIn P x).debugCsrSave = true ∧
      (o.hart.csrIn P x).csrSaveIf = false ∧ (o.hart.csrIn P x).csrSaveId = true := by
    change (o.hart.ctrlOut P x).csrSaveCause = true ∧ (o.hart.ctrlOut P x).debugCsrSave = true ∧
      (o.hart.ctrlOut P x).csrSaveIf = false ∧ (o.hart.ctrlOut P x).csrSaveId = true
    simp only [hout, Ctrl.dbgTakenIdOut, hforced]
    exact ⟨trivial, trivial, rfl, trivial⟩
  obtain ⟨hcause, hdcsr, hif, hid⟩ := hsave
  have hpc : CsRegs.exceptionPc (o.hart.csrIn P x) = o.core.pcId := by
    simp only [CsRegs.exceptionPc, hcause, hif, hid, if_true, Bool.false_eq_true, if_false]
    rfl
  have hex : ¬ Core.Executing o.core := by
    intro hx
    have := hx.2.2
    rw [hfsm] at this
    cases this
  have hwe := CsRegs.csrWe_of_csrWeInt (csrWeInt_of_not_executing (P := P) (x := x) hex)
  have hcsr : (o.next P x).csr = CsRegs.next P.toCsrParams o.csr (o.hart.csrIn P x) := rfl
  refine ⟨⟨?_, ?_, ?_, ?_, ?_⟩, ?_⟩
  · change (o.hart.ctrlOut P x).debugModeD = true
    rw [hout]
    rfl
  · rw [hcsr, CsRegs.next, CsRegs.trapped, if_pos hcause, if_pos hdcsr, hpc]
  · rw [hcsr, CsRegs.next, CsRegs.trapped, if_pos hcause, if_pos hdcsr]
    simp [CsRegs.written, hwe]
  · rw [hcsr, CsRegs.next, CsRegs.trapped, if_pos hcause, if_pos hdcsr]
    simp [CsRegs.written, hwe]
  · rw [hcsr, CsRegs.next, CsRegs.trapped, if_pos hcause, if_pos hdcsr]
    simp [CsRegs.written, hwe]
  · have hset : (Core.ctrlOut P.cfg o.core (o.coreIn P x)).pcSet = true := by
      change (o.hart.ctrlOut P x).pcSet = true
      rw [hout]
      rfl
    have hflush : Core.flushId P.cfg o.core (o.coreIn P x) = true := by
      simp [Core.flushId, Ctrl.flushId, hfsm]
    have hdel : Core.deliver P.cfg o.core (o.coreIn P x) = false := by
      simp [Core.deliver, hset]
    change (Core.next P.cfg o.core (o.coreIn P x)).ifId.instrValidId = false
    simp [Core.instrValidId_next hdel, hflush]

/-- `DBG_TAKEN_IF` saves the address of the fetch if the request for debug mode is still
there, and does not enter it otherwise. -/
theorem not_recorded_of_dbgTakenIf (hfsm : o.core.ctrl.ctrlFsm = .dbgTakenIf)
    (hd : o.core.ctrl.debugModeQ = false) (hne : o.hart.pcIf ≠ o.core.pcId) :
    ¬ EbreakRecorded o (o.next P x) := by
  intro hr
  cases hstands : Ctrl.debugCauseStands (o.ctrlDec P x) with
  | true =>
      have hdepc := (Hart.next_of_dbgTakenIf (h := o.hart) hfsm hstands).2.1
      exact hne (hdepc.symm.trans hr.depc)
  | false =>
      have hmode : (o.next P x).core.ctrl.debugModeQ = false := by
        change (Ctrl.out o.core.ctrl (Core.ctrlIn P.cfg o.core (o.coreIn P x))).debugModeD = false
        have hstands' : Ctrl.debugCauseStands
            (Core.ctrlIn P.cfg o.core (o.coreIn P x)).toCtrlDec = false := hstands
        simp [Ctrl.out_debugModeD, hfsm, hstands', hd]
      rw [hr.debugModeQ] at hmode
      cases hmode

/-- The instruction in `DBG_TAKEN_IF` leaves ID, unless it is a load or store. -/
theorem gone_of_dbgTakenIf (hi : Inv P o) (hfsm : o.core.ctrl.ctrlFsm = .dbgTakenIf)
    (hm : Core.memInsn P.cfg o.core = false) (hd : o.deliver P x = false) :
    (o.next P x).core.ifId.instrValidId = false := by
  have hd' : Core.deliver P.cfg o.core (o.coreIn P x) = false := hd
  have hvalid := Core.instrValidId_next hd'
  cases hstands : Ctrl.debugCauseStands (o.ctrlDec P x) with
  | true => exact (Hart.next_of_dbgTakenIf (h := o.hart) hfsm hstands).2.2
  | false =>
      have hex : ¬ Core.Executing o.core := by
        intro hx
        have := hx.2.2
        rw [hfsm] at this
        cases this
      have hbusy := (hi.core.rest fun h => hex h.1).1
      have hstall := Core.stallId_of_not_executing (x := o.coreIn P x) hex hbusy hm
      have hstands' : Ctrl.debugCauseStands
          (Core.ctrlIn P.cfg o.core (o.coreIn P x)).toCtrlDec = false := hstands
      have hhalt : (Core.ctrlOut P.cfg o.core (o.coreIn P x)).haltIf = false := by
        simp [Core.ctrlOut, Ctrl.out, hfsm, Ctrl.dbgTakenIfOut, hstands', Ctrl.defaults]
      rw [hstall, hhalt] at hvalid
      exact hvalid.trans (by simp)

/-- The address behind an ebreak is another one. -/
theorem pcIf_ne_pcId (hi : Inv P o) (hfresh : EbreakFresh P o)
    (hv : o.core.ifId.instrValidId = true) (hb : (Core.main P.cfg o.core).ebrkInsn = true)
    (hfsm : o.core.ctrl.ctrlFsm = .decode) :
    o.hart.pcIf = (o.core.pcId.extractLsb' 1 31 + halves o.word) ++ 0#1 ∧
      o.hart.pcIf ≠ o.core.pcId := by
  obtain ⟨hended, htarget, -⟩ := hfresh hv hb hfsm
  have haddr := (hi.running hv hended).2
  rw [htarget, Option.getD_none] at haddr
  refine ⟨by rw [Hart.pcIf, haddr], fun heq => ?_⟩
  have hhigh : o.hart.pcIf.extractLsb' 1 31 = o.core.pcId.extractLsb' 1 31 := by rw [heq]
  have hlow : o.hart.pcIf.extractLsb' 1 31 = o.hart.fetchAddrQ :=
    BitVec.extractLsb'_append_eq_left
  rw [hlow, haddr] at hhigh
  have hzero : halves o.word = 0#31 := by simpa using hhigh
  rw [halves] at hzero
  split_ifs at hzero <;> cases hzero

/-! ### Runs -/

/-- **Ebreaks into debug mode.** In every run on a bus that keeps to its protocol, an ebreak
that is to enter debug mode stays in ID for two more cycles. Then the core is in debug mode
with its address in `dpc` if and only if nothing else asked for debug mode in the cycle
behind it: the trigger is compared with the address behind the ebreak. -/
theorem ebreak_recorded_iff (P : HartParams) (a : BitVec 31) (ins : List HartIn)
    (x x' x'' : HartIn)
    (hok : Machine.Along (next P) (BusOk P) (reset n a) (ins ++ [x, x', x''])) :
    let o := Machine.run (next P) (reset n a) ins
    let o'' := (o.next P x).next P x'
    EbreakIn P o x →
      (EbreakRecorded o (o''.next P x'') ↔ OnlyEbreak P o x') ∧
      o.hart.pcIf = (o.core.pcId.extractLsb' 1 31 + halves o.word) ++ 0#1 ∧
      o''.core.ifId.instrValidId = true ∧ o''.core.pcId = o.core.pcId ∧
      (o''.deliver P x'' = false → (o''.next P x'').core.ifId.instrValidId = false) := by
  intro o o'' he
  obtain ⟨hins, hx, hx', -⟩ := Machine.along_append.mp hok
  have hi : Inv P o := inv_run a hins
  have hfresh : EbreakFresh P o := ebreakFresh_run a hins
  have hi' : Inv P (o.next P x) := inv_next hi hx
  have hi'' : Inv P o'' := inv_next hi' hx'
  have hflush : EbreakFlush P o x x' := ebreakFlush_of_ebreakIn hi hfresh hx he
  have ht : EbreakTaken P o o'' x' := hflush.taken he.debugModeQ
  have hebrk := he.ebrkInsn.1
  obtain ⟨hpc, hne⟩ := pcIf_ne_pcId hi hfresh he.valid hebrk he.fsm
  have hv'' : o''.core.ifId.instrValidId = true := by rw [ht.ifId, he.valid]
  have hpc'' : o''.hart.pcIf ≠ o''.core.pcId := by
    rw [Hart.pcIf, ht.fetchAddrQ, ht.pcId]
    exact hne
  have hrec : ∀ u : HartObs n, EbreakRecorded o u ↔ EbreakRecorded o'' u := by
    intro u
    rw [ebreakRecorded_iff, ebreakRecorded_iff, ht.pcId, ht.csr]
  rw [hrec]
  by_cases hq : OnlyEbreak P o x'
  · have hfsm := ht.only hq
    have hinto : Ctrl.ebreakIntoDebug (o''.ctrlDec P x'') = true := by
      rw [← he.into]
      simp only [HartObs.ctrlDec, Core.ctrlDec, coreIn, Hart.coreIn, Hart.coreLines,
        Ctrl.ebreakIntoDebug, show o''.hart.csr = o.hart.csr from ht.csr]
      rfl
    obtain ⟨hr, hgone⟩ := next_of_dbgTakenId hfsm ht.debugModeQ hinto
    exact ⟨⟨fun _ => hq, fun _ => hr⟩, hpc, hv'', ht.pcId, fun _ => hgone⟩
  · have hfsm := ht.other hq
    have hno := not_recorded_of_dbgTakenIf (P := P) (x := x'') hfsm ht.debugModeQ hpc''
    have hmem : Core.memInsn P.cfg o''.core = false := by
      rw [Core.memInsn, ht.ifId]
      exact memInsn_of_ebrkInsn hebrk
    exact ⟨⟨fun hr => absurd hr hno, fun h => absurd h hq⟩, hpc, hv'', ht.pcId,
      gone_of_dbgTakenIf hi'' hfsm hmem⟩

/-- A debug session writes `w` to `dcsr`, and returns to an ebreak at `0x80`. -/
def ebreakTrace (w : BitVec 32) : List HartIn :=
  [.idle, .idle, { HartIn.idle with debugReq := true }, { HartIn.idle with debugReq := true },
    -- csrrw x0, dcsr, x1
    .fetch 0x7B009073#32,
    { HartIn.idle with aluOperandAEx := w },
    -- dret
    .fetch 0x7B200073#32,
    .idle, .idle,
    -- ebreak
    .fetch 0x00100073#32]

/-- With `ebreakm` alone, `dpc` is the address of the ebreak. -/
theorem ebreak_recorded_ebreakm :
    let o := Machine.run (next Hart.smallParams) (reset 4 0#31) (ebreakTrace 0x8003#32)
    (Machine.run (next Hart.smallParams) o [.idle, .idle, .idle]).csr.depc = 0x80#32 := by
  intro o
  have hpc : o.core.pcId = 0x80#32 := by decide +kernel +revert
  have hin : EbreakIn Hart.smallParams o .idle := by
    constructor <;> decide +kernel +revert
  have h := (ebreak_recorded_iff Hart.smallParams 0#31 (ebreakTrace 0x8003#32) .idle .idle .idle
    (by decide +kernel) hin).1
  have honly : OnlyEbreak Hart.smallParams o .idle :=
    ⟨rfl, by decide +kernel, by decide +kernel⟩
  rw [← hpc]
  exact (h.mpr honly).depc

/-- With `step` as well, `dpc` is the address behind the ebreak, which is skipped. -/
theorem ebreak_step_skipped :
    let o := Machine.run (next Hart.smallParams) (reset 4 0#31) (ebreakTrace 0x8007#32)
    let o' := Machine.run (next Hart.smallParams) o [.idle, .idle, .idle]
    EbreakIn Hart.smallParams o .idle ∧ ¬ EbreakRecorded o o' ∧
      o.core.pcId = 0x80#32 ∧ o'.core.ctrl.debugModeQ = true ∧ o'.csr.depc = 0x84#32 ∧
      Machine.Along (next Hart.smallParams) (BusOk Hart.smallParams) (reset 4 0#31)
        (ebreakTrace 0x8007#32 ++ [.idle, .idle, .idle]) := by
  intro o o'
  have hpc : o.core.pcId = 0x80#32 := by decide +kernel +revert
  have hdepc : o'.csr.depc = 0x84#32 := by decide +kernel +revert
  refine ⟨by constructor <;> decide +kernel +revert, fun h => ?_, hpc, by decide +kernel +revert,
    hdepc, by decide +kernel⟩
  have := h.depc
  rw [hdepc, hpc] at this
  cases this

end HartObs

end CocoIbex
