import CocoIbex.EbreakDebug

/-!
# Single Steps

With `dcsr.step` set a DRET is to be followed by one instruction and the next entry to debug
mode. The request for the entry counts from the cycle on in which the instruction is in ID.
Until then the controller accepts interrupts, halt requests and triggers as always, and a step
that meets one of them executes nothing at `dpc` (`single_step_iff`). A step goes through the
phases of `StepPhase`.

The phases are those of the hart between the two debug sessions: the fetch goes to `dpc`, the
word comes to ID, it executes and ends, and the controller enters debug mode. `phaseStep` says
of each cycle that the phase goes on or gives way to the next one, so a run of any length is an
induction on its cycles. A step of a multiplication or of a load stays in its phase for as long
as it takes.

An instruction that raises an exception ends in its trap, and debug mode is entered in front of
the handler.

## Main results

* `evenPcs_next` — all addresses of the hart stay even, and so `dpc` is the address of a half
  word;
* `phaseStep` — the step lemma on the phases;
* `single_step_iff` — when debug mode is entered again, one instruction at `dpc` has ended if
  and only if no cycle has preempted it.
-/

namespace CocoIbex

namespace Hart

variable {n : ℕ} {P : HartParams} {h : Hart n} {x : HartIn}

/-! ### The registers of debug mode -/

/-- Outside of debug mode no CSR instruction writes its registers. -/
theorem csrWe_of_isDebug {a : BitVec 12} (ha : CsRegs.isDebug a = true)
    (hd : h.core.ctrl.debugModeQ = false) :
    h.csr.csrWe P.toCsrParams (h.csrIn P x) a = false := by
  by_contra hne
  simp only [Bool.not_eq_false, CsRegs.csrWe, CsRegs.csrWeInt, CsRegs.csrWreq, Bool.and_eq_true,
    beq_iff_eq, Bool.not_eq_true'] at hne
  obtain ⟨⟨⟨hen, -⟩, hlegal⟩, haddr⟩ := hne
  have hen' : Core.csrOpEn P.cfg h.core (h.coreIn P x) = true := hen
  simp only [Core.csrOpEn, IdStage.csrOpEn, Bool.and_eq_true] at hen'
  have hacc : (h.csrIn P x).csrAccess = true := hen'.1.1
  have hmode : (h.csrIn P x).debugMode = false := hd
  simp [CsRegs.illegalCsrInsn, CsRegs.illegalCsr, hacc, haddr, ha, hmode] at hlegal

/-- Outside of debug mode `dcsr.step` stays. -/
theorem step_next (hd : h.core.ctrl.debugModeQ = false) :
    (h.next P x).csr.dcsr.step = h.csr.dcsr.step := by
  have hwe := csrWe_of_isDebug (P := P) (x := x) (a := CsrNum.dcsr) (by decide) hd
  simp only [next, CsRegs.next, CsRegs.trapped]
  split_ifs <;> simp [CsRegs.written, hwe]

/-- The addresses of instructions are even. -/
structure EvenPcs (h : Hart n) : Prop where
  pcId : h.core.pcId.getLsbD 0 = false
  depc : h.csr.depc.getLsbD 0 = false

/-- An address with a zero bit at its end is even. -/
theorem getLsbD_append_zero (a : BitVec 31) : (a ++ 0#1).getLsbD 0 = false := by
  rw [BitVec.getLsbD_append]
  rfl

/-- All PCs of the hart stay even. -/
theorem evenPcs_next (he : h.EvenPcs) : (h.next P x).EvenPcs := by
  have hpcIf : h.pcIf.getLsbD 0 = false := getLsbD_append_zero _
  refine ⟨?_, ?_⟩
  · simp only [next, Core.next]
    split_ifs
    · exact hpcIf
    · exact he.pcId
  · have hexc : (CsRegs.exceptionPc (h.csrIn P x)).getLsbD 0 = false := by
      have hwb : (h.csrIn P x).csrSaveWb = false := rfl
      simp only [CsRegs.exceptionPc, hwb, Bool.false_eq_true, if_false]
      split_ifs <;> first | exact hpcIf | exact he.pcId
    have hw : (h.csr.written P.toCsrParams (h.csrIn P x)).depc.getLsbD 0 = false := by
      simp only [CsRegs.written]
      split_ifs
      · exact getLsbD_append_zero _
      · exact he.depc
    simp only [next, CsRegs.next, CsRegs.trapped]
    split_ifs <;> first | exact hexc | exact hw

end Hart

namespace HartObs

variable {n : ℕ} {P : HartParams} {o : HartObs n} {x : HartIn} {pc : BitVec 31}

/-! ### The phases of a step -/

/-- Outside of debug mode with `step` set. -/
structure Stepping (P : HartParams) (o : HartObs n) : Prop where
  inv : Inv P o
  debugModeQ : o.core.ctrl.debugModeQ = false
  step : o.csr.dcsr.step = true

/-- Where the step of the instruction at `pc` is, and how many instructions have ended. -/
inductive StepPhase (pc : BitVec 31) (o : HartObs n) : ℕ → Prop
  /-- the instruction is fetched, and an interrupt may have been accepted -/
  | waiting (hfsm : o.core.ctrl.ctrlFsm = .decode ∨ o.core.ctrl.ctrlFsm = .irqTaken)
      (hv : o.core.ifId.instrValidId = false) (hpc : o.hart.fetchAddrQ = pc) : StepPhase pc o 0
  /-- it executes -/
  | running (hfsm : o.core.ctrl.ctrlFsm = .decode) (hv : o.core.ifId.instrValidId = true)
      (he : o.ended = false) (hpc : o.core.pcId = pc ++ 0#1) : StepPhase pc o 0
  /-- it has ended with something special -/
  | flushing (hfsm : o.core.ctrl.ctrlFsm = .flush) (he : o.ended = true) : StepPhase pc o 1
  /-- debug mode is entered behind it -/
  | entering (hfsm : o.core.ctrl.ctrlFsm = .dbgTakenIf) (he : o.ended = true) : StepPhase pc o 1

/-- ID is still empty, and the controller takes an interrupt, or turns to debug mode for a
halt request or for a trigger at the address of the instruction. -/
def Preempted (P : HartParams) (o : HartObs n) (x : HartIn) : Prop :=
  o.core.ifId.instrValidId = false ∧
    ((o.core.ctrl.ctrlFsm = .irqTaken ∧ o.core.ctrl.handleIrq (o.ctrlDec P x) = true) ∨
      (o.core.ctrl.ctrlFsm = .decode ∧ (x.debugReq = true ∨
        o.csr.triggerMatch P.toCsrParams (o.hart.csrLines x) = true)))

/-- A preemption is seen in the state and the input. -/
instance : Decidable (Preempted P o x) := inferInstanceAs (Decidable (_ ∧ _))

/-- The instruction at `pc` ends. -/
def endsAt (P : HartParams) (pc : BitVec 31) (o : HartObs n) (x : HartIn) : Bool :=
  o.ends P x && o.core.pcId == pc ++ 0#1

/-- With an instruction in ID a step asks for debug mode. -/
theorem Stepping.enterDebugMode (hs : Stepping P o) (hv : o.core.ifId.instrValidId = true) :
    o.core.ctrl.enterDebugMode (o.ctrlDec P x) = true := by
  have hv' : (o.ctrlDec P x).instrValid = true := hv
  have hstep : (o.ctrlDec P x).debugSingleStep = true := hs.step
  simp [Ctrl.enterDebugMode, hv', hstep, hs.debugModeQ]

/-- It goes on until debug mode is entered. -/
theorem Stepping.next (hs : Stepping P o) (hok : BusOk P o x)
    (hd : (o.next P x).core.ctrl.debugModeQ = false) : Stepping P (o.next P x) :=
  ⟨inv_next hs.inv hok, hd, (Hart.step_next (h := o.hart) hs.debugModeQ).trans hs.step⟩

/-- Without an instruction in ID nothing stalls or is special. -/
theorem quiet_of_invalid (hi : Inv P o) (hok : BusOk P o x)
    (hv : o.core.ifId.instrValidId = false) :
    Core.stallId P.cfg o.core (o.coreIn P x) = false ∧
      o.core.ctrl.specialReqAll (Core.ctrlIn P.cfg o.core (o.coreIn P x)) = false := by
  have hex : ¬ Core.Executing o.core := by
    intro hx
    have := hx.1
    rw [hv] at this
    cases this
  refine ⟨?_, ?_⟩
  · have ho : Core.idOut P.cfg o.core (o.coreIn P x) = _ := Core.idOut_of_not_executing hex
    rw [Core.idOut] at ho
    simp [Core.stallId, IdStage.stallId, IdStage.stallMem, ho, hv]
  · rw [Core.special_of_invalid hv]
    refine Core.excReqLsu_of_not_lsuValid (Bool.eq_false_iff.mpr fun hl => ?_)
    exact hex (hi.core.of_lsuValid hok hl).1.1

/-- What the controller does while the instruction is fetched. -/
theorem out_of_waiting (hs : Stepping P o) (hok : BusOk P o x)
    (hfsm : o.core.ctrl.ctrlFsm = .decode ∨ o.core.ctrl.ctrlFsm = .irqTaken)
    (hv : o.core.ifId.instrValidId = false) (hp : ¬ Preempted P o x) :
    (o.hart.ctrlOut P x).pcSet = false ∧ (o.hart.ctrlOut P x).debugModeD = false ∧
      ((o.hart.ctrlOut P x).ctrlFsmNs = .decode ∨
        (o.hart.ctrlOut P x).ctrlFsmNs = .irqTaken) := by
  obtain ⟨hstall, hspecial⟩ := quiet_of_invalid hs.inv hok hv
  set y := Core.ctrlIn P.cfg o.core (o.coreIn P x) with hy
  have hdec : y.toCtrlDec = o.ctrlDec P x := rfl
  have hst : y.stall = false := hstall
  have hval : y.instrValid = false := hv
  have hd := hs.debugModeQ
  change (Ctrl.out o.core.ctrl y).pcSet = false ∧ (Ctrl.out o.core.ctrl y).debugModeD = false ∧
    ((Ctrl.out o.core.ctrl y).ctrlFsmNs = .decode ∨
      (Ctrl.out o.core.ctrl y).ctrlFsmNs = .irqTaken)
  obtain hf | hf := hfsm
  · have hno : o.core.ctrl.enterDebugMode (o.ctrlDec P x) = false := by
      by_contra hne
      refine hp ⟨hv, Or.inr ⟨hf, ?_⟩⟩
      have hval' : (o.ctrlDec P x).instrValid = false := hv
      rw [Bool.not_eq_false] at hne
      have hreq : ((o.ctrlDec P x).debugReq || (o.ctrlDec P x).triggerMatch) = true := by
        simpa [Ctrl.enterDebugMode, hd, hval'] using hne
      exact (Bool.or_eq_true ..).mp hreq
    rw [← hdec] at hno
    simp only [Ctrl.out, hf, Ctrl.decodeOut, hval, hst, hspecial, hno, Ctrl.defaults, hd]
    cases o.core.ctrl.handleIrq y.toCtrlDec <;> simp
  · have hno : o.core.ctrl.handleIrq (o.ctrlDec P x) = false := by
      by_contra hne
      exact hp ⟨hv, Or.inl ⟨hf, by simpa using hne⟩⟩
    rw [← hdec] at hno
    simp [Ctrl.out, hf, Ctrl.irqTakenOut, hno, Ctrl.defaults, hd]

/-- The wait goes on, or the instruction comes. -/
theorem waiting_next (hs : Stepping P o) (hok : BusOk P o x)
    (hfsm : o.core.ctrl.ctrlFsm = .decode ∨ o.core.ctrl.ctrlFsm = .irqTaken)
    (hv : o.core.ifId.instrValidId = false) (hpc : o.hart.fetchAddrQ = pc)
    (hp : ¬ Preempted P o x) :
    (o.next P x).core.ctrl.debugModeQ = false ∧ StepPhase pc (o.next P x) 0 := by
  obtain ⟨hset, hmode, hns⟩ := out_of_waiting hs hok hfsm hv hp
  refine ⟨hmode, ?_⟩
  cases hd : o.deliver P x with
  | true =>
      obtain ⟨-, -, hvalid, hnew⟩ := of_deliver hd
      have hpc' : (o.next P x).core.pcId = o.hart.fetchAddrQ ++ 0#1 := if_pos hnew
      have hset' : (Core.ifIdIn P.cfg o.core (o.coreIn P x)).pcSet = false := hset
      have hv' : (o.next P x).core.ifId.instrValidId = true := by
        have hnew' := hnew
        simp only [IfIdIn.instrNewId, Bool.and_eq_true] at hnew'
        change (o.core.ifId.next (Core.ifIdIn P.cfg o.core (o.coreIn P x))).instrValidId = true
        simp [IfIdReg.next, hnew'.1, hnew'.2, hset']
      exact .running (running_of_deliver hd).1 hv' (by simp [next, hd]) (by rw [hpc', hpc])
  | false =>
      refine .waiting hns (gone_next hd hv) ?_
      rw [fetchAddrQ_next hd, redirect, hset]
      exact hpc

/-- The instruction goes on, or it ends and debug mode is entered behind it. -/
theorem running_phase_next (hs : Stepping P o) (hfsm : o.core.ctrl.ctrlFsm = .decode)
    (hv : o.core.ifId.instrValidId = true) (he : o.ended = false)
    (hpc : o.core.pcId = pc ++ 0#1) :
    (o.next P x).core.ctrl.debugModeQ = false ∧
      StepPhase pc (o.next P x) (o.ends P x).toNat := by
  have hmode : (o.next P x).core.ctrl.debugModeQ = false := by
    change (Ctrl.out o.core.ctrl (Core.ctrlIn P.cfg o.core (o.coreIn P x))).debugModeD = false
    simp [Ctrl.out_debugModeD, hfsm, hs.debugModeQ]
  refine ⟨hmode, ?_⟩
  have hdbg := hs.enterDebugMode (x := x) hv
  cases hends : o.ends P x with
  | false =>
      obtain ⟨hfsm', hv'⟩ := next_of_not_ends hfsm hv hends
      have hd : o.deliver P x = false := by
        by_contra hne
        have hno := (Core.of_deliver ((Bool.not_eq_false _).mp hne)).2.1
        rw [(of_not_ends hfsm hv hends).1] at hno
        cases hno
      exact .running hfsm' hv' (by simp [next, hd, he, hends])
        ((kept_next hd hv').2.1.trans hpc)
  | true =>
      set y := Core.ctrlIn P.cfg o.core (o.coreIn P x) with hy
      have hdbg' : o.core.ctrl.enterDebugMode y.toCtrlDec = true := hdbg
      have hval : y.instrValid = true := hv
      have hout : o.hart.ctrlOut P x = Ctrl.decodeOut o.core.ctrl y := by
        change Ctrl.out o.core.ctrl y = _
        simp only [Ctrl.out, hfsm]
      have hns : (o.next P x).core.ctrl.ctrlFsm = (o.hart.ctrlOut P x).ctrlFsmNs := rfl
      have hended : ∀ hh : (o.hart.ctrlOut P x).haltIf = true, (o.next P x).ended = true := by
        intro hh
        simp [next, deliver_of_halt hh, hends]
      cases hsp : o.core.ctrl.specialReqAll y with
      | true =>
          refine .flushing ?_ (hended ?_)
          · rw [hns, hout]
            simp [Ctrl.decodeOut, hsp, hval]
          · rw [hout]
            simp [Ctrl.decodeOut, hsp, hval]
      | false =>
          have hst : y.stall = false := by
            have hstall : Core.stallId P.cfg o.core (o.coreIn P x) = false := by
              simpa [ends, hfsm, hv, ← hy, hsp] using hends
            exact hstall
          refine .entering ?_ (hended ?_)
          · rw [hns, hout]
            simp [Ctrl.decodeOut, hsp, hst, hdbg']
          · rw [hout]
            simp [Ctrl.decodeOut, hsp, hst, hdbg']

/-- `FLUSH` turns to debug mode whatever it is there for. -/
theorem flushing_next (hs : Stepping P o) (hfsm : o.core.ctrl.ctrlFsm = .flush)
    (he : o.ended = true) :
    (o.next P x).core.ctrl.ctrlFsm = .dbgTakenIf ∧ (o.next P x).ended = true := by
  have hdbg := hs.enterDebugMode (x := x) (hs.inv.flush hfsm)
  set y := Core.ctrlIn P.cfg o.core (o.coreIn P x) with hy
  have hdbg' : o.core.ctrl.enterDebugMode y.toCtrlDec = true := hdbg
  have hout : o.hart.ctrlOut P x = Ctrl.flushOut o.core.ctrl y := by
    change Ctrl.out o.core.ctrl y = _
    simp only [Ctrl.out, hfsm]
  have hhalt : (o.hart.ctrlOut P x).haltIf = true := by
    rw [hout, Ctrl.flushOut_eq, Ctrl.flushBase]
    split_ifs <;> rfl
  refine ⟨?_, by simp [next, deliver_of_halt hhalt, he]⟩
  change (o.hart.ctrlOut P x).ctrlFsmNs = .dbgTakenIf
  rw [hout, Ctrl.flushOut_eq, if_pos hdbg']

/-- `DBG_TAKEN_IF` enters it, with the address of the next instruction. -/
theorem entering_next (hs : Stepping P o) (hfsm : o.core.ctrl.ctrlFsm = .dbgTakenIf) :
    (o.next P x).core.ctrl.debugModeQ = true ∧ (o.next P x).csr.depc = o.hart.pcIf := by
  have hstep : (o.ctrlDec P x).debugSingleStep = true := hs.step
  have hstands : Ctrl.debugCauseStands (o.ctrlDec P x) = true := by
    simp [Ctrl.debugCauseStands, hstep]
  obtain ⟨hmode, hdepc, -⟩ := Hart.next_of_dbgTakenIf (h := o.hart) hfsm hstands
  exact ⟨hmode, hdepc⟩

/-! ### Steps that are cut short -/

/-- A request that stands in `IRQ_TAKEN` is an interrupt. -/
theorem irqEntry_of_handleIrq (hfsm : o.core.ctrl.ctrlFsm = .irqTaken)
    (hi : o.core.ctrl.handleIrq (o.ctrlDec P x) = true) : o.irqEntry P x = true := by
  have hd : o.core.ctrl.debugModeQ = false := by
    simp only [Ctrl.handleIrq, Bool.and_eq_true, Bool.not_eq_true'] at hi
    exact hi.1.1
  obtain ⟨hsave, hnodebug, -⟩ :=
    Ctrl.out_irq (y := Core.ctrlIn P.cfg o.core (o.coreIn P x)) hfsm hi
  have hentry : o.trapEntry P x = true := by
    change (((o.hart.ctrlOut P x).csrSaveCause && !(o.hart.ctrlOut P x).debugCsrSave
      && !o.core.ctrl.debugModeQ) : Bool) = true
    have hout : o.hart.ctrlOut P x = Ctrl.out o.core.ctrl
        (Core.ctrlIn P.cfg o.core (o.coreIn P x)) := rfl
    rw [hout, hsave, hnodebug, hd]
    rfl
  rw [irqEntry, hentry, hfsm]
  rfl

/-- Only `IRQ_TAKEN` with a request takes an interrupt. -/
theorem handleIrq_of_irqEntry (h : o.irqEntry P x = true) :
    o.core.ctrl.ctrlFsm = .irqTaken ∧ o.core.ctrl.handleIrq (o.ctrlDec P x) = true := by
  simp only [irqEntry, Bool.and_eq_true, beq_iff_eq] at h
  obtain ⟨hentry, hfsm⟩ := h
  refine ⟨hfsm, ?_⟩
  have hsave := Ctrl.out_csrSaveCause o.core.ctrl (Core.ctrlIn P.cfg o.core (o.coreIn P x))
  rw [hfsm] at hsave
  exact hsave.symm.trans (of_trapEntry hentry).1

/-- Without an instruction in ID none ends. -/
theorem ends_of_invalid (hv : o.core.ifId.instrValidId = false) : o.ends P x = false := by
  simp [ends, hv]

/-- A halt request or a trigger turns a step that waits to debug mode with ID empty. -/
theorem halted_next (hs : Stepping P o) (hok : BusOk P o x)
    (hfsm : o.core.ctrl.ctrlFsm = .decode) (hv : o.core.ifId.instrValidId = false)
    (hr : x.debugReq = true ∨ o.csr.triggerMatch P.toCsrParams (o.hart.csrLines x) = true) :
    (o.next P x).core.ctrl.ctrlFsm = .dbgTakenIf ∧
      (o.next P x).core.ifId.instrValidId = false ∧
      (o.next P x).core.ctrl.debugModeQ = false := by
  obtain ⟨hstall, hspecial⟩ := quiet_of_invalid hs.inv hok hv
  set y := Core.ctrlIn P.cfg o.core (o.coreIn P x) with hy
  have hst : y.stall = false := hstall
  have hdbg : o.core.ctrl.enterDebugMode y.toCtrlDec = true := by
    have hreq : (y.debugReq || y.triggerMatch) = true := (Bool.or_eq_true ..).mpr hr
    obtain hreq | hreq := (Bool.or_eq_true ..).mp hreq <;>
      simp [Ctrl.enterDebugMode, hs.debugModeQ, hreq]
  have hout : o.hart.ctrlOut P x = Ctrl.decodeOut o.core.ctrl y := by
    change Ctrl.out o.core.ctrl y = _
    simp only [Ctrl.out, hfsm]
  have hhalt : (o.hart.ctrlOut P x).haltIf = true := by
    rw [hout]
    simp [Ctrl.decodeOut, hst, hspecial, hdbg]
  refine ⟨?_, gone_next (deliver_of_halt hhalt) hv, ?_⟩
  · change (o.hart.ctrlOut P x).ctrlFsmNs = .dbgTakenIf
    rw [hout]
    simp [Ctrl.decodeOut, hst, hspecial, hdbg]
  · change (o.hart.ctrlOut P x).debugModeD = false
    rw [hout]
    exact hs.debugModeQ

/-! ### Runs -/

variable {k : ℕ}

/-- One cycle of a step that is not cut short. -/
structure PhaseStep (P : HartParams) (pc : BitVec 31) (k : ℕ) (o : HartObs n) (x : HartIn) :
    Prop where
  phase : (o.next P x).core.ctrl.debugModeQ = false →
    Stepping P (o.next P x) ∧ StepPhase pc (o.next P x) (k + (o.ends P x).toNat)
  ends : o.endsAt P pc x = o.ends P x
  irqEntry : o.irqEntry P x = false
  entered : (o.next P x).core.ctrl.debugModeQ = true →
    k = 1 ∧ o.ends P x = false ∧ (o.next P x).csr.depc = o.npc ++ 0#1

/-- **Step lemma.** A phase of a single step goes on or gives way to the next one. -/
theorem phaseStep (hs : Stepping P o) (hph : StepPhase pc o k) (hok : BusOk P o x)
    (hp : ¬ Preempted P o x) : PhaseStep P pc k o x := by
  have hirq : o.core.ctrl.ctrlFsm ≠ .irqTaken → o.irqEntry P x = false := by
    intro hne
    by_contra h
    exact hne (handleIrq_of_irqEntry (by simpa using h)).1
  have hnone : o.core.ctrl.ctrlFsm ≠ .decode → o.ends P x = false := by
    intro hne
    simp [HartObs.ends, hne]
  have hat : o.ends P x = false → o.endsAt P pc x = o.ends P x := by
    intro h
    rw [endsAt, h, Bool.false_and]
  cases hph with
  | waiting hfsm hv hpc =>
      have hends : o.ends P x = false := ends_of_invalid hv
      obtain ⟨hmode, hnext⟩ := waiting_next hs hok hfsm hv hpc hp
      refine ⟨fun hd => ⟨hs.next hok hd, ?_⟩, hat hends, ?_, fun hd => ?_⟩
      · rw [hends]
        exact hnext
      · by_contra h
        exact hp ⟨hv, Or.inl (handleIrq_of_irqEntry (by simpa using h))⟩
      · rw [hmode] at hd
        cases hd
  | running hfsm hv he hpc =>
      obtain ⟨hmode, hnext⟩ := running_phase_next (x := x) hs hfsm hv he hpc
      refine ⟨fun hd => ⟨hs.next hok hd, ?_⟩, ?_, hirq (by simp [hfsm]), fun hd => ?_⟩
      · rw [Nat.zero_add]
        exact hnext
      · rw [endsAt, hpc, beq_self_eq_true, Bool.and_true]
      · rw [hmode] at hd
        cases hd
  | flushing hfsm he =>
      have hends := hnone (by simp [hfsm])
      obtain ⟨hfsm', he'⟩ := flushing_next (x := x) hs hfsm he
      refine ⟨fun hd => ⟨hs.next hok hd, ?_⟩, hat hends, hirq (by simp [hfsm]), fun hd => ?_⟩
      · rw [hends]
        exact .entering hfsm' he'
      · have hmode : (o.next P x).core.ctrl.debugModeQ = false := by
          change (Ctrl.out o.core.ctrl
            (Core.ctrlIn P.cfg o.core (o.coreIn P x))).debugModeD = false
          simp [Ctrl.out_debugModeD, hfsm, hs.debugModeQ]
        rw [hmode] at hd
        cases hd
  | entering hfsm he =>
      have hends := hnone (by simp [hfsm])
      obtain ⟨hmode, hdepc⟩ := entering_next (x := x) hs hfsm
      refine ⟨fun hd => ?_, hat hends, hirq (by simp [hfsm]), fun _ => ⟨rfl, hends, ?_⟩⟩
      · rw [hmode] at hd
        cases hd
      · rw [hdepc, Hart.pcIf, hs.inv.npc (Or.inr he)]

/-- The core stays outside of debug mode up to the last cycle. -/
def Outside (P : HartParams) (o : HartObs n) (ins : List HartIn) : Prop :=
  Machine.Along (next P) (fun o _ => o.core.ctrl.debugModeQ = false) o ins

/-- A run can be looked through for debug mode. -/
instance {ins : List HartIn} : Decidable (Outside P o ins) :=
  inferInstanceAs (Decidable (Machine.Along ..))

/-- A step that is not cut short goes through the phases. -/
theorem phase_run (hs : Stepping P o) (hph : StepPhase pc o 0) {ins : List HartIn}
    (hok : Machine.Along (next P) (BusOk P) o ins) (hout : Outside P o ins)
    (hd : (Machine.run (next P) o ins).core.ctrl.debugModeQ = false)
    (hp : Machine.Along (next P) (fun o x => ¬ Preempted P o x) o ins) :
    Stepping P (Machine.run (next P) o ins) ∧
      StepPhase pc (Machine.run (next P) o ins) (Machine.fired (next P) (ends P) o ins) ∧
      Machine.fired (next P) (endsAt P pc) o ins = Machine.fired (next P) (ends P) o ins ∧
      Machine.fired (next P) (irqEntry P) o ins = 0 := by
  induction ins using List.reverseRecOn with
  | nil => exact ⟨hs, hph, rfl, rfl⟩
  | append_singleton ins x ih =>
      obtain ⟨hok, hx⟩ := Machine.along_concat.mp hok
      obtain ⟨hout, hd'⟩ := Machine.along_concat.mp hout
      obtain ⟨hp, hpx⟩ := Machine.along_concat.mp hp
      obtain ⟨hs', hph', hat, hirq⟩ := ih hok hout hd' hp
      have hstep := phaseStep hs' hph' hx hpx
      rw [Machine.run_concat] at hd ⊢
      obtain ⟨hs'', hph''⟩ := hstep.phase hd
      refine ⟨hs'', ?_, ?_, ?_⟩
      · rw [Machine.fired_concat]
        exact hph''
      · rw [Machine.fired_concat, Machine.fired_concat, hat, hstep.ends]
      · rw [Machine.fired_concat, hirq, hstep.irqEntry]
        rfl

/-- A step from the state `o`, in which the fetch is at `pc`, that the cycle `x` ends: exactly
one instruction ends, which is the one at `pc`, no interrupt is taken, and `dpc` is the address
of the next instruction. -/
structure Stepped (P : HartParams) (pc : BitVec 31) (o : HartObs n) (ins : List HartIn)
    (x : HartIn) : Prop where
  once : Machine.fired (next P) (ends P) o (ins ++ [x]) = 1
  atPc : Machine.fired (next P) (endsAt P pc) o (ins ++ [x]) = 1
  noIrq : Machine.fired (next P) (irqEntry P) o (ins ++ [x]) = 0
  depc : (Machine.run (next P) o (ins ++ [x])).csr.depc = (Machine.run (next P) o ins).npc ++ 0#1

/-- A step that is not cut short is a single one. -/
theorem stepped_of_along (hs : Stepping P o) (hph : StepPhase pc o 0) {ins : List HartIn}
    (hok : Machine.Along (next P) (BusOk P) o (ins ++ [x])) (hout : Outside P o (ins ++ [x]))
    (hd : (Machine.run (next P) o (ins ++ [x])).core.ctrl.debugModeQ = true)
    (hp : Machine.Along (next P) (fun o x => ¬ Preempted P o x) o (ins ++ [x])) :
    Stepped P pc o ins x := by
  obtain ⟨hok, hx⟩ := Machine.along_concat.mp hok
  obtain ⟨hout, hd'⟩ := Machine.along_concat.mp hout
  obtain ⟨hp, hpx⟩ := Machine.along_concat.mp hp
  obtain ⟨hs', hph', hat, hirq⟩ := phase_run hs hph hok hout hd' hp
  have hstep := phaseStep hs' hph' hx hpx
  rw [Machine.run_concat] at hd
  obtain ⟨hone, hends, hdepc⟩ := hstep.entered hd
  constructor
  · rw [Machine.fired_concat, hone, hends]
    rfl
  · rw [Machine.fired_concat, hat, hone, hstep.ends, hends]
    rfl
  · rw [Machine.fired_concat, hirq, hstep.irqEntry]
    rfl
  · rw [Machine.run_concat]
    exact hdepc

/-- A single step was not cut short. -/
theorem along_of_stepped (hs : Stepping P o) (hph : StepPhase pc o 0) {ins : List HartIn}
    (hok : Machine.Along (next P) (BusOk P) o (ins ++ [x])) (hout : Outside P o (ins ++ [x]))
    (hd : (Machine.run (next P) o (ins ++ [x])).core.ctrl.debugModeQ = true)
    (h : Stepped P pc o ins x) :
    Machine.Along (next P) (fun o x => ¬ Preempted P o x) o (ins ++ [x]) := by
  by_contra hne
  obtain ⟨pre, y, post, hsplit, hpre, hbreak⟩ := Machine.exists_first_break hne
  obtain ⟨honce, -, hnoirq, -⟩ := h
  rw [hsplit] at hok hout hd honce hnoirq
  obtain ⟨hokpre, hy, hokpost⟩ := Machine.along_append.mp hok
  obtain ⟨houtpre, hdu, houtpost⟩ := Machine.along_append.mp hout
  obtain ⟨hsu, hphu, -⟩ := phase_run hs hph hokpre houtpre hdu hpre
  set u := Machine.run (next P) o pre with hu
  obtain ⟨hv, ⟨hfsm, hirq⟩ | ⟨hfsm, hreq⟩⟩ := not_not.mp hbreak
  · -- an interrupt is taken
    rw [Machine.fired_append, ← hu, Machine.fired, irqEntry_of_handleIrq hfsm hirq] at hnoirq
    simp at hnoirq
  · -- debug mode is entered two cycles later
    have hzero : Machine.fired (next P) (ends P) o pre = 0 := by
      generalize Machine.fired (next P) (ends P) o pre = k at hphu ⊢
      cases hphu with
      | waiting => rfl
      | running _ hv' => simp [hv] at hv'
      | flushing hfsm' => simp [hfsm] at hfsm'
      | entering hfsm' => simp [hfsm] at hfsm'
    obtain ⟨hfsm', hv', hd'⟩ := halted_next hsu hy hfsm hv hreq
    rw [Machine.run_append, ← hu, Machine.run_cons] at hd
    cases post with
    | nil =>
        rw [Machine.run_nil, hd'] at hd
        cases hd
    | cons z post =>
        have hd'' := (entering_next (x := z) (hsu.next hy hd') hfsm').1
        cases post with
        | nil =>
            rw [Machine.fired_append, ← hu, hzero] at honce
            simp [Machine.fired, ends_of_invalid hv, ends_of_invalid hv'] at honce
        | cons w post =>
            rw [houtpost.2.1] at hd''
            cases hd''

/-- Behind an instruction that has ended debug mode is entered within two cycles. -/
theorem entered_of_ended (hs : Stepping P o) (hph : StepPhase pc o 1) (hok : BusOk P o x) :
    (o.next P x).core.ctrl.debugModeQ = true ∨
      ∀ y, ((o.next P x).next P y).core.ctrl.debugModeQ = true := by
  cases hph with
  | entering hfsm he => exact Or.inl (entering_next hs hfsm).1
  | flushing hfsm he =>
      cases hd : (o.next P x).core.ctrl.debugModeQ with
      | true => exact Or.inl rfl
      | false =>
          have hfsm' := (flushing_next (x := x) hs hfsm he).1
          exact Or.inr fun y => (entering_next (hs.next hok hd) hfsm').1

/-- A DRET leaves ID empty and the fetch at `dpc`. -/
theorem next_of_dretExec (hd : o.core.ctrl.debugModeQ = true)
    (hx : o.hart.trapUnit.dretExec P.trap (o.hart.trapIn P x) = true) :
    (o.next P x).core.ctrl.debugModeQ = false ∧ (o.next P x).csr.dcsr = o.csr.dcsr ∧
      StepPhase (o.csr.depc.extractLsb' 1 31) (o.next P x) 0 := by
  set y := Core.ctrlIn P.cfg o.core (o.coreIn P x) with hy
  have hdret : Ctrl.dretFlush o.core.ctrl y = true := by
    rw [← Ctrl.out_csrRestoreDretId]
    exact hx
  simp only [Ctrl.dretFlush, Ctrl.flushExc, Bool.and_eq_true, beq_iff_eq, Bool.not_eq_true']
    at hdret
  obtain ⟨⟨⟨hfsm, hexc⟩, hmret⟩, hinsn⟩ := hdret
  have hexc' : (o.core.ctrl.excReqQ || o.core.ctrl.storeErrQ || o.core.ctrl.loadErrQ) = false := by
    simpa [hfsm] using hexc
  have hno : Ctrl.enterDebugMode o.core.ctrl y.toCtrlDec = false := by
    simp [Ctrl.enterDebugMode, hd]
  have hout : o.hart.ctrlOut P x = { Ctrl.defaults o.core.ctrl with
      haltIf := true
      flushId := true
      ctrlFsmNs := .decode
      pcMux := .dret
      pcSet := true
      debugModeD := false
      csrRestoreDretId := true } := by
    change Ctrl.out o.core.ctrl y = _
    simp [Ctrl.out, hfsm, Ctrl.flushOut, hno, Ctrl.flushBase, hexc', hmret, hinsn]
  have hhalt : (o.hart.ctrlOut P x).haltIf = true := by rw [hout]
  have hset : (o.hart.ctrlOut P x).pcSet = true := by rw [hout]
  have hdel := deliver_of_halt hhalt
  refine ⟨?_, ?_, .waiting (Or.inl ?_) ?_ ?_⟩
  · change (o.hart.ctrlOut P x).debugModeD = false
    rw [hout]
  · have hex : ¬ Core.Executing o.core := by
      intro h
      have := h.2.2
      rw [hfsm] at this
      cases this
    have hwe := CsRegs.csrWe_of_csrWeInt (csrWeInt_of_not_executing (P := P) (x := x) hex)
    have hin : (o.hart.csrIn P x).csrSaveCause = false ∧
        (o.hart.csrIn P x).csrRestoreDret = true := by
      change (o.hart.ctrlOut P x).csrSaveCause = false ∧
        (o.hart.ctrlOut P x).csrRestoreDretId = true
      rw [hout]
      exact ⟨rfl, rfl⟩
    have hcsr : (o.next P x).csr = CsRegs.next P.toCsrParams o.csr (o.hart.csrIn P x) := rfl
    rw [hcsr, CsRegs.next, CsRegs.trapped, hin.1, hin.2]
    simp [CsRegs.written, hwe]
  · change (o.hart.ctrlOut P x).ctrlFsmNs = .decode
    rw [hout]
  · have hflush : Core.flushId P.cfg o.core (o.coreIn P x) = true := by
      have h := Ctrl.out_flushId o.core.ctrl y
      change (o.hart.ctrlOut P x).flushId = Core.flushId P.cfg o.core (o.coreIn P x) at h
      rw [← h, hout]
    have hdel' : Core.deliver P.cfg o.core (o.coreIn P x) = false := hdel
    change (Core.next P.cfg o.core (o.coreIn P x)).ifId.instrValidId = false
    simp [Core.instrValidId_next hdel', hflush]
  · rw [fetchAddrQ_next hdel, redirect, if_pos hset, Option.getD_some]
    change (TrapUnit.fetchAddrN P.trap o.hart.trapUnit _).extractLsb' 1 31 = _
    rw [TrapUnit.fetchAddrN, Hart.trapUnit_ctrlOut, hout]
    rfl

/-- `dpc` is even in every run. -/
theorem evenPcs_run (a : BitVec 31) (ins : List HartIn) :
    (Machine.run (next P) (reset n a) ins).hart.EvenPcs := by
  have hzero : (0#32).getLsbD 0 = false := by decide
  exact Machine.run_invariant (fun o : HartObs n => o.hart.EvenPcs) (fun _ _ => Hart.evenPcs_next)
    ins ⟨hzero, hzero⟩

/-- **Single steps.** In every run on a bus that keeps to its protocol, let a DRET leave debug
mode with `step` set. When debug mode is entered again, exactly one instruction has ended,
which is the one at `dpc`, no interrupt has been taken, and `dpc` is the address of the next
instruction, if and only if no cycle has cut the step short. As long as none does, at most one
instruction has ended, and then debug mode is entered within two cycles. -/
theorem single_step_iff (P : HartParams) (a : BitVec 31) (pre : List HartIn) (d : HartIn)
    (ins : List HartIn) (x : HartIn)
    (hok : Machine.Along (next P) (BusOk P) (reset n a) (pre ++ d :: (ins ++ [x]))) :
    let o := Machine.run (next P) (reset n a) pre
    let s := o.next P d
    let pc := o.csr.depc.extractLsb' 1 31
    o.core.ctrl.debugModeQ = true → o.csr.dcsr.step = true →
    o.hart.trapUnit.dretExec P.trap (o.hart.trapIn P d) = true → Outside P s (ins ++ [x]) →
      pc ++ 0#1 = o.csr.depc ∧
      ((Machine.run (next P) s (ins ++ [x])).core.ctrl.debugModeQ = true →
        (Stepped P pc s ins x ↔
          Machine.Along (next P) (fun o x => ¬ Preempted P o x) s (ins ++ [x]))) ∧
      (Machine.Along (next P) (fun o x => ¬ Preempted P o x) s ins →
        Machine.fired (next P) (ends P) s ins ≤ 1 ∧
        (Machine.fired (next P) (ends P) s ins = 1 →
          (Machine.run (next P) s (ins ++ [x])).core.ctrl.debugModeQ = true ∨
            ∀ y, (Machine.run (next P) s (ins ++ [x, y])).core.ctrl.debugModeQ = true)) := by
  intro o s pc hd hstep hx hout
  obtain ⟨hpre, hokd, hokins⟩ := Machine.along_append.mp hok
  have hi : Inv P o := inv_run a hpre
  obtain ⟨hmode, hdcsr, hph⟩ := next_of_dretExec hd hx
  have hs : Stepping P s := ⟨inv_next hi hokd, hmode, by rw [hdcsr, hstep]⟩
  refine ⟨extractLsb'_append_zero (evenPcs_run a pre).depc, fun hin =>
    ⟨along_of_stepped hs hph hokins hout hin, stepped_of_along hs hph hokins hout hin⟩,
    fun hp => ?_⟩
  obtain ⟨hoki, hokx⟩ := Machine.along_concat.mp hokins
  obtain ⟨houti, hdx⟩ := Machine.along_concat.mp hout
  obtain ⟨hs', hph', -, -⟩ := phase_run hs hph hoki houti hdx hp
  refine ⟨?_, fun hone => ?_⟩
  · generalize Machine.fired (next P) (ends P) s ins = k at hph'
    cases hph' <;> simp
  · rw [hone] at hph'
    have hend := entered_of_ended hs' hph' hokx
    simp only [Machine.run_append, Machine.run_cons, Machine.run_nil]
    exact hend

/-- A debug session sets `step`, enables the external interrupt, and asks for a return to
`0x80`. -/
def stepTrace : List HartIn :=
  [.idle, .idle, { HartIn.idle with debugReq := true }, { HartIn.idle with debugReq := true },
    -- csrrw x0, dcsr, x1
    .fetch 0x7B009073#32,
    -- csrrw x0, mie, x1
    { HartIn.fetch 0x30409073#32 with aluOperandAEx := 7#32 },
    { HartIn.idle with aluOperandAEx := 0x800#32 },
    .idle,
    -- csrrw x0, mstatus, x1
    .fetch 0x30009073#32,
    { HartIn.idle with aluOperandAEx := 0x1808#32 },
    .idle,
    -- dret
    .fetch 0x7B200073#32,
    .idle]

/-- The instruction at `0x80` is stepped when no interrupt comes. -/
theorem single_step_addi :
    let o := Machine.run (next Hart.smallParams) (reset 4 0#31) stepTrace
    Stepped Hart.smallParams 0x40#31 (o.next Hart.smallParams .idle) [.fetch 0x13#32, .idle]
      .idle := by
  intro o
  have h := (single_step_iff (n := 4) Hart.smallParams 0#31 stepTrace .idle
    [.fetch 0x13#32, .idle] .idle (by decide +kernel) (by decide +kernel) (by decide +kernel)
    (by decide +kernel) (by decide +kernel)).2.1 (by decide +kernel)
  have hpc : o.csr.depc.extractLsb' 1 31 = 0x40#31 := by decide +kernel +revert
  rw [← hpc]
  exact h.mpr (by decide +kernel)

/-- The interrupt comes while the instruction at `0x80` is fetched. It is taken, its handler
executes one instruction, and the one at `0x80` does not execute. -/
theorem step_interrupted :
    let irq := { HartIn.idle with irqExternal := true }
    let ins := [irq, irq, .fetch 0x13#32, .idle]
    let o := Machine.run (next Hart.smallParams) (reset 4 0#31) stepTrace
    let s := o.next Hart.smallParams .idle
    let s' := Machine.run (next Hart.smallParams) s (ins ++ [.idle])
    o.core.ctrl.debugModeQ = true ∧ o.csr.dcsr.step = true ∧ o.csr.dcsr.stepie = false ∧
      o.hart.trapUnit.dretExec Hart.smallParams.trap (o.hart.trapIn Hart.smallParams .idle)
        = true ∧
      Outside Hart.smallParams s (ins ++ [.idle]) ∧ s'.core.ctrl.debugModeQ = true ∧
      Machine.fired (next Hart.smallParams) (irqEntry Hart.smallParams) s (ins ++ [.idle]) = 1 ∧
      Machine.fired (next Hart.smallParams) (endsAt Hart.smallParams 0x40#31) s (ins ++ [.idle])
        = 0 ∧
      ¬ Stepped Hart.smallParams 0x40#31 s ins .idle ∧
      Machine.Along (next Hart.smallParams) (BusOk Hart.smallParams) (reset 4 0#31)
        (stepTrace ++ .idle :: (ins ++ [.idle])) := by
  intro irq ins o s s'
  have hirq : Machine.fired (next Hart.smallParams) (irqEntry Hart.smallParams) s
      (ins ++ [.idle]) = 1 := by decide +kernel +revert
  refine ⟨by decide +kernel +revert, by decide +kernel +revert, by decide +kernel +revert,
    by decide +kernel +revert, by decide +kernel, by decide +kernel +revert, hirq,
    by decide +kernel +revert, fun h => ?_, by decide +kernel⟩
  have := h.noIrq
  rw [hirq] at this
  cases this

end HartObs

end CocoIbex
