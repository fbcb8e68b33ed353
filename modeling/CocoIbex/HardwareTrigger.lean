import CocoIbex.Hart

/-!
# The Hardware Trigger

The trigger compares `tdata2` with the address that the fetch unit hands over next, and the
controller then enters debug mode in place of letting the instruction into ID. It looks at the
trigger in `FIRST_FETCH` and `DECODE` only. In `IRQ_TAKEN` with the interrupt gone the fetch
unit hands over an instruction that no state has looked at (`Missed`), and likewise in `DECODE`
while an LSU error without an instruction blocks the entry. `trigger_iff` says that an
instruction at `tdata2` executes in no other case.

The trigger is armed outside of debug mode, with its enable bit set (`armed`). The statement is
about the cycles in which ID takes a word over. The address of that word is the one that has
been compared in the same cycle, so a matching word comes into ID only where the controller lets
it pass.

## Main results

* `stopped_next` — a cycle that misses nothing lets no instruction at `tdata2` into ID;
* `next_of_dbgTakenIf` — the entry saves the address of the fetch and leaves ID empty;
* `trigger_iff` — the exact condition, over every run.
-/

namespace CocoIbex

namespace Ctrl

variable {s : Ctrl} {y : CtrlIn}

/-- The states in which ID is ready while a debug entry is asked for. -/
theorem ready_of_enterDebugMode (he : enterDebugMode s y.toCtrlDec = true)
    (hs : y.stall = false) (hh : (out s y).haltIf = false) (hp : (out s y).pcSet = false) :
    (s.ctrlFsm = .irqTaken ∧ handleIrq s y.toCtrlDec = false) ∨
    (s.ctrlFsm = .dbgTakenIf ∧ debugCauseStands y.toCtrlDec = false) ∨
    (s.ctrlFsm = .decode ∧ y.instrValid = false ∧ specialReqAll s y = true) := by
  unfold out at hh hp
  cases hc : s.ctrlFsm with
  | irqTaken =>
      cases hi : handleIrq s y.toCtrlDec with
      | false => exact Or.inl ⟨rfl, rfl⟩
      | true => simp [hc, irqTakenOut, hi] at hp
  | dbgTakenIf =>
      cases hi : debugCauseStands y.toCtrlDec with
      | false => exact Or.inr (Or.inl ⟨rfl, rfl⟩)
      | true => simp [hc, dbgTakenIfOut, hi] at hp
  | decode =>
      simp only [hc, decodeOut, he, hs] at hh
      cases hv : y.instrValid <;> cases hsp : specialReqAll s y <;> simp [hv, hsp] at hh
      exact Or.inr (Or.inr ⟨rfl, rfl, rfl⟩)
  | flush =>
      simp only [hc, flushOut_eq, flushBase] at hh
      split_ifs at hh
  | firstFetch => simp [hc, he] at hh
  | _ => simp [hc, dbgTakenIdOut] at hh hp

end Ctrl

namespace Core

variable {cfg : Config} {s : Core} {x : CoreIn}

/-- Without an instruction in ID nothing but an LSU error is special. -/
theorem special_of_invalid (hv : s.ifId.instrValidId = false) :
    s.ctrl.specialReqAll (ctrlIn cfg s x) = Ctrl.excReqLsu (ctrlDec cfg s x) := by
  simp [Ctrl.specialReqAll, Ctrl.mretInsn, Ctrl.dretInsn, Ctrl.wfiInsn, Ctrl.csrPipeFlush,
    Ctrl.excReqD, Ctrl.ecallInsn, Ctrl.ebrkInsn, Ctrl.illegalInsnD, Ctrl.illegalDret,
    Ctrl.illegalUmode, Ctrl.instrFetchErr, ctrlIn, ctrlDec, hv]

/-- A word that is handed over is ready for ID, and is neither halted nor redirected. -/
theorem of_deliver (hd : deliver cfg s x = true) :
    x.fetchValid = true ∧ stallId cfg s x = false ∧ (ctrlOut cfg s x).haltIf = false ∧
      (ctrlOut cfg s x).pcSet = false := by
  simp only [deliver, IfIdIn.instrNewId, IfIdIn.idInReady, ifIdIn, Bool.and_eq_true,
    Bool.not_eq_true'] at hd
  obtain ⟨⟨hv, hs, hh⟩, hp⟩ := hd
  exact ⟨hv, hs, hh, hp⟩

/-- The PC in ID after a cycle: that of the word handed over, or the old one. -/
theorem pcId_next (hv : (next cfg s x).ifId.instrValidId = true) :
    (deliver cfg s x = true ∧ (next cfg s x).pcId = x.fetchAddr) ∨
    (deliver cfg s x = false ∧ s.ifId.instrValidId = true ∧ (next cfg s x).pcId = s.pcId) := by
  cases hd : deliver cfg s x with
  | true =>
      simp only [deliver, Bool.and_eq_true] at hd
      exact Or.inl ⟨rfl, by simp [next, hd.1]⟩
  | false =>
      obtain ⟨hv', -, hs, -, -⟩ := instr_next hd hv
      have hnew : (ifIdIn cfg s x).instrNewId = false := by
        obtain hs | hs := hs <;> simp [IfIdIn.instrNewId, IfIdIn.idInReady, ifIdIn, hs]
      exact Or.inr ⟨rfl, hv', by simp [next, hnew]⟩

/-- The states that hand over a word while a debug entry is asked for. -/
theorem deliver_of_enterDebugMode (he : s.ctrl.enterDebugMode (ctrlDec cfg s x) = true)
    (hd : deliver cfg s x = true) :
    (s.ctrl.ctrlFsm = .irqTaken ∧ s.ctrl.handleIrq (ctrlDec cfg s x) = false) ∨
    (s.ctrl.ctrlFsm = .dbgTakenIf ∧ Ctrl.debugCauseStands (ctrlDec cfg s x) = false) ∨
    (s.ctrl.ctrlFsm = .decode ∧ s.ifId.instrValidId = false ∧
      Ctrl.excReqLsu (ctrlDec cfg s x) = true) := by
  obtain ⟨-, hs, hh, hp⟩ := of_deliver hd
  obtain hi | hc | ⟨hc, hv, hsp⟩ := Ctrl.ready_of_enterDebugMode he hs hh hp
  · exact Or.inl hi
  · exact Or.inr (Or.inl hc)
  · rw [special_of_invalid hv] at hsp
    exact Or.inr (Or.inr ⟨hc, hv, hsp⟩)

end Core

namespace Hart

variable {n : ℕ} {P : HartParams} {h : Hart n} {x : HartIn}

/-! ### The trigger -/

/-- The trigger is armed: `execute` of `tdata1` is set, outside of debug mode. -/
def armed (h : Hart n) : Bool := h.csr.tmatchControl && !h.core.ctrl.debugModeQ

/-- The trigger is armed where it is enabled outside of debug mode. -/
theorem armed_iff :
    h.armed = true ↔ h.csr.tmatchControl = true ∧ h.core.ctrl.debugModeQ = false := by
  simp [armed]

/-- An instruction at `tdata2` executes: it is valid in ID, and the controller runs it. -/
def RunsTrigger (h : Hart n) : Prop :=
  h.armed = true ∧ h.core.ifId.instrValidId = true ∧ h.core.ctrl.controllerRun = true ∧
    h.core.pcId = h.csr.tmatchValue

/-- The armed trigger matches the address of the fetch unit. -/
def Matches (h : Hart n) : Prop := h.armed = true ∧ h.pcIf = h.csr.tmatchValue

/-- A word at `tdata2` is handed over although the trigger is armed: in `IRQ_TAKEN` with the
interrupt gone, or in `DECODE` with an LSU error but no instruction in ID. -/
def Missed (P : HartParams) (h : Hart n) (x : HartIn) : Prop :=
  h.Matches ∧ x.fetchValid = true ∧ Core.stallId P.cfg h.core (h.coreIn P x) = false ∧
    ((h.core.ctrl.ctrlFsm = .irqTaken ∧
        h.core.ctrl.handleIrq (Core.ctrlDec P.cfg h.core (h.coreIn P x)) = false) ∨
      (h.core.ctrl.ctrlFsm = .decode ∧ h.core.ifId.instrValidId = false ∧
        Ctrl.excReqLsu (Core.ctrlDec P.cfg h.core (h.coreIn P x)) = true))

/-- It is seen in the registers. -/
instance : Decidable (RunsTrigger h) := inferInstanceAs (Decidable (_ ∧ _ ∧ _ ∧ _))

/-- So is a match. -/
instance : Decidable (Matches h) := inferInstanceAs (Decidable (_ ∧ _))

/-- So is a match that is missed, with the inputs of the cycle. -/
instance : Decidable (Missed P h x) := inferInstanceAs (Decidable (_ ∧ _ ∧ _ ∧ (_ ∨ _)))

/-- The controller sees a match. -/
theorem triggerMatch_of_matches (hP : P.dbgTriggerEn = true) (hm : h.Matches) :
    (h.coreIn P x).triggerMatch = true := by
  obtain ⟨ha, hpc⟩ := hm
  have hc : h.csr.tmatchControl = true := (armed_iff.mp ha).1
  have hpc' : (h.csrLines x).pcIf = h.csr.tmatchValue := hpc
  change h.csr.triggerMatch P.toCsrParams (h.csrLines x) = true
  simp [CsRegs.triggerMatch, hP, hc, hpc']

/-- A match asks for a debug entry. -/
theorem enterDebugMode_of_matches (hP : P.dbgTriggerEn = true) (hm : h.Matches) :
    h.core.ctrl.enterDebugMode (Core.ctrlDec P.cfg h.core (h.coreIn P x)) = true := by
  have ht := triggerMatch_of_matches (x := x) hP hm
  have hd : h.core.ctrl.debugModeQ = false := (armed_iff.mp hm.1).2
  simp [Ctrl.enterDebugMode, Core.ctrlDec, ht, hd]

/-- The address of the fetch unit goes with the word that is handed over. -/
theorem fetchAddr_coreIn : (h.coreIn P x).fetchAddr = h.pcIf := by
  rfl

/-! ### The invariant -/

/-- Outside of debug mode the instruction in ID is not at `tdata2`. -/
def Stopped (h : Hart n) : Prop :=
  h.armed = true → h.core.ifId.instrValidId = true → h.core.pcId ≠ h.csr.tmatchValue

/-- Debug mode is left with an empty ID. -/
theorem instrValidId_of_leave (hd : h.core.ctrl.debugModeQ = true)
    (hd' : (h.next P x).core.ctrl.debugModeQ = false) :
    (h.next P x).core.ifId.instrValidId = false := by
  set y := Core.ctrlIn P.cfg h.core (h.coreIn P x) with hy
  have hout : (h.core.ctrl.out y).debugModeD = false := hd'
  rw [Ctrl.out_debugModeD] at hout
  have hdret : h.core.ctrl.dretFlush y = true := by
    cases hs : h.core.ctrl.ctrlFsm <;> simp_all
  simp only [Ctrl.dretFlush, Ctrl.flushExc, Bool.and_eq_true, beq_iff_eq,
    Bool.not_eq_true'] at hdret
  obtain ⟨⟨⟨hfsm, hexc⟩, -⟩, -⟩ := hdret
  have hexc' : (h.core.ctrl.excReqQ || h.core.ctrl.storeErrQ || h.core.ctrl.loadErrQ) = false := by
    simpa [hfsm] using hexc
  have hhalt : (Core.ctrlOut P.cfg h.core (h.coreIn P x)).haltIf = true := by
    simp only [Core.ctrlOut, Ctrl.out, hfsm, Ctrl.flushOut_eq, Ctrl.flushBase]
    split_ifs <;> rfl
  have hflush : Core.flushId P.cfg h.core (h.coreIn P x) = true := by
    simp only [Core.flushId, Ctrl.flushId, hfsm, hexc', Bool.false_and, Bool.not_false]
  have hdel : Core.deliver P.cfg h.core (h.coreIn P x) = false := by
    simp [Core.deliver, IfIdIn.instrNewId, IfIdIn.idInReady, Core.ifIdIn, hhalt]
  change (Core.next P.cfg h.core (h.coreIn P x)).ifId.instrValidId = false
  simp [Core.instrValidId_next hdel, hflush]

/-- An armed trigger stays as it is outside of debug mode. -/
theorem tmatch_next (hd : h.core.ctrl.debugModeQ = false) :
    (h.next P x).csr.tmatchControl = h.csr.tmatchControl ∧
      (h.next P x).csr.tmatchValue = h.csr.tmatchValue :=
  CsRegs.next_tmatch _ _ _ hd

/-- A cycle that hands over the word at an armed `tdata2` is a missed one. -/
theorem missed_of_deliver (hP : P.dbgTriggerEn = true) (hm : h.Matches)
    (hdel : Core.deliver P.cfg h.core (h.coreIn P x) = true) : Missed P h x := by
  obtain ⟨hv, hs, -, -⟩ := Core.of_deliver hdel
  refine ⟨hm, hv, hs, ?_⟩
  have he := enterDebugMode_of_matches (x := x) hP hm
  obtain hi | ⟨-, hc⟩ | hl := Core.deliver_of_enterDebugMode he hdel
  · exact Or.inl hi
  · have ht := triggerMatch_of_matches (x := x) hP hm
    simp [Ctrl.debugCauseStands, Core.ctrlDec, ht] at hc
  · exact Or.inr hl

/-- One cycle in which nothing is missed lets no instruction at `tdata2` into ID. -/
theorem stopped_next (hP : P.dbgTriggerEn = true) (hi : h.Stopped) (hx : ¬ Missed P h x) :
    (h.next P x).Stopped := by
  intro ha hv hpc
  obtain ⟨hc', hd'⟩ := armed_iff.mp ha
  cases hd : h.core.ctrl.debugModeQ with
  | true =>
      rw [instrValidId_of_leave hd hd'] at hv
      cases hv
  | false =>
      obtain ⟨hc, hval⟩ := tmatch_next (P := P) (x := x) hd
      have harm : h.armed = true := armed_iff.mpr ⟨hc ▸ hc', hd⟩
      rw [hval] at hpc
      obtain ⟨hdel, hnew⟩ | ⟨-, hold, hkeep⟩ := Core.pcId_next hv
      · refine hx (missed_of_deliver hP ⟨harm, ?_⟩ hdel)
        rw [← fetchAddr_coreIn (P := P) (x := x), ← hnew]
        exact hpc
      · exact hi harm hold (hkeep ▸ hpc)

/-- A missed cycle lets the instruction at `tdata2` execute. -/
theorem runsTrigger_of_missed (hx : Missed P h x) : (h.next P x).RunsTrigger := by
  obtain ⟨⟨harm, hpc⟩, hv, hs, hcase⟩ := hx
  obtain ⟨hc, hd⟩ := armed_iff.mp harm
  set y := Core.ctrlIn P.cfg h.core (h.coreIn P x) with hy
  have hst : y.stall = false := hs
  have hdec : y.toCtrlDec = Core.ctrlDec P.cfg h.core (h.coreIn P x) := rfl
  have hout : (h.core.ctrl.out y).haltIf = false ∧ (h.core.ctrl.out y).pcSet = false ∧
      (h.core.ctrl.out y).ctrlFsmNs = .decode ∧ (h.core.ctrl.out y).debugModeD = false := by
    obtain ⟨hfsm, hirq⟩ | ⟨hfsm, hval, herr⟩ := hcase
    · simp [Ctrl.out, hfsm, Ctrl.irqTakenOut, hdec, hirq, Ctrl.defaults, hd]
    · have hsp : h.core.ctrl.specialReqAll y = true := by
        rw [hy, Core.special_of_invalid hval, herr]
      have hval' : y.instrValid = false := hval
      simp [Ctrl.out, hfsm, Ctrl.decodeOut, Ctrl.defaults, hsp, hval', hd]
  obtain ⟨hhalt, hset, hfsm', hdbg'⟩ := hout
  have hnew : (Core.ifIdIn P.cfg h.core (h.coreIn P x)).instrNewId = true := by
    have hv' : (Core.ifIdIn P.cfg h.core (h.coreIn P x)).fetchValid = true := hv
    have hs' : (Core.ifIdIn P.cfg h.core (h.coreIn P x)).stall = false := hs
    have hh' : (Core.ifIdIn P.cfg h.core (h.coreIn P x)).haltIf = false := hhalt
    simp [IfIdIn.instrNewId, IfIdIn.idInReady, hv', hs', hh']
  have hvalid : (h.next P x).core.ifId.instrValidId = true := by
    have hset' : (Core.ifIdIn P.cfg h.core (h.coreIn P x)).pcSet = false := hset
    change (h.core.ifId.next (Core.ifIdIn P.cfg h.core (h.coreIn P x))).instrValidId = true
    simp only [IfIdIn.instrNewId, Bool.and_eq_true] at hnew
    simp [IfIdReg.next, hnew.1, hnew.2, hset']
  have hrun : (h.next P x).core.ctrl.controllerRun = true := by
    have hns : (h.next P x).core.ctrl.ctrlFsm = .decode := hfsm'
    simp [Ctrl.controllerRun, hns]
  have hpc' : (h.next P x).core.pcId = h.pcIf := by
    change (Core.next P.cfg h.core (h.coreIn P x)).pcId = h.pcIf
    simp [Core.next, hnew, fetchAddr_coreIn]
  obtain ⟨hc', hval⟩ := tmatch_next (P := P) (x := x) hd
  refine ⟨armed_iff.mpr ⟨hc'.trans hc, hdbg'⟩, hvalid, hrun, ?_⟩
  rw [hval, hpc', hpc]

/-! ### The debug entry -/

/-- At an instruction boundary a match is on its way to debug mode, unless the instruction
in ID redirects the fetch. -/
theorem dbgTakenIf_of_matches (hP : P.dbgTriggerEn = true) (hm : h.Matches)
    (hs : Core.stallId P.cfg h.core (h.coreIn P x) = false)
    (hset : (h.ctrlOut P x).pcSet = false)
    (hfsm : h.core.ctrl.ctrlFsm = .firstFetch ∨ (h.core.ctrl.ctrlFsm = .decode ∧
      h.core.ctrl.specialReqAll (Core.ctrlIn P.cfg h.core (h.coreIn P x)) = false)) :
    (h.next P x).core.ctrl.ctrlFsm = .dbgTakenIf ∧ (h.next P x).Matches ∧
      (h.next P x).csr.tmatchValue = h.csr.tmatchValue := by
  have he := enterDebugMode_of_matches (x := x) hP hm
  obtain ⟨hc, hd⟩ := armed_iff.mp hm.1
  set y := Core.ctrlIn P.cfg h.core (h.coreIn P x) with hy
  have he' : h.core.ctrl.enterDebugMode y.toCtrlDec = true := he
  have hst : y.stall = false := hs
  have hout : (h.core.ctrl.out y).ctrlFsmNs = .dbgTakenIf ∧ (h.core.ctrl.out y).haltIf = true ∧
      (h.core.ctrl.out y).debugModeD = false := by
    obtain hf | ⟨hf, hsp⟩ := hfsm
    · simp [Ctrl.out, hf, he', Ctrl.defaults, hd]
    · simp [Ctrl.out, hf, Ctrl.decodeOut, he', hsp, hst, Ctrl.defaults, hd]
  obtain ⟨hns, hhalt, hdbg⟩ := hout
  have hready : h.idInReady P x = false := by
    simp [idInReady, Ctrl.idInReady, ← hy, hhalt]
  obtain ⟨hc', hval⟩ := tmatch_next (P := P) (x := x) hd
  refine ⟨hns, ⟨armed_iff.mpr ⟨hc'.trans hc, hdbg⟩, ?_⟩, hval⟩
  have haddr : (h.next P x).fetchAddrQ = h.fetchAddrQ := by
    simp [next, fetchAddrD, hset, hready]
  rw [pcIf, haddr, hval]
  exact hm.2

/-- The entry saves the address of the fetch and leaves ID empty. -/
theorem next_of_dbgTakenIf (hfsm : h.core.ctrl.ctrlFsm = .dbgTakenIf)
    (hstands : Ctrl.debugCauseStands (Core.ctrlDec P.cfg h.core (h.coreIn P x)) = true) :
    (h.next P x).core.ctrl.debugModeQ = true ∧ (h.next P x).csr.depc = h.pcIf ∧
      (h.next P x).core.ifId.instrValidId = false := by
  set y := Core.ctrlIn P.cfg h.core (h.coreIn P x) with hy
  have hstands' : Ctrl.debugCauseStands y.toCtrlDec = true := hstands
  have hout : h.core.ctrl.out y = Ctrl.dbgTakenIfOut h.core.ctrl y.toCtrlDec := by
    simp only [Ctrl.out, hfsm]
  have hsave : (h.csrIn P x).csrSaveCause = true ∧ (h.csrIn P x).debugCsrSave = true ∧
      (h.csrIn P x).csrSaveIf = true := by
    change (h.core.ctrl.out y).csrSaveCause = true ∧ (h.core.ctrl.out y).debugCsrSave = true ∧
      (h.core.ctrl.out y).csrSaveIf = true
    simp [hout, Ctrl.dbgTakenIfOut, hstands']
  have hpc : CsRegs.exceptionPc (h.csrIn P x) = h.pcIf := by
    simp only [CsRegs.exceptionPc, hsave.1, hsave.2.2, if_true]
    rfl
  refine ⟨?_, ?_, ?_⟩
  · change (h.core.ctrl.out y).debugModeD = true
    simp [hout, Ctrl.dbgTakenIfOut, hstands']
  · rw [← hpc]
    simp only [next, CsRegs.next, CsRegs.trapped, hsave.1, hsave.2.1, if_true]
  · have hset : (Core.ctrlOut P.cfg h.core (h.coreIn P x)).pcSet = true := by
      change (h.core.ctrl.out y).pcSet = true
      simp [hout, Ctrl.dbgTakenIfOut, hstands']
    have hflush : Core.flushId P.cfg h.core (h.coreIn P x) = true := by
      change h.core.ctrl.flushId y.toCtrlDec = true
      simp [Ctrl.flushId, hfsm, hstands']
    have hdel : Core.deliver P.cfg h.core (h.coreIn P x) = false := by
      simp [Core.deliver, hset]
    change (Core.next P.cfg h.core (h.coreIn P x)).ifId.instrValidId = false
    simp [Core.instrValidId_next hdel, hflush]

/-- A match saves the address of the trigger. -/
theorem debugMode_of_matches (hP : P.dbgTriggerEn = true) (hm : h.Matches)
    (hfsm : h.core.ctrl.ctrlFsm = .dbgTakenIf) :
    (h.next P x).core.ctrl.debugModeQ = true ∧ (h.next P x).csr.depc = h.csr.tmatchValue ∧
      (h.next P x).core.ifId.instrValidId = false := by
  have ht : h.csr.triggerMatch P.toCsrParams (h.csrLines x) = true :=
    triggerMatch_of_matches hP hm
  have hstands : Ctrl.debugCauseStands (Core.ctrlDec P.cfg h.core (h.coreIn P x)) = true := by
    change (_ || _ || h.csr.triggerMatch P.toCsrParams (h.csrLines x)) = true
    rw [ht, Bool.or_true]
  obtain ⟨hdbg, hdepc, hvalid⟩ := next_of_dbgTakenIf hfsm hstands
  exact ⟨hdbg, hdepc.trans hm.2, hvalid⟩

/-! ### Runs -/

/-- **The hardware trigger.** In a run, no instruction at an armed `tdata2` executes outside
of debug mode if and only if no cycle misses the trigger. And in every state of every run, a
match at an instruction boundary is followed two cycles later by debug mode with `dpc` equal
to `tdata2`, unless the instruction in ID redirects the fetch. -/
theorem trigger_iff (P : HartParams) (hP : P.dbgTriggerEn = true) (a : BitVec 31)
    (ins : List HartIn) :
    ((∀ pre, pre <+: ins → ¬ (Machine.run (next P) (reset n a) pre).RunsTrigger) ↔
      Machine.Along (next P) (fun h x => ¬ Missed P h x) (reset n a) ins) ∧
    ∀ x x' : HartIn,
      let h := Machine.run (next P) (reset n a) ins
      h.Matches → Core.stallId P.cfg h.core (h.coreIn P x) = false →
      (h.ctrlOut P x).pcSet = false →
      (h.core.ctrl.ctrlFsm = .firstFetch ∨ (h.core.ctrl.ctrlFsm = .decode ∧
        h.core.ctrl.specialReqAll (Core.ctrlIn P.cfg h.core (h.coreIn P x)) = false)) →
      ((h.next P x).next P x').core.ctrl.debugModeQ = true ∧
        ((h.next P x).next P x').csr.depc = h.csr.tmatchValue ∧
        ((h.next P x).next P x').core.ifId.instrValidId = false := by
  refine ⟨?_, ?_⟩
  · refine Machine.good_iff_along Stopped (fun h => ¬ h.RunsTrigger)
      (fun _ _ hi hx => stopped_next hP hi hx) ?_ ?_ ?_ ins
    · rintro h hi ⟨ha, hv, -, hpc⟩
      exact hi ha hv hpc
    · intro h x _ hx hgood
      exact hgood (runsTrigger_of_missed (not_not.mp hx))
    · intro ha
      simp [reset, armed, CsRegs.reset] at ha
  · intro x x' h hm hs hset hfsm
    obtain ⟨hfsm', hm', hval⟩ := dbgTakenIf_of_matches hP hm hs hset hfsm
    obtain ⟨hdbg, hdepc, hvalid⟩ := debugMode_of_matches (x := x') hP hm' hfsm'
    exact ⟨hdbg, hdepc.trans hval, hvalid⟩

/-- A debug session writes `0x200` to `tdata2` and sets `execute` of `tdata1`; then a branch
to `0x200` is taken, and a non-maskable interrupt arrives in its last cycle. -/
def triggerTrace : List HartIn :=
  [.idle, .idle, { HartIn.idle with debugReq := true }, { HartIn.idle with debugReq := true },
    -- csrrwi x0, tdata1, 4
    .fetch 0x7A125073#32,
    -- csrrw x0, tdata2, x1
    { HartIn.fetch 0x7A209073#32 with aluOperandAEx := 4#32 },
    -- dret
    { HartIn.fetch 0x7B200073#32 with aluOperandAEx := 0x200#32 },
    .idle, .idle,
    -- beq x0, x0, 8
    .fetch 0x00000463#32,
    { HartIn.idle with branchDecision := true },
    { HartIn.idle with branchDecision := true, branchTargetEx := 0x200#32, irqNm := true }]

/-- The interrupt stays, and no cycle of the run misses the trigger. -/
theorem trigger_iff_irqTaken :
    let ins := triggerTrace ++ [{ HartIn.fetch 0x13#32 with irqNm := true }]
    ∀ pre, pre <+: ins →
      ¬ (Machine.run (next smallParams) (reset 4 0#31) pre).RunsTrigger := by
  intro ins
  exact (trigger_iff (n := 4) smallParams rfl 0#31 ins).1.mpr (by decide +kernel)

/-- The interrupt is gone in the cycle in which the word at `0x200` comes; the instruction
there executes, on a bus that is never used. -/
theorem trigger_irq_gone :
    let ins := triggerTrace ++ [.fetch 0x13#32]
    (Machine.run (next smallParams) (reset 4 0#31) ins).RunsTrigger ∧
      Machine.Along (next smallParams)
        (fun h x => Core.BusOk smallParams.cfg h.core (h.coreIn smallParams x))
        (reset 4 0#31) ins := by
  decide +kernel

end Hart

end CocoIbex
