import CocoIbex.WbObs

/-!
# Load and Store Faults with a Write-Back Stage

An error of an access in write-back is signalled to the controller for one cycle.
`faultTrap_next` says when the next cycle traps for it: the controller has to be in `DECODE`,
with an instruction in ID that raises no exception of its own. `faults_trapped_iff` carries this
to whole runs: no fault is lost, and none comes after an effect of a younger instruction, if and
only if every error meets that condition, with no trap in between.

The traps for faults and the faults themselves are two lists of the observed hart, and a run is
settled if they are the same at all times, up to the fault of the cycle before (`Settled`).
Without an instruction in ID the error of the one cycle is not seen, and the fault is lost; an
exception of the instruction in ID goes first.

In debug mode the trap is the redirect of the fetch alone, since no trap register is written
there.

## Main results

* `faultTrap_next` — when the next cycle traps for the fault of this one;
* `faults_trapped_iff` — the exact condition, over every run, and for each fault of it.
-/

namespace CocoIbex

namespace Ctrl

variable {s : Ctrl} {x : CtrlDec} {y : CtrlIn}

/-- The instruction in ID has raised an exception, seen from `FLUSH`. -/
def ownExc (s : Ctrl) (x : CtrlDec) : Bool :=
  instrFetchErr x || s.illegalInsnQ || ecallInsn x || ebrkInsn x

/-- Such an exception is not the fault of a load or store. -/
theorem excCauseMtval_of_ownExc (h : ownExc s x = true) :
    (excCauseMtval s x).1 ≠ .loadAccessFault ∧ (excCauseMtval s x).1 ≠ .storeAccessFault := by
  rw [ownExc, Bool.or_eq_true, Bool.or_eq_true, Bool.or_eq_true, or_assoc, or_assoc] at h
  unfold excCauseMtval
  split_ifs <;> simp_all

/-- Without one, the flops of the LSU errors decide. -/
theorem excCauseMtval_of_not_ownExc (h : ownExc s x = false) :
    excCauseMtval s x
        = (if s.storeErrQ then .storeAccessFault else .loadAccessFault, x.lsuAddrLast) ∧
      ebreakDebug s x = false := by
  simp only [ownExc, Bool.or_eq_false_iff, and_assoc] at h
  obtain ⟨hfetch, hill, hecall, hebrk⟩ := h
  rw [excCauseMtval, ebreakDebug, hfetch, hill, hecall, hebrk]
  cases s.storeErrQ <;> exact ⟨rfl, rfl⟩

/-- A trap is saved with a load or store access fault only in `FLUSH`, for an instruction
without an exception of its own. -/
theorem flushExc_of_accessFault (hc : (out s y).csrSaveCause = true)
    (hf : (out s y).excCause = .loadAccessFault ∨ (out s y).excCause = .storeAccessFault) :
    flushExc s = true ∧ ownExc s y.toCtrlDec = false := by
  rw [out_csrSaveCause] at hc
  cases hs : s.ctrlFsm with
  | irqTaken =>
      rw [hs] at hc
      simp only [out, hs, irqTakenOut, hc, if_true] at hf
      split_ifs at hf <;> simp at hf
  | dbgTakenIf =>
      rw [hs] at hc
      simp [out, hs, dbgTakenIfOut, hc, defaults] at hf
  | dbgTakenId => simp [out, hs, dbgTakenIdOut, defaults] at hf
  | flush =>
      simp only [hs, Bool.and_eq_true] at hc
      have hx : (s.excReqQ || s.storeErrQ || s.loadErrQ) = true := by
        simpa [flushExc, hs] using hc.1
      have hcause : (out s y).excCause = (excCauseMtval s y.toCtrlDec).1 := by
        simp [out, hs, flushOut_eq, flushBase, hx]
      rw [hcause] at hf
      refine ⟨hc.1, ?_⟩
      by_contra hne
      obtain ⟨hl, hst⟩ := excCauseMtval_of_ownExc (Bool.not_eq_false _ ▸ hne)
      exact hf.elim hl hst
  | _ => simp [hs] at hc

/-- There the fault is saved with the address of the access. -/
theorem out_accessFault (hx : flushExc s = true) (ho : ownExc s y.toCtrlDec = false) :
    (out s y).csrSaveCause = true ∧ (out s y).csrSaveIf = false ∧
      (out s y).excCause = (if s.storeErrQ then .storeAccessFault else .loadAccessFault) ∧
      (out s y).csrMtval = y.lsuAddrLast := by
  obtain ⟨hcause, hdbg⟩ := excCauseMtval_of_not_ownExc ho
  have hs : s.ctrlFsm = .flush ∧ (s.excReqQ || s.storeErrQ || s.loadErrQ) = true := by
    simpa [flushExc] using hx
  simp [out, hs.1, flushOut_eq, flushBase, hs.2, hdbg, hcause, defaults]

end Ctrl

namespace WbCore

variable {cfg : Config} {s : WbCore} {x : WbCoreIn}

/-- The instruction for which the controller is about to flush stays in ID. -/
theorem of_flush_next (h : (next cfg s x).ctrl.ctrlFsm = .flush) :
    s.ctrl.ctrlFsm = .decode ∧ s.ifId.instrValidId = true ∧ (next cfg s x).ifId = s.ifId ∧
      (next cfg s x).instrFetchErrId = s.instrFetchErrId := by
  obtain ⟨hfsm, hv, -, hhalt⟩ := Ctrl.of_flush (s := s.ctrl) (y := ctrlIn cfg s x) h
  have hhalt' : (ifIdIn cfg s x).haltIf = true := hhalt
  exact ⟨hfsm, hv, next_of_not_ready hfsm (by simp [IfIdIn.idInReady, hhalt'])⟩

end WbCore

namespace WbObs

variable {n : ℕ} {P : HartParams} {o : WbObs n} {x x' : WbHartIn}

/-! ### The cycle of the error and the next -/

/-- The next cycle takes an exception if this one raises it, in `DECODE`, with an
instruction in ID. -/
theorem flushExc_next :
    (o.next P x).core.ctrl.flushExc = true ↔
      o.core.ctrl.ctrlFsm = .decode ∧ o.core.ifId.instrValidId = true ∧
        o.core.ctrl.raised (o.ctrlDec P x) = true := by
  constructor
  · intro h
    simp only [Ctrl.flushExc, Bool.and_eq_true, beq_iff_eq] at h
    obtain ⟨hflush, hexc⟩ := h
    obtain ⟨hfsm, hv, -⟩ := WbCore.of_flush_next hflush
    refine ⟨hfsm, hv, ?_⟩
    rw [Bool.or_assoc] at hexc
    exact hexc
  · rintro ⟨hfsm, hv, hr⟩
    exact Ctrl.flushExc_of_raised (y := WbCore.ctrlIn P.cfg o.core (o.coreIn P x)) hfsm hv hr

/-- The exception of the instruction in ID is still there. -/
theorem ownExc_next (x' : WbHartIn) (h : (o.next P x).core.ctrl.flushExc = true) :
    (o.next P x).core.ctrl.ownExc ((o.next P x).ctrlDec P x')
      = o.core.ctrl.excReqD (o.ctrlDec P x) := by
  simp only [Ctrl.flushExc, Bool.and_eq_true, beq_iff_eq] at h
  obtain ⟨hfsm, hv, hreg, hfetch⟩ :=
    WbCore.of_flush_next (s := o.core) (x := o.coreIn P x) h.1
  have hmain : (WbCore.main P.cfg (o.next P x).core).ecallInsn
        = (WbCore.main P.cfg o.core).ecallInsn ∧
      (WbCore.main P.cfg (o.next P x).core).ebrkInsn = (WbCore.main P.cfg o.core).ebrkInsn := by
    have hreg' : (o.next P x).core.ifId = o.core.ifId := hreg
    rw [WbCore.main, WbCore.main, hreg']
    exact mainDecode_system ..
  obtain ⟨hecall, hebrk⟩ := hmain
  have hecall' : ((o.next P x).ctrlDec P x').ecallInsn = (o.ctrlDec P x).ecallInsn := hecall
  have hebrk' : ((o.next P x).ctrlDec P x').ebrkInsn = (o.ctrlDec P x).ebrkInsn := hebrk
  have hfetch' : ((o.next P x).ctrlDec P x').instrFetchErr = (o.ctrlDec P x).instrFetchErr :=
    hfetch
  have hvalid : ((o.next P x).ctrlDec P x').instrValid = (o.ctrlDec P x).instrValid :=
    congrArg IfIdReg.instrValidId hreg
  have hill : (o.next P x).core.ctrl.illegalInsnQ = o.core.ctrl.illegalInsnD (o.ctrlDec P x) := rfl
  rw [Ctrl.ownExc, Ctrl.excReqD, hill, hfsm]
  simp only [Ctrl.instrFetchErr, Ctrl.ecallInsn, Ctrl.ebrkInsn, hecall', hebrk', hfetch', hvalid]
  cases (o.ctrlDec P x).instrFetchErr && (o.ctrlDec P x).instrValid <;>
    cases o.core.ctrl.illegalInsnD (o.ctrlDec P x) <;>
    cases (o.ctrlDec P x).ecallInsn && (o.ctrlDec P x).instrValid <;> simp

/-- The trap of a fault, from the registers in `FLUSH`. -/
theorem faultTrap_eq :
    o.faultTrap P x =
      if o.core.ctrl.flushExc = true ∧ o.core.ctrl.ownExc (o.ctrlDec P x) = false then
        some ⟨if o.core.ctrl.storeErrQ then .storeAccessFault else .loadAccessFault,
          if o.core.ctrl.storeErrQ || o.core.ctrl.loadErrQ then o.core.wb.wbPcQ else o.core.pcId,
          o.core.lsu.addrLastQ⟩
      else none := by
  set y := WbCore.ctrlIn P.cfg o.core (o.coreIn P x) with hy
  have hdec : y.toCtrlDec = o.ctrlDec P x := rfl
  have hsave : (o.hart.csrIn P x).csrSaveCause = (Ctrl.out o.core.ctrl y).csrSaveCause := rfl
  have hcause : (o.hart.csrIn P x).csrMcause = (Ctrl.out o.core.ctrl y).excCause := rfl
  have hmtval : (o.hart.csrIn P x).csrMtval = (Ctrl.out o.core.ctrl y).csrMtval := rfl
  have hif : (o.hart.csrIn P x).csrSaveIf = (Ctrl.out o.core.ctrl y).csrSaveIf := rfl
  have hid : (o.hart.csrIn P x).csrSaveId = o.core.ctrl.csrSaveId y true := rfl
  have hwb : (o.hart.csrIn P x).csrSaveWb = o.core.ctrl.csrSaveWb true := rfl
  have hpc : (o.hart.csrIn P x).pcId = o.core.pcId := rfl
  have hpcWb : (o.hart.csrIn P x).pcWb = o.core.wb.wbPcQ := rfl
  have haddr : y.lsuAddrLast = o.core.lsu.addrLastQ := rfl
  by_cases h : o.core.ctrl.flushExc = true ∧ o.core.ctrl.ownExc (o.ctrlDec P x) = false
  · obtain ⟨hx, ho⟩ := h
    obtain ⟨h1, h2, h3, h4⟩ := Ctrl.out_accessFault (y := y) hx ho
    have hdbg := (Ctrl.excCauseMtval_of_not_ownExc ho).2
    rw [← hdec] at hdbg
    rw [h1] at hsave
    rw [h2] at hif
    rw [h3] at hcause
    rw [h4, haddr] at hmtval
    rw [Ctrl.csrSaveId, hx, hdbg] at hid
    rw [Ctrl.csrSaveWb, hx] at hwb
    rw [if_pos ⟨hx, ho⟩, faultTrap, CsRegs.exceptionPc, hsave, hcause, hmtval, hif, hid, hwb, hpc,
      hpcWb]
    cases o.core.ctrl.storeErrQ <;> cases o.core.ctrl.loadErrQ <;> rfl
  · rw [if_neg h, faultTrap, hsave, hcause]
    refine if_neg fun hne => h ?_
    simp only [Bool.and_eq_true, Bool.or_eq_true, beq_iff_eq] at hne
    exact Ctrl.flushExc_of_accessFault hne.1 hne.2

/-- In the cycle of an error the PC in write-back and the address in the LSU stay. -/
theorem stay_of_excReqLsu (hi : Inv P o) (h : Ctrl.excReqLsu (o.ctrlDec P x) = true) :
    (o.next P x).core.wb.wbPcQ = o.core.wb.wbPcQ ∧
      (o.next P x).core.lsu.addrLastQ = o.core.lsu.addrLastQ := by
  obtain ⟨hen, -, hreq⟩ := silent_of_not_executing (gone_of_excReqLsu h).1
  have hpc : (o.next P x).core.wb.wbPcQ
      = if WbCore.enWb P.cfg o.core (o.coreIn P x) then o.core.pcId else o.core.wb.wbPcQ := rfl
  have hlsu : (o.next P x).core.lsu = o.core.lsu.next (o.lsuIn P x) := rfl
  have hreq' : (o.lsuIn P x).lsuReq = false := hreq
  have hidle := hi.core.idle_of_not_lsuReq hreq
  exact ⟨by simp [hpc, hen], hlsu ▸ (Lsu.next_of_idle hidle hreq').2.2⟩

/-- **Step.** The next cycle traps for the fault of this one if the controller is in
`DECODE`, with an instruction in ID that raises no exception, and else for none. -/
theorem faultTrap_next (hi : Inv P o) (hok : BusOk P o x) :
    (o.next P x).faultTrap P x' =
      if o.core.ctrl.ctrlFsm = .decode ∧ o.core.ifId.instrValidId = true ∧
        o.core.ctrl.excReqD (o.ctrlDec P x) = false then o.fault P x
      else none := by
  rw [faultTrap_eq]
  by_cases hc : o.core.ctrl.ctrlFsm = .decode ∧ o.core.ifId.instrValidId = true ∧
      o.core.ctrl.excReqD (o.ctrlDec P x) = false
  · rw [if_pos hc, fault_eq hi hok]
    obtain ⟨hfsm, hv, hreq⟩ := hc
    have hstore : (o.next P x).core.ctrl.storeErrQ = (o.ctrlDec P x).storeErr := rfl
    have hload : (o.next P x).core.ctrl.loadErrQ = (o.ctrlDec P x).loadErr := rfl
    cases hlsu : Ctrl.excReqLsu (o.ctrlDec P x) with
    | true =>
        have hr : o.core.ctrl.raised (o.ctrlDec P x) = true := by simp [Ctrl.raised, hlsu]
        have hexc := flushExc_next.mpr ⟨hfsm, hv, hr⟩
        have hown := (ownExc_next x' hexc).trans hreq
        have herr : ((o.ctrlDec P x).storeErr || (o.ctrlDec P x).loadErr) = true := hlsu
        obtain ⟨hpc, haddr⟩ := stay_of_excReqLsu hi hlsu
        rw [if_pos ⟨hexc, hown⟩, hstore, hload, herr, hpc, haddr]
        rfl
    | false =>
        refine if_neg fun hne => ?_
        have hr := (flushExc_next.mp hne.1).2.2
        simp [Ctrl.raised, hreq, hlsu] at hr
  · rw [if_neg hc]
    refine if_neg fun hne => hc ?_
    obtain ⟨hfsm, hv, -⟩ := flushExc_next.mp hne.1
    exact ⟨hfsm, hv, (ownExc_next x' hne.1).symm.trans hne.2⟩

/-! ### One fault -/

/-- A fault is that of the access in write-back, in a cycle in which nothing executes. -/
theorem of_fault {f : Fault} (hi : Inv P o) (hok : BusOk P o x) (h : o.fault P x = some f) :
    o.inWb = true ∧ o.younger P x = o.diverts P x := by
  have hlsu : Ctrl.excReqLsu (o.ctrlDec P x) = true := by
    by_contra hne
    rw [fault_eq hi hok, if_neg hne] at h
    cases h
  have hvalid : WbCore.lsuValid P.cfg o.core (o.coreIn P x) = true := by
    by_contra hne
    rw [fault, if_neg hne] at h
    cases h
  have hin := inWb_of_lsuValid hi hok hvalid
  have herr := errors_of_inWb hi hin
  exact ⟨hin, younger_eq (gone_of_excReqLsu hlsu).1 herr.1 herr.2⟩

/-- A fault traps in the next cycle, ahead of all effects of younger instructions, if and
only if the error is taken care of. -/
theorem trapped_iff (x' : WbHartIn) {f : Fault} (hi : Inv P o) (hok : BusOk P o x)
    (h : o.fault P x = some f) :
    ((o.next P x).faultTrap P x' = some f ∧ o.overtaken = false ∧ o.younger P x = false) ↔
      Caught P o x := by
  obtain ⟨hin, hy⟩ := of_fault hi hok h
  rw [faultTrap_next hi hok, h, hi.diverted hin, hy]
  constructor
  · rintro ⟨htrap, hd, -⟩
    by_cases hc : o.core.ctrl.ctrlFsm = .decode ∧ o.core.ifId.instrValidId = true ∧
        o.core.ctrl.excReqD (o.ctrlDec P x) = false
    · exact ⟨hc.1, hc.2.1, hc.2.2, hd⟩
    · rw [if_neg hc] at htrap
      cases htrap
  · rintro ⟨hfsm, hv, hreq, hd⟩
    exact ⟨if_pos ⟨hfsm, hv, hreq⟩, hd, by simp [diverts, hfsm]⟩

/-- A trap for a load or store is for the fault of the cycle before. Nothing else happens in
it, and outside of debug mode the CSRs have the fault afterwards. -/
theorem of_faultTrap {f : Fault} (h : o.faultTrap P x = some f) :
    WbCore.enWb P.cfg o.core (o.coreIn P x) = false ∧
      o.hart.csr.csrWeInt P.toCsrParams (o.hart.csrIn P x) = false ∧
      WbCore.lsuReq P.cfg o.core (o.coreIn P x) = false ∧
      (o.core.ctrl.debugModeQ = false →
        CsRegs.TrapsTo o.hart.csr (o.next P x).hart.csr f.cause f.addr f.pc) := by
  have hexc : o.core.ctrl.flushExc = true := by
    by_contra hne
    rw [faultTrap_eq, if_neg fun hc => hne hc.1] at h
    cases h
  have hfsm : o.core.ctrl.ctrlFsm = .flush := by
    simp only [Ctrl.flushExc, Bool.and_eq_true, beq_iff_eq] at hexc
    exact hexc.1
  have hx : WbCore.instrExecuting P.cfg o.core (o.coreIn P x) = false := by
    by_contra hne
    have := (WbCore.of_instrExecuting (Bool.not_eq_false _ ▸ hne)).2.2.2.1
    rw [hfsm] at this
    cases this
  obtain ⟨hen, hcsr, hreq⟩ := silent_of_not_executing hx
  refine ⟨hen, hcsr, hreq, fun hd => ?_⟩
  have hdbg : (o.hart.csrIn P x).debugCsrSave = _ :=
    Ctrl.out_debugCsrSave o.core.ctrl (WbCore.ctrlIn P.cfg o.core (o.coreIn P x))
  rw [hfsm] at hdbg
  rw [faultTrap] at h
  split_ifs at h with hsave
  obtain rfl := Option.some.inj h
  rw [Bool.and_eq_true] at hsave
  exact CsRegs.trapsTo_next hsave.1 hdbg hd

/-! ### Runs -/

/-- Every fault so far has its trap by the end of the next cycle, each one and in their
order, and none came after an effect of a younger instruction. -/
structure Settled (P : HartParams) (o : WbObs n) : Prop where
  traps : ∀ x, (o.next P x).traps = o.faults
  late : o.late = false

/-- No fault is open after a reset. -/
theorem settled_reset (P : HartParams) : Settled P (reset n) where
  traps := fun x => by
    have htrap : (reset n).faultTrap P x = none := by
      rw [faultTrap_eq]
      exact if_neg fun h => nomatch h.1
    change [] ++ ((reset n).faultTrap P x).toList = []
    rw [htrap]
    rfl
  late := rfl

/-- A cycle keeps the faults settled if its fault is taken care of. -/
theorem settled_next (hi : Inv P o) (hok : BusOk P o x) (hs : Settled P o)
    (hc : (o.fault P x).isSome = true → Caught P o x) : Settled P (o.next P x) where
  traps := fun x' => by
    have htraps : ((o.next P x).next P x').traps
        = (o.next P x).traps ++ ((o.next P x).faultTrap P x').toList := rfl
    have hfaults : (o.next P x).faults = o.faults ++ (o.fault P x).toList := rfl
    rw [htraps, hfaults, hs.traps x]
    cases hf : o.fault P x with
    | none =>
        rw [faultTrap_next hi hok, hf, ite_self]
    | some f =>
        rw [((trapped_iff x' hi hok hf).mpr (hc (by rw [hf]; rfl))).1]
  late := by
    have hlate : (o.next P x).late
        = (o.late || ((o.fault P x).isSome && (o.overtaken || o.younger P x))) := rfl
    rw [hlate, hs.late]
    cases hf : o.fault P x with
    | none => rfl
    | some f =>
        obtain ⟨-, ho, hy⟩ := (trapped_iff x hi hok hf).mpr (hc (by rw [hf]; rfl))
        rw [ho, hy]
        rfl

/-- An error that is not taken care of is not settled. -/
theorem caught_of_settled (hi : Inv P o) (hok : BusOk P o x) (hs : Settled P o)
    (hs' : Settled P (o.next P x)) : (o.fault P x).isSome = true → Caught P o x := by
  intro hsome
  obtain ⟨f, hf⟩ := Option.isSome_iff_exists.mp hsome
  have htrap : (o.next P x).faultTrap P x = some f := by
    have h := hs'.traps x
    change (o.next P x).traps ++ ((o.next P x).faultTrap P x).toList
      = o.faults ++ (o.fault P x).toList at h
    rw [hs.traps x, hf, List.append_cancel_left_eq] at h
    simpa using h
  have hlate : (o.late || ((o.fault P x).isSome && (o.overtaken || o.younger P x))) = false :=
    hs'.late
  rw [hs.late, hsome, Bool.false_or, Bool.true_and, Bool.or_eq_false_iff] at hlate
  exact (trapped_iff x hi hok hf).mp ⟨htrap, hlate.1, hlate.2⟩

/-- **Load and store faults with a write-back stage.** In every run on a bus that keeps to
its protocol, the faults are settled throughout if and only if every error is taken care of.
Each single fault traps in the next cycle, ahead of all effects of younger instructions, if
and only if it is taken care of; and a trap is for the fault of the cycle before, with
nothing else in its cycle, and leaves it in the CSRs outside of debug mode. -/
theorem faults_trapped_iff (P : HartParams) (ins : List WbHartIn)
    (hok : Machine.Along (next P) (BusOk P) (reset n) ins) :
    ((∀ pre, pre <+: ins → Settled P (Machine.run (next P) (reset n) pre)) ↔
      Machine.Along (next P) (fun o x => (o.fault P x).isSome = true → Caught P o x) (reset n)
        ins) ∧
    ∀ pre x, pre ++ [x] <+: ins → ∀ x' f,
      let o := Machine.run (next P) (reset n) pre
      let o' := o.next P x
      (o.fault P x = some f →
        ((o'.faultTrap P x' = some f ∧ o.overtaken = false ∧ o.younger P x = false) ↔
          Caught P o x)) ∧
      (o'.faultTrap P x' = some f →
        o.fault P x = some f ∧
        WbCore.enWb P.cfg o'.core (o'.coreIn P x') = false ∧
        o'.hart.csr.csrWeInt P.toCsrParams (o'.hart.csrIn P x') = false ∧
        WbCore.lsuReq P.cfg o'.core (o'.coreIn P x') = false ∧
        (o'.core.ctrl.debugModeQ = false →
          CsRegs.TrapsTo o'.hart.csr (o'.next P x').hart.csr f.cause f.addr f.pc)) := by
  refine ⟨?_, ?_⟩
  · refine Machine.good_iff_along_of (fun o => Inv P o ∧ Settled P o) (Settled P)
      (fun o x hi hx hc => ⟨inv_next hi.1 hx, settled_next hi.1 hx hi.2 hc⟩) (fun o hi => hi.2)
      ?_ ⟨inv_reset P, settled_reset P⟩ ins hok
    intro o x hi hx hne hs'
    exact hne (caught_of_settled hi.1 hx hi.2 hs')
  · rintro pre x ⟨post, rfl⟩ x' f o o'
    obtain ⟨hpre, hx⟩ := Machine.along_concat.mp (Machine.along_append.mp hok).1
    have hi : Inv P o := inv_run hpre
    refine ⟨trapped_iff x' hi hx, fun htrap => ⟨?_, of_faultTrap htrap⟩⟩
    rw [faultTrap_next hi hx] at htrap
    split_ifs at htrap
    exact htrap

/-- `lw x2, 0(x1)` at `0x80` has its grant and is in write-back; `ins` is what the fetch unit
has in the cycle of the grant. -/
def loadTrace (fetch : WbHartIn) : List WbHartIn :=
  [.idle, .idle, .idle, .fetch 0x80#32 0x0000A103#32,
    { fetch with adderResultEx := 0x404#32, dataGnt := true }]

/-- The bus answers with an error. -/
def loadError : WbHartIn := { WbHartIn.idle with dataRvalid := true, dataErr := true }

/-- With the next instruction in ID, the load traps. -/
theorem faults_trapped_iff_next :
    let ins := loadTrace (.fetch 0x84#32 0x13#32) ++ [loadError]
    let o := Machine.run (next Hart.smallParams) (reset 4) ins
    o.faults = [⟨.loadAccessFault, 0x80#32, 0x404#32⟩] ∧
      ∀ x, (o.next Hart.smallParams x).traps = [⟨.loadAccessFault, 0x80#32, 0x404#32⟩] := by
  intro ins o
  have hfaults : o.faults = [⟨.loadAccessFault, 0x80#32, 0x404#32⟩] := by
    decide +kernel +revert
  refine ⟨hfaults, fun x => ?_⟩
  rw [← hfaults]
  exact ((faults_trapped_iff Hart.smallParams ins (by decide +kernel)).1.mpr
    (by decide +kernel) ins List.prefix_rfl).traps x

/-- While the fetch unit has nothing, the error is lost: the load does not trap, and the next
instruction, `addi x3, x0, 5`, writes its register. -/
theorem faults_lost :
    let ins := loadTrace .idle ++ [loadError, .fetch 0x84#32 0x00500193#32,
      { WbHartIn.idle with rfWdataId := 5#32 }, .idle]
    let o := Machine.run (next Hart.smallParams) (reset 4) ins
    Machine.Along (next Hart.smallParams) (BusOk Hart.smallParams) (reset 4) ins ∧
      o.faults = [⟨.loadAccessFault, 0x80#32, 0x404#32⟩] ∧ o.traps = [] ∧
      o.core.rf.read 3#5 = 5#32 := by
  decide +kernel

end WbObs

end CocoIbex
