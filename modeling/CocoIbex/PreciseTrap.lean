import CocoIbex.HartObs

/-!
# Precise Traps

An exception is raised in `DECODE`, kept in flops of the controller and of the LSU, and taken
one cycle later in `FLUSH`, where three modules put the trap together. `causes` is the table of
the exceptions that a cycle raises, with what each leaves in `mcause` and `mtval`, in the order
of their priorities; `exception_taken` says that the first one is taken, for the instruction
that raised it. `interrupts` is the table of the pending interrupts, and `interrupt_taken` the
statement for them.

Both tables are written from the point of view of the instruction, with the word that was
fetched and the address of the failing transaction as the observed hart has them, and not with
the flops that the circuit keeps. So an illegal compressed instruction leaves its sixteen bits
in `mtval`, and a split store the address of the part that failed.

That a trap is precise has two sides. What is saved is that of the instruction, and the
instruction has no other effect: it is the one in ID, does not end, and is entered once.

## Main results

* `raised_of_exception` and `flushing_of_raised` — from the exception to `FLUSH`;
* `exception_taken` and `interrupt_taken` — one exception, and one interrupt;
* `trap_precise` — both, in every run on a bus that keeps to its protocol.
-/

namespace CocoIbex

/-- A word that is not compressed is not expanded. -/
theorem compressedDecoder_instr {w : BitVec 32} (h : isCompressed w = false) :
    (compressedDecoder w).instr = w := by
  have hq : quadrant w = 0b11#2 := by simpa [isCompressed] using h
  rw [compressedDecoder_c3 hq]
  rfl

namespace Ctrl

variable {s : Ctrl} {y : CtrlIn}

/-- What the controller does for an exception. -/
theorem out_exc (hf : s.ctrlFsm = .flush) (hx : flushExc s = true)
    (hb : ebreakDebug s y.toCtrlDec = false) :
    let o := out s y
    o.csrSaveCause = true ∧ o.debugCsrSave = false ∧ o.csrSaveIf = false ∧ o.csrSaveId = false ∧
      o.excCause = (excCauseMtval s y.toCtrlDec).1 ∧
      o.csrMtval = (excCauseMtval s y.toCtrlDec).2 ∧
      o.pcSet = true ∧ o.pcMux = .exc ∧
      o.excPcMux = (if s.debugModeQ then .dbgExc else .exc) ∧ o.haltIf = true := by
  have hx' : (s.excReqQ || s.storeErrQ || s.loadErrQ) = true := by simpa [flushExc, hf] using hx
  simp [out, hf, flushOut_eq, flushBase, hx', hb, defaults]

/-- What the controller does for an interrupt. -/
theorem out_irq (hf : s.ctrlFsm = .irqTaken) (hi : handleIrq s y.toCtrlDec = true) :
    let o := out s y
    o.csrSaveCause = true ∧ o.debugCsrSave = false ∧ o.csrSaveIf = true ∧ o.csrMtval = 0#32 ∧
      o.pcSet = true ∧ o.pcMux = .exc ∧ o.excPcMux = .irq ∧
      o.excCause =
        if y.irqNm then .irqNm
        else if y.irqs.irqFast ≠ 0#15 then .irqFast (mfipId y.irqs.irqFast)
        else if y.irqs.irqExternal then .irqExternalM
        else if y.irqs.irqSoftware then .irqSoftwareM
        else .irqTimerM := by
  have hn : s.nmiModeQ = false := by
    simp only [handleIrq, Bool.and_eq_true, Bool.not_eq_true'] at hi
    exact hi.1.2
  simp [out, hf, irqTakenOut, hi, hn, defaults]

/-- The fast interrupt that the controller picks is the pending one with the highest
number. -/
theorem find_irqFast (fast : BitVec 15) :
    ([14, 13, 12, 11, 10, 9, 8, 7, 6, 5, 4, 3, 2, 1, 0].find? fun k => fast.getLsbD k).map
        (BitVec.ofNat 4)
      = if fast = 0#15 then none else some (mfipId fast) := by
  have hsplit : [14, 13, 12, 11, 10, 9, 8, 7, 6, 5, 4, 3, 2, 1, 0]
      = [14, 13, 12, 11, 10, 9, 8, 7, 6, 5, 4, 3, 2, 1] ++ [0] := rfl
  rw [hsplit, List.find?_append, mfipId]
  cases hhigh : [14, 13, 12, 11, 10, 9, 8, 7, 6, 5, 4, 3, 2, 1].find? fun k => fast.getLsbD k with
  | some k =>
      have hk : fast.getLsbD k = true := by simpa using List.find?_some hhigh
      have hne : fast ≠ 0#15 := by
        rintro rfl
        simp at hk
      simp [hne]
  | none =>
      -- only the first one can be pending
      have hzero : fast = 0#15 ↔ fast.getLsbD 0 = false := by
        refine ⟨fun h => by simp [h], fun h0 => BitVec.eq_of_getLsbD_eq fun i hi => ?_⟩
        rw [BitVec.getLsbD_zero]
        rcases Nat.eq_zero_or_pos i with rfl | hpos
        · exact h0
        · have hnone := List.find?_eq_none.mp hhigh i (by simp; omega)
          simpa using hnone
      cases h0 : fast.getLsbD 0 with
      | false =>
          obtain rfl := hzero.mpr h0
          rfl
      | true =>
          have hne : fast ≠ 0#15 := fun h => Bool.false_ne_true ((hzero.mp h).symm.trans h0)
          rw [List.find?_cons_of_pos h0, if_neg hne]
          rfl

end Ctrl

namespace HartObs

variable {n : ℕ} (P : HartParams) (o : HartObs n) (x : HartIn)

/-! ### What is raised -/

/-- The instruction in ID as the controller sees it. -/
def ctrlDec : CtrlDec := Core.ctrlDec P.cfg o.core (o.coreIn P x)

/-- The instruction in ID is illegal: by the decoder or the CSRs, a DRET outside of debug
mode, or an MRET or a trapped WFI in U-mode. -/
def illegal : Bool :=
  let d := o.ctrlDec P x
  d.illegalInsn || (d.dretInsn && !o.core.ctrl.debugModeQ)
    || (o.csr.privLvl != .m && (d.mretInsn || (o.csr.mstatus.tw && d.wfiInsn)))

/-- The word of the instruction in ID, 16 or 32 bits. -/
def originalInstr : BitVec 32 :=
  if isCompressed o.word then 0#16 ++ o.word.extractLsb' 0 16 else o.word

/-- The address of the first data transaction of the access that failed. -/
def failingAddr : BitVec 32 := ((o.log.answer (o.lsuIn P x)).first).getD 0#32

/-- The exceptions, the highest priority first: whether the cycle raises one, its cause, and
its `mtval`. -/
def causes : List (Bool × ExcCause × BitVec 32) :=
  let d := o.ctrlDec P x
  [(d.instrFetchErr, .instrAccessFault,
      if d.instrFetchErrPlus2 then o.core.pcId + 2#32 else o.core.pcId),
    (o.illegal P x, .illegalInsn, o.originalInstr),
    (d.ecallInsn, if o.csr.privLvl = .m then .ecallMmode else .ecallUmode, 0#32),
    (d.ebrkInsn, .breakpoint, 0#32),
    (d.storeErr, .storeAccessFault, o.failingAddr P x),
    (d.loadErr, .loadAccessFault, o.failingAddr P x)]

/-- The exception to be taken, if any is raised. -/
def exception : Option (ExcCause × BitVec 32) := ((o.causes P x).find? (·.1)).map (·.2)

/-- The interrupts, the highest priority first: whether it is pending and enabled. -/
def interrupts : List (Bool × ExcCause) :=
  let i := o.csr.irqs (o.hart.csrLines x)
  (x.irqNm, .irqNm)
    :: ([14, 13, 12, 11, 10, 9, 8, 7, 6, 5, 4, 3, 2, 1, 0].map
        fun k => (i.irqFast.getLsbD k, .irqFast (BitVec.ofNat 4 k)))
    ++ [(i.irqExternal, .irqExternalM), (i.irqSoftware, .irqSoftwareM), (i.irqTimer, .irqTimerM)]

/-- The interrupt to be taken, if any is pending. -/
def interrupt : Option ExcCause := ((o.interrupts x).find? (·.1)).map (·.2)

/-- A trap is entered outside of debug mode. -/
def trapEntry : Bool := o.hart.trapUnit.trapEntry P.trap (o.hart.trapIn P x)

/-- An exception is entered. -/
def excEntry : Bool := o.trapEntry P x && o.core.ctrl.ctrlFsm == .flush

/-- An interrupt is taken. -/
def irqEntry : Bool := o.trapEntry P x && o.core.ctrl.ctrlFsm == .irqTaken

variable {P o x}

/-! ### The cycle that raises an exception -/

/-- The controller sees the same illegal instructions. -/
theorem illegalInsnD_eq (hfsm : o.core.ctrl.ctrlFsm = .decode)
    (hv : o.core.ifId.instrValidId = true) :
    o.core.ctrl.illegalInsnD (o.ctrlDec P x) = o.illegal P x := by
  have hv' : (o.ctrlDec P x).instrValid = true := hv
  have hp : (o.ctrlDec P x).privMode = o.csr.privLvl := rfl
  have ht : (o.ctrlDec P x).csrMstatusTw = o.csr.mstatus.tw := rfl
  simp [Ctrl.illegalInsnD, Ctrl.illegalDret, Ctrl.illegalUmode, Ctrl.dretInsn, Ctrl.mretInsn,
    Ctrl.wfiInsn, hfsm, hv', hp, ht, illegal]

/-- A cycle with an exception is one in which the controller sees one raised. -/
theorem raised_of_exception {c : ExcCause} {v : BitVec 32} (hfsm : o.core.ctrl.ctrlFsm = .decode)
    (hv : o.core.ifId.instrValidId = true) (he : o.exception P x = some (c, v)) :
    o.core.ctrl.raised (o.ctrlDec P x) = true := by
  have hv' : (o.ctrlDec P x).instrValid = true := hv
  rw [Ctrl.raised, Ctrl.excReqD, illegalInsnD_eq hfsm hv]
  by_contra hne
  simp only [Ctrl.ecallInsn, Ctrl.ebrkInsn, Ctrl.instrFetchErr, hv', hfsm, Ctrl.excReqLsu,
    Bool.and_true, Bool.or_eq_true, not_or, Bool.not_eq_true] at hne
  obtain ⟨hreq, hstore, hload⟩ := hne
  have hreq' : (o.ctrlDec P x).ecallInsn = false ∧ (o.ctrlDec P x).ebrkInsn = false ∧
      o.illegal P x = false ∧ (o.ctrlDec P x).instrFetchErr = false := by
    simpa [and_assoc] using hreq
  obtain ⟨hecall, hebrk, hill, hfetch⟩ := hreq'
  simp [exception, causes, hecall, hebrk, hill, hfetch, hstore, hload] at he

/-- An instruction that raises an exception writes no CSR. -/
theorem csrWrite_of_raised (hi : Inv P o) (hok : BusOk P o x)
    (hr : o.core.ctrl.raised (o.ctrlDec P x) = true) :
    o.csr.csrWeInt P.toCsrParams (o.hart.csrIn P x) = false := by
  by_contra hne
  rw [Bool.not_eq_false, CsRegs.csrWeInt, CsRegs.csrWreq] at hne
  simp only [Bool.and_eq_true, Bool.not_eq_true'] at hne
  obtain ⟨⟨hen, -⟩, hlegal⟩ := hne
  have hop : Core.csrOpEn P.cfg o.core (o.coreIn P x) = true := hen
  simp only [Core.csrOpEn, IdStage.csrOpEn, Bool.and_eq_true] at hop
  have hx := Core.instrExecuting_iff.mp hop.1.2
  have hacc : (Core.main P.cfg o.core).csrAccess = true := hop.1.1
  obtain ⟨hill, hecall, hebrk, hmret, hdret, hwfi⟩ := mainDecode_csrAccess hacc
  have hlegal' : (o.coreIn P x).illegalCsr = false := hlegal
  have hmem : Core.memInsn P.cfg o.core = false := by
    cases hm : Core.memInsn P.cfg o.core with
    | false => rfl
    | true =>
        have := (Core.onlyMem hm).csrAccess
        rw [hacc] at this
        cases this
  have hlsu : Ctrl.excReqLsu (o.ctrlDec P x) = false := by
    refine Core.excReqLsu_of_not_lsuValid (Bool.eq_false_iff.mpr fun hl => ?_)
    have := (hi.core.of_lsuValid hok hl).1.2.2
    rw [hmem] at this
    cases this
  have hd : (o.ctrlDec P x).illegalInsn = false ∧ (o.ctrlDec P x).ecallInsn = false ∧
      (o.ctrlDec P x).ebrkInsn = false ∧ (o.ctrlDec P x).mretInsn = false ∧
      (o.ctrlDec P x).dretInsn = false ∧ (o.ctrlDec P x).instrFetchErr = false ∧
      (o.ctrlDec P x).wfiInsn = false := by
    refine ⟨?_, hecall, hebrk, hmret, hdret, hx.2.1, hwfi⟩
    simp [ctrlDec, Core.ctrlDec, Core.illegalCsrInsn, hlegal', show
      (Core.main P.cfg o.core).illegalInsn = false from hill]
  obtain ⟨h1, h2, h3, h4, h5, h6, h7⟩ := hd
  simp [Ctrl.raised, Ctrl.excReqD, Ctrl.illegalInsnD, Ctrl.illegalDret, Ctrl.illegalUmode,
    Ctrl.ecallInsn, Ctrl.ebrkInsn, Ctrl.instrFetchErr, Ctrl.mretInsn, Ctrl.dretInsn,
    Ctrl.wfiInsn, h1, h2, h3, h4, h5, h6, h7, hlsu] at hr

/-- It leaves all CSRs as they are. -/
theorem csr_of_raised (hi : Inv P o) (hok : BusOk P o x) (hfsm : o.core.ctrl.ctrlFsm = .decode)
    (hr : o.core.ctrl.raised (o.ctrlDec P x) = true) : (o.next P x).csr = o.csr := by
  have hout : o.hart.trapUnit.ctrlOut P.trap (o.hart.trapIn P x)
      = Ctrl.decodeOut o.core.ctrl (Core.ctrlIn P.cfg o.core (o.coreIn P x)) := by
    change Ctrl.out o.core.ctrl _ = _
    simp only [Ctrl.out, hfsm]
    rfl
  refine CsRegs.next_eq_self (csrWrite_of_raised hi hok hr) ?_ ?_ ?_ ?_ <;>
    simp [Hart.csrIn, TrapUnit.csrIn, hout, Ctrl.decodeOut, Ctrl.defaults]

/-- An access that fails is under way, and its address stays. -/
theorem addrLastQ_of_excReqLsu (hi : Inv P o) (hok : BusOk P o x)
    (h : Ctrl.excReqLsu (o.ctrlDec P x) = true) :
    (o.next P x).core.lsu.addrLastQ = o.failingAddr P x := by
  have hl : Core.lsuValid P.cfg o.core (o.coreIn P x) = true := by
    by_contra hne
    rw [Bool.not_eq_true] at hne
    have hno : Ctrl.excReqLsu (o.ctrlDec P x) = false := Core.excReqLsu_of_not_lsuValid hne
    rw [h] at hno
    cases hno
  obtain ⟨hact, hidle⟩ := hi.core.of_lsuValid hok hl
  have hreq : (o.lsuIn P x).lsuReq = false :=
    Bool.eq_false_iff.mpr fun hr => Core.not_memActive_of_lsuReq hr hact
  have hlast : (o.next P x).core.lsu.addrLastQ = o.core.lsu.addrLastQ := by
    change (o.core.lsu.next (o.lsuIn P x)).addrLastQ = _
    simp [Lsu.next, Lsu.step, hidle, hreq]
  have herr : o.core.lsu.loadErr (o.lsuIn P x) = true ∨
      o.core.lsu.storeErr (o.lsuIn P x) = true := by
    have h' : o.core.lsu.storeErr (o.lsuIn P x) = true ∨ o.core.lsu.loadErr (o.lsuIn P x) = true :=
      Bool.or_eq_true_iff.mp h
    exact h'.symm
  rw [hlast, failingAddr, Lsu.addrLastQ_of_fault hi.fault (faultOk hi hok) herr, Option.getD_some]

/-- The cycle after one that raises an exception: the controller flushes, and has kept what
was raised; the instruction and the CSRs are as before. -/
structure Flushing (P : HartParams) (o : HartObs n) (x : HartIn) : Prop where
  fsm : (o.next P x).core.ctrl.ctrlFsm = .flush
  debugModeQ : (o.next P x).core.ctrl.debugModeQ = o.core.ctrl.debugModeQ
  illegalInsnQ : (o.next P x).core.ctrl.illegalInsnQ = o.illegal P x
  storeErrQ : (o.next P x).core.ctrl.storeErrQ = (o.ctrlDec P x).storeErr
  loadErrQ : (o.next P x).core.ctrl.loadErrQ = (o.ctrlDec P x).loadErr
  exc : (o.next P x).core.ctrl.flushExc = true
  valid : (o.next P x).core.ifId.instrValidId = true
  ifId : (o.next P x).core.ifId = o.core.ifId
  instrRdataCId : (o.next P x).core.instrRdataCId = o.core.instrRdataCId
  fetchErr : (o.next P x).core.instrFetchErrId = o.core.instrFetchErrId
  fetchErrPlus2 : (o.next P x).core.instrFetchErrPlus2Id = o.core.instrFetchErrPlus2Id
  pcId : (o.next P x).core.pcId = o.core.pcId
  csr : (o.next P x).csr = o.csr

/-- What raises an exception in DECODE goes to FLUSH. -/
theorem flushing_of_raised (hi : Inv P o) (hok : BusOk P o x)
    (hfsm : o.core.ctrl.ctrlFsm = .decode) (hv : o.core.ifId.instrValidId = true)
    (hr : o.core.ctrl.raised (o.ctrlDec P x) = true) : Flushing P o x := by
  have hexc : (o.next P x).core.ctrl.flushExc = true :=
    Ctrl.flushExc_of_raised (y := Core.ctrlIn P.cfg o.core (o.coreIn P x)) hfsm hv hr
  have hflush : (o.next P x).core.ctrl.ctrlFsm = .flush := by
    simp only [Ctrl.flushExc, Bool.and_eq_true, beq_iff_eq] at hexc
    exact hexc.1
  have hi' := inv_next hi hok
  have hv' := hi'.flush hflush
  obtain ⟨-, -, -, hhalt⟩ := Ctrl.of_flush (s := o.core.ctrl)
    (y := Core.ctrlIn P.cfg o.core (o.coreIn P x)) hflush
  have hhalt' : (Core.ctrlOut P.cfg o.core (o.coreIn P x)).haltIf = true := hhalt
  have hnew : (Core.ifIdIn P.cfg o.core (o.coreIn P x)).instrNewId = false := by
    simp [IfIdIn.instrNewId, IfIdIn.idInReady, Core.ifIdIn, hhalt']
  have hword : (o.next P x).word = o.word := by simp [HartObs.next, hnew]
  have hnew' : (Core.ifIdIn P.cfg o.hart.core (o.hart.coreIn P x)).instrNewId = false := hnew
  have hdbg : (o.next P x).core.ctrl.debugModeQ = o.core.ctrl.debugModeQ := by
    change (Ctrl.out o.core.ctrl (Core.ctrlIn P.cfg o.core (o.coreIn P x))).debugModeD = _
    simp [Ctrl.out_debugModeD, hfsm, Ctrl.dretFlush]
  exact {
    fsm := hflush
    debugModeQ := hdbg
    illegalInsnQ := illegalInsnD_eq hfsm hv
    storeErrQ := rfl
    loadErrQ := rfl
    exc := hexc
    valid := hv'
    ifId := by rw [(hi'.ifId hv').1, (hi.ifId hv).1, hword]
    instrRdataCId := by rw [(hi'.ifId hv').2, (hi.ifId hv).2, hword]
    fetchErr := by simp [HartObs.next, core, Hart.next, Core.next, hnew']
    fetchErrPlus2 := by simp [HartObs.next, core, Hart.next, Core.next, hnew']
    pcId := by simp [HartObs.next, core, Hart.next, Core.next, hnew']
    csr := csr_of_raised hi hok hfsm hr }

/-! ### The cycle that takes it -/

/-- What the controller sees of the instruction is as before. -/
theorem Flushing.ctrlDec (hf : Flushing P o x) (x' : HartIn) :
    let d := o.ctrlDec P x
    let d' := (o.next P x).ctrlDec P x'
    d'.instrValid = true ∧ d'.instrFetchErr = d.instrFetchErr ∧
      d'.instrFetchErrPlus2 = d.instrFetchErrPlus2 ∧ d'.pcId = o.core.pcId ∧
      d'.ecallInsn = d.ecallInsn ∧ d'.ebrkInsn = d.ebrkInsn ∧ d'.privMode = o.csr.privLvl ∧
      Ctrl.ebreakIntoDebug d' = Ctrl.ebreakIntoDebug d := by
  have hmain : (Core.main P.cfg (o.next P x).core).ecallInsn
        = (Core.main P.cfg o.core).ecallInsn ∧
      (Core.main P.cfg (o.next P x).core).ebrkInsn = (Core.main P.cfg o.core).ebrkInsn := by
    rw [Core.main, Core.main, hf.ifId]
    exact mainDecode_system ..
  obtain ⟨hecall, hebrk⟩ := hmain
  have hcsr : (o.next P x).hart.csr = o.hart.csr := hf.csr
  refine ⟨hf.valid, hf.fetchErr, hf.fetchErrPlus2, hf.pcId, hecall, hebrk,
    congrArg CsRegs.privLvl hcsr, ?_⟩
  simp only [HartObs.ctrlDec, Core.ctrlDec, coreIn, Hart.coreIn, Hart.coreLines,
    Ctrl.ebreakIntoDebug, hcsr]
  rfl

/-- The original word of the instruction in ID, from the registers. -/
theorem originalInstr_eq (hi : Inv P o) (hv : o.core.ifId.instrValidId = true) :
    (if o.core.ifId.instrIsCompressedId then 0#16 ++ o.core.instrRdataCId
      else o.core.ifId.instrRdataId) = o.originalInstr := by
  obtain ⟨hreg, hc⟩ := hi.ifId hv
  rw [hreg, hc, originalInstr]
  cases hw : isCompressed o.word with
  | true => simp [IfIdReg.ofWord, hw]
  | false => simp [IfIdReg.ofWord, hw, compressedDecoder_instr hw]

/-- The controller gives the cause and the `mtval` of the exception raised. -/
theorem excCauseMtval_of_exception (x' : HartIn) {c : ExcCause} {v : BitVec 32} (hi : Inv P o)
    (hok : BusOk P o x) (hf : Flushing P o x) (hv : o.core.ifId.instrValidId = true)
    (hd : o.core.ctrl.debugModeQ = false)
    (hb : c = .breakpoint → Ctrl.ebreakIntoDebug (o.ctrlDec P x) = false)
    (he : o.exception P x = some (c, v)) :
    (o.next P x).core.ctrl.excCauseMtval ((o.next P x).ctrlDec P x') = (c, v) ∧
      (o.next P x).core.ctrl.ebreakDebug ((o.next P x).ctrlDec P x') = false := by
  obtain ⟨hvalid, hfetch, hplus, hpc, hecall, hebrk, hpriv, hdebug⟩ := hf.ctrlDec x'
  have horig : (if ((o.next P x).ctrlDec P x').instrIsCompressed then
      0#16 ++ ((o.next P x).ctrlDec P x').instrCompressed
      else ((o.next P x).ctrlDec P x').instr) = o.originalInstr := by
    rw [← originalInstr_eq hi hv, ← hf.ifId, ← hf.instrRdataCId]
    rfl
  have haddr : Ctrl.excReqLsu (o.ctrlDec P x) = true →
      ((o.next P x).ctrlDec P x').lsuAddrLast = o.failingAddr P x :=
    addrLastQ_of_excReqLsu hi hok
  have hdbg := hf.debugModeQ.trans hd
  simp only [Ctrl.excCauseMtval, Ctrl.ebreakDebug, Ctrl.instrFetchErr, Ctrl.ecallInsn,
    Ctrl.ebrkInsn, hvalid, Bool.and_true, hfetch, hplus, hpc, hecall, hebrk, hpriv, hdebug,
    hf.illegalInsnQ, hf.storeErrQ, horig, hdbg, Bool.false_or]
  simp only [exception, causes, List.find?_cons] at he
  cases h1 : (o.ctrlDec P x).instrFetchErr with
  | true => simpa [h1] using he
  | false =>
    cases h2 : o.illegal P x with
    | true => simpa [h1, h2] using he
    | false =>
      cases h3 : (o.ctrlDec P x).ecallInsn with
      | true => simpa [h1, h2, h3] using he
      | false =>
        cases h4 : (o.ctrlDec P x).ebrkInsn with
        | true =>
            have he' : .breakpoint = c ∧ 0#32 = v := by simpa [h1, h2, h3, h4] using he
            obtain ⟨rfl, rfl⟩ := he'
            simp [hb rfl]
        | false =>
          cases h5 : (o.ctrlDec P x).storeErr with
          | true =>
              rw [haddr (by simp [Ctrl.excReqLsu, h5])]
              simpa [h1, h2, h3, h4, h5] using he
          | false =>
            cases h6 : (o.ctrlDec P x).loadErr with
            | true =>
                rw [haddr (by simp [Ctrl.excReqLsu, h6])]
                simpa [h1, h2, h3, h4, h5, h6] using he
            | false => simp [h1, h2, h3, h4, h5, h6] at he

/-- A word with a low bit of zero is that of its half-word address. -/
theorem extractLsb'_append_zero {w : BitVec 32} (h0 : w.getLsbD 0 = false) :
    w.extractLsb' 1 31 ++ 0#1 = w := by
  refine BitVec.eq_of_getLsbD_eq fun i hi => ?_
  rw [BitVec.getLsbD_append, BitVec.getLsbD_extractLsb']
  rcases Nat.eq_zero_or_pos i with rfl | hpos
  · simpa using h0
  · simp [show ¬ i < 1 by omega, show i - 1 < 31 by omega, show 1 + (i - 1) = i by omega]

/-- An address with a low bit of zero goes through the fetch unit. -/
theorem pcIf_of_redirect {w : BitVec 32} (hp : (o.hart.ctrlOut P x).pcSet = true)
    (hw : o.hart.fetchAddrN P x = w) (h0 : w.getLsbD 0 = false) : (o.next P x).hart.pcIf = w := by
  have haddr : (o.next P x).hart.fetchAddrQ = w.extractLsb' 1 31 := by
    change o.hart.fetchAddrD P x = _
    rw [Hart.fetchAddrD, if_pos hp, hw]
  rw [Hart.pcIf, haddr, extractLsb'_append_zero h0]

/-- The strobes of a trap entry. -/
theorem of_trapEntry (h : o.trapEntry P x = true) :
    (o.hart.ctrlOut P x).csrSaveCause = true ∧ (o.hart.ctrlOut P x).debugCsrSave = false ∧
      o.core.ctrl.debugModeQ = false := by
  have h' : ((o.hart.ctrlOut P x).csrSaveCause && !(o.hart.ctrlOut P x).debugCsrSave
      && !o.core.ctrl.debugModeQ) = true := h
  simpa [and_assoc] using h'

/-- The address that a trap saves. -/
theorem exceptionPc_csrIn (hc : (o.hart.ctrlOut P x).csrSaveCause = true) :
    CsRegs.exceptionPc (o.hart.csrIn P x)
      = if (o.hart.ctrlOut P x).csrSaveIf then o.hart.pcIf else o.core.pcId := by
  have hc' : (o.hart.csrIn P x).csrSaveCause = true := hc
  have hif : (o.hart.csrIn P x).csrSaveIf = (o.hart.ctrlOut P x).csrSaveIf := rfl
  have hwb : (o.hart.csrIn P x).csrSaveWb = false := rfl
  have hpcIf : (o.hart.csrIn P x).pcIf = o.hart.pcIf := rfl
  have hpcId : (o.hart.csrIn P x).pcId = o.core.pcId := rfl
  simp [CsRegs.exceptionPc, hc', hif, hwb, hpcIf, hpcId]

/-- A trap goes to the CSRs with what the controller drives. -/
theorem trapsTo_of_trapEntry (h : o.trapEntry P x = true) :
    CsRegs.TrapsTo o.csr (o.next P x).csr (o.hart.ctrlOut P x).excCause
      (o.hart.ctrlOut P x).csrMtval
      (if (o.hart.ctrlOut P x).csrSaveIf then o.hart.pcIf else o.core.pcId) := by
  obtain ⟨hc, hs, hd⟩ := of_trapEntry h
  rw [← exceptionPc_csrIn hc]
  exact CsRegs.trapsTo_next (x := o.hart.csrIn P x) hc hs hd

/-- The exception raised is taken in the next cycle. -/
theorem exception_taken (x' : HartIn) {c : ExcCause} {v : BitVec 32} (hi : Inv P o)
    (hok : BusOk P o x) (hfsm : o.core.ctrl.ctrlFsm = .decode)
    (hv : o.core.ifId.instrValidId = true) (hd : o.core.ctrl.debugModeQ = false)
    (hb : c = .breakpoint → Ctrl.ebreakIntoDebug (o.ctrlDec P x) = false)
    (he : o.exception P x = some (c, v)) :
    o.trapEntry P x = false ∧ (o.next P x).deliver P x' = false ∧
      (o.next P x).excEntry P x' = true ∧
      CsRegs.TrapsTo o.csr ((o.next P x).next P x').csr c v o.core.pcId ∧
      ((o.next P x).next P x').hart.pcIf = o.csr.mtvec.extractLsb' 8 24 ++ 0#8 := by
  have hf := flushing_of_raised hi hok hfsm hv (raised_of_exception hfsm hv he)
  obtain ⟨hcause, hebrk⟩ := excCauseMtval_of_exception x' hi hok hf hv hd hb he
  have hdbg := hf.debugModeQ.trans hd
  obtain ⟨hsave, hnodebug, hif, -, hc, hm, hset, hmux, hexc, hhalt⟩ :=
    Ctrl.out_exc (y := Core.ctrlIn P.cfg (o.next P x).core ((o.next P x).coreIn P x'))
      hf.fsm hf.exc hebrk
  have hout : (o.next P x).hart.ctrlOut P x' = Ctrl.out (o.next P x).core.ctrl
      (Core.ctrlIn P.cfg (o.next P x).core ((o.next P x).coreIn P x')) := rfl
  rw [← hout] at hsave hnodebug hif hc hm hset hmux hexc hhalt
  rw [hdbg, if_neg Bool.false_ne_true] at hexc
  have hentry : (o.next P x).trapEntry P x' = true := by
    change ((((o.next P x).hart.ctrlOut P x').csrSaveCause
      && !((o.next P x).hart.ctrlOut P x').debugCsrSave
      && !(o.next P x).core.ctrl.debugModeQ) : Bool) = true
    rw [hsave, hnodebug, hdbg]
    rfl
  have htrap := trapsTo_of_trapEntry hentry
  rw [hc.trans (congrArg Prod.fst hcause), hm.trans (congrArg Prod.snd hcause), hif, hf.csr,
    hf.pcId] at htrap
  refine ⟨?_, ?_, ?_, htrap, ?_⟩
  · have hnone : (o.hart.ctrlOut P x).csrSaveCause = false := by
      have := Ctrl.out_csrSaveCause o.core.ctrl (Core.ctrlIn P.cfg o.core (o.coreIn P x))
      rw [hfsm] at this
      exact this
    change (((o.hart.ctrlOut P x).csrSaveCause && !_ && !_) : Bool) = false
    rw [hnone]
    rfl
  · have hhalt' : (Core.ctrlOut P.cfg (o.next P x).core ((o.next P x).coreIn P x')).haltIf
        = true := hhalt
    simp [deliver, Core.deliver, IfIdIn.instrNewId, IfIdIn.idInReady, Core.ifIdIn, hhalt']
  · rw [excEntry, hentry, hf.fsm]
    rfl
  · refine pcIf_of_redirect hset ?_ (by rw [BitVec.getLsbD_append]; rfl)
    have hcsr : (o.next P x).hart.csr = o.csr := hf.csr
    change TrapUnit.fetchAddrN P.trap (o.next P x).hart.trapUnit _ = _
    rw [TrapUnit.fetchAddrN, Hart.trapUnit_ctrlOut, hmux]
    change TrapUnit.excPc P.trap (o.next P x).hart.trapUnit _ = _
    rw [TrapUnit.excPc, Hart.trapUnit_ctrlOut, hexc]
    change (o.next P x).hart.csr.mtvec.extractLsb' 8 24 ++ 0#8 = _
    rw [hcsr]

/-! ### Once -/

/-- The instruction that an exception is entered for is gone. -/
theorem gone_of_excEntry (hd : o.deliver P x = false) (h : o.excEntry P x = true) :
    (o.next P x).core.ifId.instrValidId = false := by
  simp only [excEntry, Bool.and_eq_true, beq_iff_eq] at h
  obtain ⟨hentry, hfsm⟩ := h
  have hsave : (Ctrl.out o.core.ctrl (Core.ctrlIn P.cfg o.core (o.coreIn P x))).csrSaveCause
      = true := (of_trapEntry hentry).1
  rw [Ctrl.out_csrSaveCause, hfsm] at hsave
  simp only [Bool.and_eq_true, Bool.not_eq_true'] at hsave
  have hflush : Core.flushId P.cfg o.core (o.coreIn P x) = true := by
    have hb : o.core.ctrl.ebreakDebug (Core.ctrlDec P.cfg o.core (o.coreIn P x)) = false := hsave.2
    simp [Core.flushId, Ctrl.flushId, hfsm, hb]
  have hd' : Core.deliver P.cfg o.core (o.coreIn P x) = false := hd
  have hnext := Core.instrValidId_next hd'
  rw [hflush] at hnext
  exact hnext.trans (by simp)

/-- Without a new instruction ID stays empty. -/
theorem gone_next (hd : o.deliver P x = false) (h : o.core.ifId.instrValidId = false) :
    (o.next P x).core.ifId.instrValidId = false := by
  by_contra hne
  rw [Bool.not_eq_false] at hne
  have := (kept_next hd hne).1
  rw [h] at this
  cases this

/-- No exception is entered without an instruction. -/
theorem excEntry_of_gone (hi : Inv P o) (h : o.core.ifId.instrValidId = false) :
    o.excEntry P x = false := by
  by_contra hne
  simp only [Bool.not_eq_false, excEntry, Bool.and_eq_true, beq_iff_eq] at hne
  have := hi.flush hne.2
  rw [h] at this
  cases this

/-- An instruction has at most one exception. -/
theorem excEntry_once (a : BitVec 31) {ins : List HartIn}
    (hok : Machine.Along (next P) (BusOk P) (reset n a) (ins ++ [x])) :
    Machine.firedSince (next P) (deliver P) (excEntry P) (reset n a) ins
      + (excEntry P (Machine.run (next P) (reset n a) ins) x).toNat ≤ 1 :=
  Machine.fired_once (Inv P) (fun o => o.core.ifId.instrValidId = false)
    (fun _ _ hi hx => inv_next hi hx) (fun _ _ _ _ hd h => gone_of_excEntry hd h)
    (fun _ _ _ _ hd h => gone_next hd h) (fun _ _ hi _ h => excEntry_of_gone hi h)
    (inv_reset P a) hok

/-! ### Interrupts -/

/-- The interrupt that the controller takes is the first of the table. -/
theorem interrupt_eq (h : o.core.ctrl.handleIrq (o.ctrlDec P x) = true) :
    o.interrupt x = some
      (if x.irqNm then .irqNm
      else if (o.csr.irqs (o.hart.csrLines x)).irqFast ≠ 0#15 then
        .irqFast (Ctrl.mfipId (o.csr.irqs (o.hart.csrLines x)).irqFast)
      else if (o.csr.irqs (o.hart.csrLines x)).irqExternal then .irqExternalM
      else if (o.csr.irqs (o.hart.csrLines x)).irqSoftware then .irqSoftwareM
      else .irqTimerM) := by
  set i := o.csr.irqs (o.hart.csrLines x) with hirqs
  simp only [interrupt, interrupts, ← hirqs, List.cons_append, List.find?_cons]
  cases hnm : x.irqNm with
  | true => rfl
  | false =>
      have hpend : (i.irqSoftware || i.irqTimer || i.irqExternal || i.irqFast != 0#15) = true := by
        have hnm' : (o.ctrlDec P x).irqNm = false := hnm
        simp only [Ctrl.handleIrq, hnm', Bool.false_or, Bool.and_eq_true] at h
        exact h.2.1
      have hfast := Ctrl.find_irqFast i.irqFast
      rw [List.find?_append, List.find?_map]
      by_cases hz : i.irqFast = 0#15
      · rw [if_pos hz, Option.map_eq_none_iff] at hfast
        simp only [Function.comp_def, hz]
        cases hext : i.irqExternal <;> cases hsoft : i.irqSoftware <;> simp_all
      · rw [if_neg hz, Option.map_eq_some_iff] at hfast
        obtain ⟨k, hk, hmf⟩ := hfast
        simp only [Function.comp_def, hk, ← hmf]
        simp [hz]

/-- An interrupt is taken at the next instruction that has not executed. -/
theorem interrupt_taken (hi : Inv P o) (h : o.irqEntry P x = true) :
    ∃ c, o.interrupt x = some c ∧
      CsRegs.TrapsTo o.csr (o.next P x).csr c 0#32 (o.npc ++ 0#1) ∧
      (o.next P x).hart.pcIf
        = o.csr.mtvec.extractLsb' 8 24 ++ 0#1 ++ c.bits.extractLsb' 0 5 ++ 0#2 := by
  simp only [irqEntry, Bool.and_eq_true, beq_iff_eq] at h
  obtain ⟨hentry, hfsm⟩ := h
  have hirq : o.core.ctrl.handleIrq (o.ctrlDec P x) = true := by
    have hsave := Ctrl.out_csrSaveCause o.core.ctrl (Core.ctrlIn P.cfg o.core (o.coreIn P x))
    rw [hfsm] at hsave
    exact hsave.symm.trans (of_trapEntry hentry).1
  obtain ⟨-, -, hif, hmtval, hset, hmux, hexc, hcause⟩ :=
    Ctrl.out_irq (y := Core.ctrlIn P.cfg o.core (o.coreIn P x)) hfsm hirq
  have hout : o.hart.ctrlOut P x = Ctrl.out o.core.ctrl
      (Core.ctrlIn P.cfg o.core (o.coreIn P x)) := rfl
  rw [← hout] at hif hmtval hset hmux hexc hcause
  have hpc : o.hart.pcIf = o.npc ++ 0#1 := by
    rw [Hart.pcIf, hi.npc]
    by_contra hne
    rw [not_or, Bool.not_eq_false, Bool.not_eq_true] at hne
    have := (hi.running hne.1 hne.2).1
    rw [hfsm] at this
    cases this
  have htrap := trapsTo_of_trapEntry hentry
  rw [hif, if_pos rfl, hmtval, hpc] at htrap
  refine ⟨(o.hart.ctrlOut P x).excCause, ?_, htrap, ?_⟩
  · rw [interrupt_eq hirq, hcause]
    rfl
  · refine pcIf_of_redirect hset ?_ (by rw [BitVec.getLsbD_append]; rfl)
    change TrapUnit.fetchAddrN P.trap o.hart.trapUnit _ = _
    rw [TrapUnit.fetchAddrN, Hart.trapUnit_ctrlOut, hmux]
    change TrapUnit.excPc P.trap o.hart.trapUnit _ = _
    rw [TrapUnit.excPc, Hart.trapUnit_ctrlOut, hexc]
    rfl

/-! ### Runs -/

/-- **Precise traps.** In every run on a bus that keeps to its protocol: an instruction in ID
that has not ended is run in `DECODE`; the first exception of `causes` that it raises there is
entered in the next cycle, with its cause and `mtval` and the PC of the instruction, and
fetching goes on at the base of `mtvec`; no instruction enters more than one; and an interrupt
that is taken is the first of `interrupts`, at the next instruction that has not executed. -/
theorem trap_precise (P : HartParams) (a : BitVec 31) (ins : List HartIn) (x x' : HartIn)
    (hok : Machine.Along (next P) (BusOk P) (reset n a) (ins ++ [x, x'])) :
    let o := Machine.run (next P) (reset n a) ins
    let o' := o.next P x
    let o'' := o'.next P x'
    let entered := Machine.firedSince (next P) (deliver P) (excEntry P) (reset n a)
    (o.core.ifId.instrValidId = true → o.ended = false → o.core.ctrl.ctrlFsm = .decode) ∧
    (∀ c v, o.core.ifId.instrValidId = true → o.core.ctrl.ctrlFsm = .decode →
      o.core.ctrl.debugModeQ = false →
      (c = .breakpoint → Ctrl.ebreakIntoDebug (o.ctrlDec P x) = false) →
      o.exception P x = some (c, v) →
        o.trapEntry P x = false ∧ o'.excEntry P x' = true ∧
        CsRegs.TrapsTo o.csr o''.csr c v o.core.pcId ∧
        o''.hart.pcIf = o.csr.mtvec.extractLsb' 8 24 ++ 0#8 ∧
        entered (ins ++ [x, x']) = 1) ∧
    entered (ins ++ [x]) ≤ 1 ∧
    (o.irqEntry P x = true → ∃ c, o.interrupt x = some c ∧
      CsRegs.TrapsTo o.csr o'.csr c 0#32 (o.npc ++ 0#1) ∧
      o'.hart.pcIf
        = o.csr.mtvec.extractLsb' 8 24 ++ 0#1 ++ c.bits.extractLsb' 0 5 ++ 0#2) := by
  intro o o' o'' entered
  have hall : ins ++ [x, x'] = (ins ++ [x]) ++ [x'] := by simp
  rw [hall] at hok
  obtain ⟨hpre, -⟩ := Machine.along_concat.mp hok
  obtain ⟨hins, hx⟩ := Machine.along_concat.mp hpre
  have hi : Inv P o := inv_run a hins
  have hrun : Machine.run (next P) (reset n a) (ins ++ [x]) = o' := Machine.run_concat ..
  have honce : entered (ins ++ [x]) + (o'.excEntry P x').toNat ≤ 1 := by
    rw [← hrun]
    exact excEntry_once a hok
  refine ⟨fun hv he => (hi.running hv he).1, ?_, by omega, interrupt_taken hi⟩
  intro c v hv hfsm hd hb he
  obtain ⟨hno, hnew, hentry, htrap, hpc⟩ := exception_taken x' hi hx hfsm hv hd hb he
  refine ⟨hno, hentry, htrap, hpc, ?_⟩
  rw [hentry] at honce
  have hcount : entered (ins ++ [x]) = 0 := by simpa using honce
  change Machine.firedSince _ _ _ _ _ = 1
  rw [hall, Machine.firedSince_concat, hrun, hnew, hentry]
  simpa using hcount

/-- A store to `0x404` whose response is awaited. -/
def storeTrace : List HartIn :=
  [.idle, .idle, .idle,
    -- sw x2, 4(x1)
    .fetch 0x0020A223#32,
    { HartIn.idle with adderResultEx := 0x404#32, dataGnt := true }]

/-- The bus answers with an error. -/
def storeError : HartIn := { HartIn.idle with dataRvalid := true, dataErr := true }

/-- The store at `0x80` traps with its data address. -/
theorem trap_precise_store :
    let o := Machine.run (next Hart.smallParams) (reset 4 0#31) storeTrace
    CsRegs.TrapsTo o.csr
      ((o.next Hart.smallParams storeError).next Hart.smallParams .idle).csr
      .storeAccessFault 0x404#32 0x80#32 := by
  intro o
  have hstate : o.core.ifId.instrValidId = true ∧ o.core.ctrl.ctrlFsm = .decode ∧
      o.core.ctrl.debugModeQ = false ∧ o.core.pcId = 0x80#32 ∧
      o.exception Hart.smallParams storeError = some (.storeAccessFault, 0x404#32) := by
    decide +kernel +revert
  obtain ⟨hv, hfsm, hd, hpc, he⟩ := hstate
  have h := (trap_precise Hart.smallParams 0#31 storeTrace storeError .idle
    (by decide +kernel)).2.1 .storeAccessFault 0x404#32 hv hfsm hd (fun h => nomatch h) he
  rw [← hpc]
  exact h.2.2.1

end HartObs

end CocoIbex
