import CocoIbex.TrapUnit

/-!
# Debug Mode

From its entry to the next DRET, debug mode hides every trap from the trap registers. The
controller still walks through `FLUSH` and `DBG_TAKEN_ID`, and still strobes the CSRs, but
`DBG_TAKEN_IF` cannot be reached (`dbgTakenIf_debugMode`) and the CSRs ignore the other strobes.
`debug_mode_opaque` is the statement for every run.

What the strobes would write is `TrapRegs`, all registers that a trap entry or a debug entry
writes. Within debug mode they change by a CSR instruction or an MRET alone. An exception goes
on at one of two fixed addresses: an EBREAK at `DmHaltAddr`, through `DBG_TAKEN_ID`, and any
other exception at `DmExceptionAddr`. Which of the two is read off the word in ID: an EBREAK
counts only if no fetch error, illegal instruction or ECALL is there before it (`ebreakTaken`,
`exceptionTaken`).

## Main results

* `csrWe_of_csrWeInt` — without a write enable no CSR instruction writes a register;
* `debug_mode_opaque` — debug mode is opaque to traps, in every cycle from an entry to the next
  DRET, with the addresses at which the two kinds of exceptions go on.
-/

namespace CocoIbex

/-- The registers that a trap or an entry to debug mode writes. -/
structure TrapRegs where
  mepc : BitVec 32
  mcause : BitVec 6
  mtval : BitVec 32
  mie : Bool
  mpie : Bool
  mpp : PrivLvl
  mstack : StatusStk
  mstackEpc : BitVec 32
  mstackCause : BitVec 6
  depc : BitVec 32
  dcsr : Dcsr
  deriving DecidableEq, Repr

namespace CsRegs

variable {n : ℕ} {P : CsrParams} {s : CsRegs n} {x : CsRegsIn}

/-- The trap registers of the block. -/
def trapRegs (s : CsRegs n) : TrapRegs where
  mepc := s.mepc
  mcause := s.mcause
  mtval := s.mtval
  mie := s.mstatus.mie
  mpie := s.mstatus.mpie
  mpp := s.mstatus.mpp
  mstack := s.mstack
  mstackEpc := s.mstackEpc
  mstackCause := s.mstackCause
  depc := s.depc
  dcsr := s.dcsr

/-- Without a write enable no CSR instruction writes a register. -/
theorem csrWe_of_csrWeInt (h : s.csrWeInt P x = false) (a : BitVec 12) :
    s.csrWe P x a = false := by
  rw [csrWe, h, Bool.false_and]

/-- Without a write enable the trap registers are as before. -/
theorem written_trapRegs (h : s.csrWeInt P x = false) :
    (s.written P x).trapRegs = s.trapRegs := by
  simp [written, trapRegs, csrWe_of_csrWeInt h]

/-- In debug mode the trap registers are those that the CSR instruction leaves, unless an
MRET is executed: the strobes of an exception change the privilege only. -/
theorem next_trapRegs (hd : x.debugMode = true) (hs : x.debugCsrSave = false)
    (hm : x.csrRestoreMret = false) :
    (s.next P x).trapRegs = (s.written P x).trapRegs := by
  simp only [next, trapped, hd, hs, hm]
  split_ifs <;> first | rfl | contradiction

end CsRegs

namespace TrapUnit

variable {n : ℕ} {P : TrapParams} {s : TrapUnit n} {x : TrapIn}

/-! ### The unreachable entry -/

/-- The state that saves the debug registers for the fetched instruction is not reached in
debug mode. -/
def EntryOk (s : TrapUnit n) : Prop := s.ctrl.debugModeQ = true → s.ctrl.ctrlFsm ≠ .dbgTakenIf

/-- The states that enter debug mode are reached with the reason that they need. -/
theorem entryOk_next (P : TrapParams) (s : TrapUnit n) (x : TrapIn) : EntryOk (s.next P x) := by
  intro hd hfsm
  obtain ⟨henter, hif, hid⟩ := Ctrl.enterDebugMode_of_ctrlFsmNs (s := s.ctrl) hfsm
  have hq : s.ctrl.debugModeQ = false := by
    simp only [Ctrl.enterDebugMode, Bool.and_eq_true, Bool.not_eq_true'] at henter
    exact henter.2
  have hd' : (s.ctrl.out (s.ctrlIn P x)).debugModeD = true := hd
  rw [Ctrl.out_debugModeD] at hd'
  cases hs : s.ctrl.ctrlFsm <;> simp_all

/-- In every reachable state. -/
theorem dbgTakenIf_debugMode (P : TrapParams) (ins : List TrapIn) :
    EntryOk (Machine.run (next P) (reset n) ins) :=
  Machine.run_invariant EntryOk (fun s x _ => entryOk_next P s x) ins (fun h => nomatch h)

/-! ### One cycle in debug mode -/

/-- The exception that is taken in `FLUSH` is the EBREAK of the instruction in ID: nothing of a
higher priority is raised (a fetch error, an illegal instruction, an ECALL). -/
def ebreakTaken (P : TrapParams) (s : TrapUnit n) (x : TrapIn) : Bool :=
  let d := (s.ctrlIn P x).toCtrlDec
  s.ctrl.flushExc && Ctrl.ebrkInsn d && !Ctrl.instrFetchErr d && !s.ctrl.illegalInsnQ
    && !Ctrl.ecallInsn d

/-- Any other exception is taken in `FLUSH`. -/
def exceptionTaken (P : TrapParams) (s : TrapUnit n) (x : TrapIn) : Bool :=
  s.ctrl.flushExc && !s.ebreakTaken P x

/-- In debug mode every EBREAK goes to the debug module, whatever `dcsr.ebreakm` and
`dcsr.ebreaku` say. -/
theorem ebreakDebug_of_debugMode (hd : s.ctrl.debugModeQ = true) (hexc : s.ctrl.flushExc = true) :
    s.ctrl.ebreakDebug (s.ctrlIn P x).toCtrlDec = s.ebreakTaken P x := by
  simp only [Ctrl.ebreakDebug, ebreakTaken, hd, hexc, Bool.true_or, Bool.and_true, Bool.true_and]
  cases Ctrl.ebrkInsn (s.ctrlIn P x).toCtrlDec <;>
    cases Ctrl.ecallInsn (s.ctrlIn P x).toCtrlDec <;> simp

/-- No interrupt is taken in debug mode. -/
theorem handleIrq_of_debugMode (hd : s.ctrl.debugModeQ = true) :
    s.ctrl.handleIrq (s.ctrlIn P x).toCtrlDec = false := by
  simp [Ctrl.handleIrq, hd]

/-- The debug registers are not saved in debug mode. -/
theorem debugCsrSave_of_debugMode (hd : s.ctrl.debugModeQ = true) (he : EntryOk s) :
    (s.ctrlOut P x).debugCsrSave = false := by
  have hif := he hd
  rw [ctrlOut, Ctrl.out_debugCsrSave]
  cases hs : s.ctrl.ctrlFsm with
  | dbgTakenIf => exact absurd hs hif
  | dbgTakenId => simp [Ctrl.ebreakForced, hd]
  | _ => rfl

/-- Debug mode goes on unless a DRET is executed. -/
theorem debugModeQ_next (hd : s.ctrl.debugModeQ = true) (hr : s.dretExec P x = false) :
    (s.next P x).ctrl.debugModeQ = true := by
  have hr' : s.ctrl.dretFlush (s.ctrlIn P x) = false := by
    rw [← Ctrl.out_csrRestoreDretId]
    exact hr
  change (s.ctrl.out (s.ctrlIn P x)).debugModeD = true
  rw [Ctrl.out_debugModeD]
  cases hs : s.ctrl.ctrlFsm <;> simp [hd, hr']

/-- An exception redirects to the exception address of the debug module. -/
theorem exceptionTaken_next (hd : s.ctrl.debugModeQ = true)
    (h : s.exceptionTaken P x = true) :
    (s.ctrlOut P x).pcSet = true ∧ s.fetchAddrN P x = P.dmExceptionAddr ∧
      (s.next P x).ctrl.ctrlFsm = .decode := by
  rw [exceptionTaken, Bool.and_eq_true, Bool.not_eq_true'] at h
  have hdbg : s.ctrl.ebreakDebug (s.ctrlIn P x).toCtrlDec = false :=
    (ebreakDebug_of_debugMode hd h.1).trans h.2
  obtain ⟨hfsm, hexc⟩ : s.ctrl.ctrlFsm = .flush ∧
      (s.ctrl.excReqQ || s.ctrl.storeErrQ || s.ctrl.loadErrQ) = true := by
    simpa [Ctrl.flushExc] using h.1
  have hdec : s.ctrl.enterDebugMode (s.ctrlIn P x).toCtrlDec = false := by
    simp [Ctrl.enterDebugMode, hd]
  have hout : s.ctrlOut P x = Ctrl.flushBase s.ctrl (s.ctrlIn P x) := by
    simp [ctrlOut, Ctrl.out, hfsm, Ctrl.flushOut, hdec]
  refine ⟨?_, ?_, ?_⟩
  · rw [hout, Ctrl.flushBase, if_pos hexc, hdbg]
    rfl
  · simp only [fetchAddrN, excPc, hout, Ctrl.flushBase, if_pos hexc, hd, if_true]
  · change (s.ctrlOut P x).ctrlFsmNs = .decode
    simp [hout, Ctrl.flushBase, hexc, hdbg]

/-- An EBREAK goes to the state that redirects to the halt address, and nothing is redirected
or saved ahead of it. -/
theorem ebreakTaken_next (hd : s.ctrl.debugModeQ = true) (h : s.ebreakTaken P x = true) :
    (s.ctrlOut P x).pcSet = false ∧ (s.ctrlOut P x).csrSaveCause = false ∧
      (s.next P x).ctrl.ctrlFsm = .dbgTakenId := by
  have hflush : s.ctrl.flushExc = true := by
    simp only [ebreakTaken, Bool.and_eq_true] at h
    exact h.1.1.1.1
  have hdbg : s.ctrl.ebreakDebug (s.ctrlIn P x).toCtrlDec = true :=
    (ebreakDebug_of_debugMode hd hflush).trans h
  obtain ⟨hfsm, hexc⟩ : s.ctrl.ctrlFsm = .flush ∧
      (s.ctrl.excReqQ || s.ctrl.storeErrQ || s.ctrl.loadErrQ) = true := by
    simpa [Ctrl.flushExc] using hflush
  have hdec : s.ctrl.enterDebugMode (s.ctrlIn P x).toCtrlDec = false := by
    simp [Ctrl.enterDebugMode, hd]
  have hout : s.ctrlOut P x = Ctrl.flushBase s.ctrl (s.ctrlIn P x) := by
    simp [ctrlOut, Ctrl.out, hfsm, Ctrl.flushOut, hdec]
  refine ⟨?_, ?_, ?_⟩
  · rw [hout, Ctrl.flushBase, if_pos hexc, hdbg]
    rfl
  · rw [hout, Ctrl.flushBase, if_pos hexc, hdbg]
    rfl
  · change (s.ctrlOut P x).ctrlFsmNs = .dbgTakenId
    simp [hout, Ctrl.flushBase, hexc, hdbg]

/-- That state redirects to the halt address. -/
theorem dbgTakenId_next (h : s.ctrl.ctrlFsm = .dbgTakenId) :
    (s.ctrlOut P x).pcSet = true ∧ s.fetchAddrN P x = P.dmHaltAddr ∧
      (s.next P x).ctrl.debugModeQ = true := by
  have hout : s.ctrlOut P x = Ctrl.dbgTakenIdOut s.ctrl (s.ctrlIn P x).toCtrlDec := by
    simp [ctrlOut, Ctrl.out, h]
  refine ⟨by rw [hout]; rfl, by simp only [fetchAddrN, excPc, hout, Ctrl.dbgTakenIdOut], ?_⟩
  change (s.ctrlOut P x).debugModeD = true
  rw [hout]
  rfl

/-- In debug mode the trap registers are those that the CSR instruction leaves, unless an
MRET is executed. -/
theorem trapRegs_next (hd : s.ctrl.debugModeQ = true) (he : EntryOk s)
    (hm : s.mretExec P x = false) :
    (s.next P x).csr.trapRegs = (s.csr.written P.toCsrParams (s.csrIn P x)).trapRegs :=
  CsRegs.next_trapRegs hd (debugCsrSave_of_debugMode hd he) hm

/-! ### Runs -/

/-- What the run of a debug session keeps. -/
theorem debugMode_run {s : TrapUnit n} (hd : s.ctrl.debugModeQ = true) {ins : List TrapIn}
    (hdret : Machine.Along (next P) (fun s x => s.dretExec P x = false) s ins) :
    (Machine.run (next P) s ins).ctrl.debugModeQ = true :=
  Machine.run_induction (fun s => s.ctrl.debugModeQ = true)
    (fun _ _ hd hr => debugModeQ_next hd hr) hd hdret

/-- **Debug mode is opaque to traps.** In every cycle from an entry to debug mode to the next
DRET:

* debug mode is set, only a CSR instruction or an MRET changes the trap registers, and no
  interrupt is taken;
* what is raised in `DECODE` is taken in `FLUSH` in the next cycle;
* an EBREAK that is taken there (with no fetch error, illegal instruction or ECALL, whatever
  `dcsr` says about ebreaks) redirects nothing yet, and in the cycle after it the fetch goes to
  the halt address of the debug module;
* every other exception redirects to its exception address;
* debug mode is still set after each of them. -/
theorem debug_mode_opaque (P : TrapParams) (pre ins : List TrapIn) (x : TrapIn)
    (hd : (Machine.run (next P) (reset n) pre).ctrl.debugModeQ = true)
    (hdret : Machine.Along (next P) (fun s x => s.dretExec P x = false)
      (Machine.run (next P) (reset n) pre) ins) :
    let s := Machine.run (next P) (reset n) (pre ++ ins)
    s.ctrl.debugModeQ = true ∧
    (s.mretExec P x = false →
      (s.next P x).csr.trapRegs = (s.csr.written P.toCsrParams (s.csrIn P x)).trapRegs) ∧
    (s.mretExec P x = false → s.csrWrite P x = false →
      (s.next P x).csr.trapRegs = s.csr.trapRegs) ∧
    (s.ctrl.ctrlFsm = .irqTaken → (s.ctrlOut P x).csrSaveCause = false ∧
      (s.ctrlOut P x).pcSet = false) ∧
    (s.ctrl.ctrlFsm = .decode → x.ctrl.instrValid = true →
      s.ctrl.raised (s.ctrlIn P x).toCtrlDec = true → (s.next P x).ctrl.flushExc = true) ∧
    (s.ctrl.flushExc = true → x.ctrl.ebrkInsn = true → x.ctrl.instrValid = true →
      x.ctrl.instrFetchErr = false → s.ctrl.illegalInsnQ = false → x.ctrl.ecallInsn = false →
        (s.ctrlOut P x).pcSet = false ∧ (s.next P x).ctrl.ctrlFsm = .dbgTakenId ∧
        (s.next P x).ctrl.debugModeQ = true ∧
        ∀ y, ((s.next P x).ctrlOut P y).pcSet = true ∧
          (s.next P x).fetchAddrN P y = P.dmHaltAddr ∧
          ((s.next P x).next P y).ctrl.debugModeQ = true) ∧
    (s.ctrl.flushExc = true → s.ebreakTaken P x = false →
      (s.ctrlOut P x).pcSet = true ∧ s.fetchAddrN P x = P.dmExceptionAddr ∧
        (s.next P x).ctrl.debugModeQ = true) ∧
    (s.ctrl.ctrlFsm = .dbgTakenId → (s.ctrlOut P x).pcSet = true ∧
      s.fetchAddrN P x = P.dmHaltAddr ∧ (s.next P x).ctrl.debugModeQ = true) := by
  intro s
  have hs : s = Machine.run (next P) (Machine.run (next P) (reset n) pre) ins :=
    Machine.run_append _ _ _ _
  have hdbg : s.ctrl.debugModeQ = true := by
    rw [hs]
    exact debugMode_run hd hdret
  have hentry : EntryOk s := dbgTakenIf_debugMode P _
  have hexc : s.ctrl.flushExc = true → s.dretExec P x = false := by
    intro h
    change (s.ctrl.out (s.ctrlIn P x)).csrRestoreDretId = false
    simp [Ctrl.out_csrRestoreDretId, Ctrl.dretFlush, h]
  refine ⟨hdbg, fun hm => trapRegs_next hdbg hentry hm, ?_, ?_,
    fun hfsm hv hr => Ctrl.flushExc_of_raised hfsm hv hr, ?_, ?_, fun h => dbgTakenId_next h⟩
  · intro hm hw
    rw [trapRegs_next hdbg hentry hm, CsRegs.written_trapRegs hw]
  · intro hfsm
    have hi := handleIrq_of_debugMode (P := P) (x := x) hdbg
    simp [ctrlOut, Ctrl.out, hfsm, Ctrl.irqTakenOut, hi, Ctrl.defaults]
  · intro hf heb hv hfe hill hec
    have htaken : s.ebreakTaken P x = true := by
      simp [ebreakTaken, ctrlIn, Ctrl.ebrkInsn, Ctrl.instrFetchErr, Ctrl.ecallInsn, hf, heb, hv,
        hfe, hill, hec]
    obtain ⟨hset, -, hns⟩ := ebreakTaken_next hdbg htaken
    exact ⟨hset, hns, debugModeQ_next hdbg (hexc hf), fun y => dbgTakenId_next hns⟩
  · intro hf hno
    have htaken : s.exceptionTaken P x = true := by
      rw [exceptionTaken, hf, hno]
      rfl
    obtain ⟨hset, haddr, -⟩ := exceptionTaken_next hdbg htaken
    exact ⟨hset, haddr, debugModeQ_next hdbg (hexc hf)⟩

/-- A halt request in the first fetch; then in debug mode an ECALL, which goes to the exception
address, and an EBREAK, which goes to the halt address although `dcsr.ebreakm` is clear. Both
leave the registers as they are. -/
theorem debug_mode_opaque_traps :
    let P : TrapParams :=
      ⟨⟨true, false, false, 10, true, 0, false, true⟩, false, 0x800#32, 0x808#32⟩
    let halt : TrapIn := { TrapIn.idle with ctrl := { CtrlIn.idle with debugReq := true } }
    let ecall : TrapIn :=
      { TrapIn.idle with ctrl := { CtrlIn.idle with instrValid := true, ecallInsn := true } }
    let ebreak : TrapIn :=
      { TrapIn.idle with ctrl := { CtrlIn.idle with instrValid := true, ebrkInsn := true } }
    let pre := [TrapIn.idle, .idle, halt, halt]
    let s := Machine.run (next P) (reset 4) (pre ++ [ecall])
    let t := Machine.run (next P) (reset 4) (pre ++ [ebreak])
    (s.ctrl.flushExc = true ∧ s.fetchAddrN P ecall = 0x808#32 ∧
      (s.next P ecall).csr.trapRegs = s.csr.trapRegs) ∧
    t.csr.dcsr.ebreakm = false ∧ t.ctrl.flushExc = true ∧
      (t.next P ebreak).fetchAddrN P .idle = 0x800#32 ∧
      ((t.next P ebreak).next P .idle).ctrl.debugModeQ = true ∧
      (t.next P ebreak).csr.trapRegs = t.csr.trapRegs := by
  intro P halt ecall ebreak pre s t
  obtain ⟨-, -, hframe, -, -, -, hexc, -⟩ :=
    debug_mode_opaque (n := 4) P pre [ecall] ecall (by decide +kernel) (by decide +kernel)
  obtain ⟨-, -, hframe', -, -, hebreak, -, -⟩ :=
    debug_mode_opaque (n := 4) P pre [ebreak] ebreak (by decide +kernel) (by decide +kernel)
  have hs : s.ctrl.flushExc = true := by decide +kernel
  have ht : t.ctrl.flushExc = true := by decide +kernel
  obtain ⟨-, -, -, hhalt⟩ := hebreak ht rfl rfl rfl (by decide +kernel) rfl
  refine ⟨⟨hs, (hexc hs (by decide +kernel)).2.1, hframe (by decide +kernel) (by decide +kernel)⟩,
    by decide +kernel, ht, (hhalt .idle).2.1, (hhalt .idle).2.2,
    hframe' (by decide +kernel) (by decide +kernel)⟩

end TrapUnit

end CocoIbex
