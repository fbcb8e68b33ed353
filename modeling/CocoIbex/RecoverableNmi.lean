import CocoIbex.TrapUnit

/-!
# The Recoverable Non-Maskable Interrupt

A non-maskable interrupt can strike in the middle of another trap handler, so it saves the
registers of that trap in `mstack`, and the MRET of its handler puts them back. Between the two
the controller is in NMI mode. `Saved` is what holds there: the interrupted state is split
between the trap registers and `mstack`, and neither an ignored interrupt nor a debug session
touches them.

The handler is a run of any length, with any instructions but those that would overwrite the
saved state: it raises no exception, and writes none of the three CSRs (`InHandler`). Whatever
else comes from outside is allowed. An interrupt is not taken in NMI mode, and a debug session
keeps its own registers.

## Main results

* `nmi_recoverable` — when the handler returns, `mstatus`, `mepc`, `mcause` and the privilege
  level are those before the interrupt, NMI mode is left, and the fetch goes on where it was
  interrupted.
-/

namespace CocoIbex.TrapUnit

variable {n : ℕ} {P : TrapParams} {s s₀ : TrapUnit n} {x : TrapIn}

/-- A non-maskable interrupt is taken. -/
def nmiTaken (P : TrapParams) (s : TrapUnit n) (x : TrapIn) : Bool :=
  s.ctrl.ctrlFsm == .irqTaken && s.ctrl.handleIrq (s.ctrlIn P x).toCtrlDec && x.ctrl.irqNm

/-- A cycle of the handler: no exception, no MRET, and no write to `mstatus`, `mepc` or
`mcause`. -/
structure InHandler (P : TrapParams) (s : TrapUnit n) (x : TrapIn) : Prop where
  entry : s.trapEntry P x = false
  mret : s.mretExec P x = false
  mstatus : s.csrWe P x CsrNum.mstatus = false
  mepc : s.csrWe P x CsrNum.mepc = false
  mcause : s.csrWe P x CsrNum.mcause = false

/-- It is seen in the state and the input. -/
instance : Decidable (InHandler P s x) :=
  decidable_of_iff
    (s.trapEntry P x = false ∧ s.mretExec P x = false ∧ s.csrWe P x CsrNum.mstatus = false ∧
      s.csrWe P x CsrNum.mepc = false ∧ s.csrWe P x CsrNum.mcause = false)
    ⟨fun h => ⟨h.1, h.2.1, h.2.2.1, h.2.2.2.1, h.2.2.2.2⟩,
      fun h => ⟨h.entry, h.mret, h.mstatus, h.mepc, h.mcause⟩⟩

/-- The state `s₀`, interrupted at `pc`, can be restored from `s`. -/
structure Saved (s₀ : TrapUnit n) (pc : BitVec 32) (s : TrapUnit n) : Prop where
  nmiMode : s.ctrl.nmiModeQ = true
  mpie : s.csr.mstatus.mpie = s₀.csr.mstatus.mie
  mpp : s.csr.mstatus.mpp = s₀.csr.privLvl
  mepc : s.csr.mepc = pc
  mstack : s.csr.mstack = ⟨s₀.csr.mstatus.mpie, s₀.csr.mstatus.mpp⟩
  mstackEpc : s.csr.mstackEpc = s₀.csr.mepc
  mstackCause : s.csr.mstackCause = s₀.csr.mcause

/-! ### Entry, handler and return -/

/-- An interrupt saves the PC of the instruction in IF. -/
theorem ctrlOut_of_handleIrq (hfsm : s.ctrl.ctrlFsm = .irqTaken)
    (hi : s.ctrl.handleIrq (s.ctrlIn P x).toCtrlDec = true) :
    (s.ctrlOut P x).csrSaveCause = true ∧ (s.ctrlOut P x).csrSaveIf = true ∧
      (s.ctrlOut P x).debugCsrSave = false := by
  simp [ctrlOut, Ctrl.out, hfsm, Ctrl.irqTakenOut, hi, Ctrl.defaults]

/-- Taking the interrupt saves the interrupted state. -/
theorem saved_of_nmiTaken (h : s.nmiTaken P x = true) : Saved s x.csr.pcIf (s.next P x) := by
  simp only [nmiTaken, Bool.and_eq_true, beq_iff_eq] at h
  obtain ⟨⟨hfsm, hi⟩, hnm⟩ := h
  obtain ⟨hcause, hif, hsave⟩ := ctrlOut_of_handleIrq hfsm hi
  have hd : s.ctrl.debugModeQ = false := by
    simp only [Ctrl.handleIrq, Bool.and_eq_true, Bool.not_eq_true'] at hi
    exact hi.1.1
  have hmode : (s.next P x).ctrl.nmiModeQ = true := by
    change (s.ctrl.out (s.ctrlIn P x)).nmiModeD = true
    have hnm' : (s.ctrlIn P x).irqNm = true := hnm
    simp [Ctrl.out_nmiModeD, hfsm, hi, hnm']
  have hcsr : (s.next P x).csr = CsRegs.trapped s.csr (s.csrIn P x)
      (s.csr.written P.toCsrParams (s.csrIn P x)) := rfl
  have hpc : CsRegs.exceptionPc (s.csrIn P x) = x.csr.pcIf := by
    simp [CsRegs.exceptionPc, csrIn, hcause, hif]
  have htrap : (s.csrIn P x).csrSaveCause = true ∧ (s.csrIn P x).debugCsrSave = false ∧
      (s.csrIn P x).debugMode = false := ⟨hcause, hsave, hd⟩
  constructor <;> simp [hmode, hcsr, CsRegs.trapped, htrap, hpc]

/-- A cycle of the handler keeps it saved. -/
theorem saved_next {pc : BitVec 32} (h : Saved s₀ pc s) (hx : InHandler P s x) :
    Saved s₀ pc (s.next P x) := by
  have hmode : (s.next P x).ctrl.nmiModeQ = true := by
    have hm : s.ctrl.mretFlush (s.ctrlIn P x) = false := by
      rw [← Ctrl.out_csrRestoreMretId]
      exact hx.mret
    change (s.ctrl.out (s.ctrlIn P x)).nmiModeD = true
    rw [Ctrl.out_nmiModeD]
    cases hs : s.ctrl.ctrlFsm <;> simp [h.nmiMode, hm]
  have hentry := hx.entry
  have hmret : (s.csrIn P x).csrRestoreMret = false := hx.mret
  have hstatus : s.csr.csrWe P.toCsrParams (s.csrIn P x) CsrNum.mstatus = false := hx.mstatus
  have hepc : s.csr.csrWe P.toCsrParams (s.csrIn P x) CsrNum.mepc = false := hx.mepc
  have hcsr : (s.next P x).csr.mstatus = s.csr.mstatus ∧ (s.next P x).csr.mepc = s.csr.mepc ∧
      (s.next P x).csr.mstack = s.csr.mstack ∧ (s.next P x).csr.mstackEpc = s.csr.mstackEpc ∧
      (s.next P x).csr.mstackCause = s.csr.mstackCause := by
    have hdebug : (s.csrIn P x).csrSaveCause = true → (s.csrIn P x).debugCsrSave = false →
        (s.csrIn P x).debugMode = true := by
      intro hc hd
      have hc' : (s.ctrlOut P x).csrSaveCause = true := hc
      have hd' : (s.ctrlOut P x).debugCsrSave = false := hd
      have hq : s.ctrl.debugModeQ = true := by simpa [trapEntry, hc', hd'] using hentry
      exact hq
    simp only [next, CsRegs.next, CsRegs.trapped, hmret]
    split_ifs <;> simp_all [CsRegs.written]
  obtain ⟨h1, h2, h3, h4, h5⟩ := hcsr
  exact ⟨hmode, h1 ▸ h.mpie, h1 ▸ h.mpp, h2.trans h.mepc, h3.trans h.mstack,
    h4.trans h.mstackEpc, h5.trans h.mstackCause⟩

/-- An MRET redirects to `mepc`, and does nothing else than return. -/
theorem ctrlOut_of_mretExec (h : s.mretExec P x = true) :
    (s.ctrlOut P x).csrSaveCause = false ∧ (s.ctrlOut P x).csrRestoreDretId = false ∧
      (s.ctrlOut P x).pcSet = true ∧ (s.ctrlOut P x).pcMux = .eret ∧
      (s.ctrlOut P x).nmiModeD = false := by
  have hm : s.ctrl.mretFlush (s.ctrlIn P x) = true := by
    rw [← Ctrl.out_csrRestoreMretId]
    exact h
  have hm' := hm
  simp only [Ctrl.mretFlush, Bool.and_eq_true, beq_iff_eq, Bool.not_eq_true'] at hm'
  obtain ⟨⟨hfsm, hexc⟩, hinsn⟩ := hm'
  have hq : (s.ctrl.excReqQ || s.ctrl.storeErrQ || s.ctrl.loadErrQ) = false := by
    simpa [Ctrl.flushExc, hfsm] using hexc
  have hbase : Ctrl.flushBase s.ctrl (s.ctrlIn P x) =
      { Ctrl.defaults s.ctrl with
        haltIf := true
        flushId := true
        ctrlFsmNs := .decode
        pcMux := .eret
        pcSet := true
        csrRestoreMretId := true
        nmiModeD := false } := by
    simp [Ctrl.flushBase, hq, hinsn]
  simp [ctrlOut, Ctrl.out, hfsm, Ctrl.flushOut_eq, hbase, Ctrl.defaults]

/-- What an MRET in NMI mode leaves. -/
theorem csr_of_mretExec (h : s.mretExec P x = true) (hn : s.ctrl.nmiModeQ = true) :
    let c := (s.next P x).csr
    c.privLvl = s.csr.mstatus.mpp ∧ c.mstatus.mie = s.csr.mstatus.mpie ∧
      c.mstatus.mpie = s.csr.mstack.mpie ∧ c.mstatus.mpp = s.csr.mstack.mpp ∧
      c.mepc = s.csr.mstackEpc ∧ c.mcause = s.csr.mstackCause := by
  obtain ⟨hcause, hdret, -, -, -⟩ := ctrlOut_of_mretExec h
  have hin : (s.csrIn P x).csrSaveCause = false ∧ (s.csrIn P x).csrRestoreDret = false ∧
      (s.csrIn P x).csrRestoreMret = true ∧ (s.csrIn P x).nmiMode = true := ⟨hcause, hdret, h, hn⟩
  simp [next, CsRegs.next, CsRegs.trapped, hin]

/-! ### Runs -/

/-- **Recoverable NMI.** When the handler of a non-maskable interrupt returns, with no other
exception and no write to `mstatus`, `mepc` or `mcause` on the way, the interrupted state is
back, NMI mode is left, and the fetch goes on where it was interrupted. -/
theorem nmi_recoverable (P : TrapParams) (pre ins : List TrapIn) (nmi mret : TrapIn)
    (hnmi : (Machine.run (next P) (reset n) pre).nmiTaken P nmi = true)
    (hins : Machine.Along (next P) (InHandler P)
      ((Machine.run (next P) (reset n) pre).next P nmi) ins)
    (hmret : (Machine.run (next P) (reset n) (pre ++ nmi :: ins)).mretExec P mret = true) :
    let s := Machine.run (next P) (reset n) pre
    let t := Machine.run (next P) (reset n) (pre ++ nmi :: ins)
    let u := t.next P mret
    (u.csr.mstatus.mie = s.csr.mstatus.mie ∧ u.csr.mstatus.mpie = s.csr.mstatus.mpie ∧
      u.csr.mstatus.mpp = s.csr.mstatus.mpp ∧ u.csr.mepc = s.csr.mepc ∧
      u.csr.mcause = s.csr.mcause ∧ u.csr.privLvl = s.csr.privLvl) ∧
    u.ctrl.nmiModeQ = false ∧ (t.ctrlOut P mret).pcSet = true ∧
    t.fetchAddrN P mret = nmi.csr.pcIf := by
  intro s t u
  have ht : t = Machine.run (next P) (s.next P nmi) ins := Machine.run_append _ _ _ _
  have hsaved : Saved s nmi.csr.pcIf t := by
    rw [ht]
    exact Machine.run_induction (Saved s nmi.csr.pcIf) (fun _ _ h hx => saved_next h hx)
      (saved_of_nmiTaken hnmi) hins
  obtain ⟨hpriv, hmie, hmpie, hmpp, hepc, hmcause⟩ := csr_of_mretExec hmret hsaved.nmiMode
  obtain ⟨-, -, hset, hmux, hmode⟩ := ctrlOut_of_mretExec hmret
  refine ⟨⟨hmie.trans hsaved.mpie, ?_, ?_, hepc.trans hsaved.mstackEpc,
    hmcause.trans hsaved.mstackCause, hpriv.trans hsaved.mpp⟩, hmode, hset, ?_⟩
  · rw [hmpie, hsaved.mstack]
  · rw [hmpp, hsaved.mstack]
  · rw [fetchAddrN, hmux]
    exact hsaved.mepc

/-- A non-maskable interrupt in the handler of an ecall: its MRET gives back the cause of the
ecall and the PC in the handler. -/
theorem nmi_recoverable_ecall :
    let P : TrapParams :=
      ⟨⟨false, false, false, 10, true, 0, false, true⟩, false, 0x800#32, 0x808#32⟩
    let ecall : TrapIn :=
      { TrapIn.idle with ctrl := { CtrlIn.idle with instrValid := true, ecallInsn := true } }
    let nmi : TrapIn :=
      { TrapIn.idle with
        ctrl := { CtrlIn.idle with irqNm := true }
        csr := { CsRegsIn.idle with pcIf := 0x104#32 } }
    let mret : TrapIn :=
      { TrapIn.idle with ctrl := { CtrlIn.idle with instrValid := true, mretInsn := true } }
    let pre := [TrapIn.idle, .idle, .idle, ecall, ecall, nmi]
    let s := Machine.run (next P) (reset 4) pre
    let t := Machine.run (next P) (reset 4) (pre ++ nmi :: [mret])
    (t.next P mret).csr.mcause = s.csr.mcause ∧ t.fetchAddrN P mret = 0x104#32 := by
  intro P ecall nmi mret pre s t
  obtain ⟨⟨-, -, -, -, hcause, -⟩, -, -, haddr⟩ :=
    nmi_recoverable (n := 4) P pre [mret] nmi mret (by decide +kernel) (by decide +kernel)
      (by decide +kernel)
  exact ⟨hcause, haddr⟩

end CocoIbex.TrapUnit
