import CocoIbex.PreciseTrap

/-!
# The Acceptance of Interrupts

All interrupts are for M-mode. By the privileged specification they are globally enabled in
U-mode, and in M-mode when `mstatus.MIE` is set. The controller asks for `mstatus.MIE` in both
modes: a program that an MRET has entered with `MPIE` clear is not interrupted.

A cycle in which an interrupt can be taken is an instruction boundary in `DECODE`: nothing
special is asked for, nothing is stalled, and the core is neither in debug mode nor in the
handler of an NMI (`Boundary`). `FollowsSpec` compares there what the controller does with the
rule of the specification: an NMI is taken always, and a pending and enabled interrupt where the
interrupts are globally enabled.

The privilege level is one of the two that are implemented, which is an invariant of the
registers (`PrivOk`) and not an assumption.

## Main results

* `interrupt_accept_iff` — in every run a cycle follows the specification unless it is one in
  U-mode with `mstatus.MIE` clear and an enabled interrupt pending (`MaskedByMie`).
-/

namespace CocoIbex

/-! ### The privilege levels -/

/-- The privilege levels that are implemented. -/
def PrivLvl.Implemented (p : PrivLvl) : Prop := p = .m ∨ p = .u

/-- A level that is left after legalisation is one that the hart has. -/
theorem PrivLvl.legal_implemented (p : PrivLvl) : p.legal.Implemented := by
  cases p <;> simp [legal, Implemented]

namespace CsRegs

variable {n : ℕ} {P : CsrParams} {s : CsRegs n} {x : CsRegsIn}

/-- Every privilege level that is stored is implemented. -/
structure PrivOk (s : CsRegs n) : Prop where
  privLvl : s.privLvl.Implemented
  mpp : s.mstatus.mpp.Implemented
  prv : s.dcsr.prv.Implemented
  stack : s.mstack.mpp.Implemented

/-- The hart starts in machine mode. -/
theorem privOk_reset : PrivOk (reset n) :=
  ⟨Or.inl rfl, Or.inr rfl, Or.inl rfl, Or.inr rfl⟩

/-- A CSR instruction stores an implemented level. -/
theorem privOk_written (h : PrivOk s) : PrivOk (s.written P x) where
  privLvl := h.privLvl
  mpp := by
    simp only [written]
    split_ifs
    · exact PrivLvl.legal_implemented _
    · exact h.mpp
  prv := by
    simp only [written]
    split_ifs
    · exact PrivLvl.legal_implemented _
    · exact h.prv
  stack := h.stack

/-- So do a trap and a return. -/
theorem privOk_next (h : PrivOk s) : PrivOk (s.next P x) := by
  have hw : PrivOk (s.written P x) := privOk_written h
  have hm : PrivLvl.Implemented .m := Or.inl rfl
  have hu : PrivLvl.Implemented .u := Or.inr rfl
  simp only [next, trapped]
  split_ifs
  · exact ⟨hm, hw.mpp, h.privLvl, hw.stack⟩
  · exact ⟨hm, h.privLvl, hw.prv, h.mpp⟩
  · exact ⟨hm, hw.mpp, hw.prv, hw.stack⟩
  · exact ⟨h.prv, hw.mpp, hw.prv, hw.stack⟩
  · exact ⟨h.mpp, h.stack, hw.prv, hw.stack⟩
  · exact ⟨h.mpp, hu, hw.prv, hw.stack⟩
  · exact hw

end CsRegs

namespace TrapUnit

variable {n : ℕ} (P : TrapParams) (s : TrapUnit n) (x : TrapIn)

/-! ### What is to be accepted -/

/-- An instruction boundary outside of debug and NMI mode: `DECODE` neither stalls nor has a
special request, and does not enter debug mode. -/
def Boundary : Prop :=
  s.ctrl.ctrlFsm = .decode ∧ s.ctrl.debugModeQ = false ∧ s.ctrl.nmiModeQ = false ∧
    x.ctrl.stall = false ∧ s.ctrl.specialReqAll (s.ctrlIn P x) = false ∧
    s.ctrl.enterDebugMode (s.ctrlIn P x).toCtrlDec = false

/-- The interrupts are globally enabled: by `mstatus.MIE` in M-mode, and always in U-mode. -/
def GloballyEnabled (c : CsRegs n) : Prop :=
  (c.privLvl = .m ∧ c.mstatus.mie = true) ∨ c.privLvl = .u

/-- At an instruction boundary an interrupt is accepted if and only if there is an NMI, or
some interrupt is pending and enabled, and the interrupts are globally enabled. -/
def FollowsSpec : Prop :=
  s.Boundary P x →
    ((s.next P x).ctrl.ctrlFsm = .irqTaken ↔
      x.ctrl.irqNm = true ∨ (s.csr.irqPending x.csr = true ∧ GloballyEnabled s.csr))

/-- An instruction boundary in U-mode at which the clear `mstatus.MIE` masks an interrupt
that is pending and enabled. -/
def MaskedByMie : Prop :=
  s.Boundary P x ∧ s.csr.privLvl = .u ∧ s.csr.mstatus.mie = false ∧
    s.csr.irqPending x.csr = true ∧ x.ctrl.irqNm = false

/-- A boundary is seen in its cycle. -/
instance : Decidable (Boundary P s x) := inferInstanceAs (Decidable (_ ∧ _))

/-- The enable is a bit or a comparison of levels. -/
instance (c : CsRegs n) : Decidable (GloballyEnabled c) := inferInstanceAs (Decidable (_ ∨ _))

/-- So is what the specification asks for. -/
instance : Decidable (FollowsSpec P s x) := inferInstanceAs (Decidable (_ → _))

/-- So is what the code masks in addition. -/
instance : Decidable (MaskedByMie P s x) := inferInstanceAs (Decidable (_ ∧ _))

variable {P s x}

/-- What the controller accepts. -/
theorem irqTaken_iff (hb : s.Boundary P x) :
    (s.next P x).ctrl.ctrlFsm = .irqTaken ↔
      x.ctrl.irqNm = true ∨ (s.csr.irqPending x.csr = true ∧ s.csr.mstatus.mie = true) := by
  obtain ⟨hfsm, hd, hn, hs, hsp, hdb⟩ := hb
  have hs' : (s.ctrlIn P x).stall = false := hs
  have hirq : s.ctrl.handleIrq (s.ctrlIn P x).toCtrlDec
      = (x.ctrl.irqNm || (s.csr.irqPending x.csr && s.csr.mstatus.mie)) := by
    rw [Ctrl.handleIrq, hd, hn]
    rfl
  have hns : (s.next P x).ctrl.ctrlFsm
      = if s.ctrl.handleIrq (s.ctrlIn P x).toCtrlDec then .irqTaken else .decode := by
    change (Ctrl.out s.ctrl (s.ctrlIn P x)).ctrlFsmNs = _
    simp [Ctrl.out, hfsm, Ctrl.decodeOut, hs', hsp, hdb]
  rw [hns, hirq]
  cases x.ctrl.irqNm <;> cases s.csr.irqPending x.csr <;> cases s.csr.mstatus.mie <;> simp

/-- A cycle follows the specification if and only if `mstatus.MIE` masks nothing in it. -/
theorem followsSpec_iff (h : s.csr.PrivOk) : FollowsSpec P s x ↔ ¬ MaskedByMie P s x := by
  rw [FollowsSpec, MaskedByMie, not_and]
  refine imp_congr_right fun hb => ?_
  rw [irqTaken_iff hb, GloballyEnabled]
  obtain hm | hu := h.privLvl
  · simp [hm]
  · cases x.ctrl.irqNm <;> cases s.csr.irqPending x.csr <;> cases hmie : s.csr.mstatus.mie <;>
      simp [hu]

/-- **The acceptance of interrupts.** In every run of the controller and the CSRs, whatever
the instructions and the requests are, a cycle follows the specification if and only if
`mstatus.MIE` masks no interrupt of U-mode in it; so all cycles of a run do if and only if
none of them masks one. -/
theorem interrupt_accept_iff (P : TrapParams) (ins : List TrapIn) :
    (∀ x, FollowsSpec P (Machine.run (next P) (reset n) ins) x ↔
      ¬ MaskedByMie P (Machine.run (next P) (reset n) ins) x) ∧
    (Machine.Along (next P) (FollowsSpec P) (reset n) ins ↔
      Machine.Along (next P) (fun s x => ¬ MaskedByMie P s x) (reset n) ins) := by
  have hstep : ∀ (s : TrapUnit n) (x : TrapIn), s.csr.PrivOk → (s.next P x).csr.PrivOk :=
    fun _ _ => CsRegs.privOk_next
  refine ⟨fun x => followsSpec_iff ?_, ?_⟩
  · exact Machine.run_invariant (fun s : TrapUnit n => s.csr.PrivOk) hstep ins CsRegs.privOk_reset
  · exact Machine.along_congr (fun s => s.csr.PrivOk) hstep (fun _ _ => followsSpec_iff)
      CsRegs.privOk_reset ins

end TrapUnit

namespace Hart

/-- A program enables the external interrupt, clears `mstatus`, and enters U-mode with an
MRET. -/
def umodeTrace : List HartIn :=
  [.idle, .idle, .idle,
    -- csrrw x0, mie, x1
    .fetch 0x30409073#32,
    { HartIn.idle with aluOperandAEx := 0x800#32 },
    .idle,
    -- csrrw x0, mstatus, x0
    .fetch 0x30001073#32,
    .idle, .idle,
    -- mret
    .fetch 0x30200073#32,
    .idle, .idle,
    -- addi x0, x0, 0
    .fetch 0x13#32]

/-- The external interrupt is enabled and pending, and the program goes on in U-mode, on a
bus that is never used. -/
theorem umode_interrupt_ignored :
    let h := Machine.run (next smallParams) (reset 4 0#31) umodeTrace
    let x := { HartIn.idle with irqExternal := true }
    h.csr.privLvl = .u ∧ h.core.ifId.instrValidId = true ∧
      h.csr.irqPending (h.csrLines x) = true ∧
      TrapUnit.Boundary smallParams.trap h.trapUnit (h.trapIn smallParams x) ∧
      (h.next smallParams x).core.ctrl.ctrlFsm = .decode ∧
      ¬ TrapUnit.FollowsSpec smallParams.trap h.trapUnit (h.trapIn smallParams x) ∧
      Machine.Along (next smallParams)
        (fun h x => Core.BusOk smallParams.cfg h.core (h.coreIn smallParams x))
        (reset 4 0#31) (umodeTrace ++ [x]) := by
  decide +kernel

end Hart

end CocoIbex
