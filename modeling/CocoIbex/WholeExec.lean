import CocoIbex.Assertions
import CocoIbex.Execution
import CocoIbex.MaskedEx

/-!
# The Datapath of the Whole Hart

With an instruction that executes in ID, the whole hart sequences and computes as the datapath
does on which the instructions have been verified, if it takes the same from EX: without the
masks of the registers and of EX, or with masks that are complete for the instruction.

The datapath is a part of the registers of the hart (`datapath`), and its inputs are signals of
the hart (`datapathIn`). `Runs` is a cycle in which an instruction executes, and `Served` that
EX gives it what it would give without masks. Then each output of the datapath is the signal of
the hart with that name, and the registers step the same, so that a run of the datapath over the
cycles of an instruction is found in the run of the hart.

## Main results

* `main_eq` and `idOut_eq` — the decode, and the answer of the ID-EX machine;
* `stallId_eq` and `instrIdDone_eq` — the instruction stalls until it is done;
* `rfWrite_eq` and `pcSet_eq` — the register write of ID, and where the fetch goes on;
* `datapath_next` — the registers step the same.
-/

namespace CocoIbex

namespace IdStage

/-! ### The decision of a branch -/

variable {cfg : Config} {fsm : IdFsm} {y : IdIn} {d : Bool}
  (h : (main cfg fsm y).branchInDec = true → d = y.branchDecision)

include h

/-- Only a branch looks at the decision of EX. -/
theorem fsmOut_decision : fsmOut cfg fsm { y with branchDecision := d } = fsmOut cfg fsm y := by
  cases hb : (main cfg fsm y).branchInDec with
  | true =>
      rw [h hb]
  | false =>
      have hmain : main cfg fsm { y with branchDecision := d } = main cfg fsm y := rfl
      simp only [fsmOut, hmain, hb, Bool.false_eq_true, if_false]
      rfl

/-- The stall of ID does not look at the comparison once it is registered. -/
theorem stallId_decision : stallId cfg fsm { y with branchDecision := d } = stallId cfg fsm y := by
  simp only [stallId, fsmOut_decision h]
  rfl

/-- Neither does the end of the instruction. -/
theorem instrDone_decision :
    instrDone cfg fsm { y with branchDecision := d } = instrDone cfg fsm y := by
  simp only [instrDone, stallId_decision h]
  rfl

/-- Neither does the register write. -/
theorem rfWeId_decision : rfWeId cfg fsm { y with branchDecision := d } = rfWeId cfg fsm y := by
  simp only [rfWeId, fsmOut_decision h]
  rfl

end IdStage

namespace WholeHart

variable {n : ℕ} {m : Multiplier} (P : WholeParams) (h : WholeHart n m) (x : WholeIn)

/-- The instruction in ID. -/
def idInsn : IdInstr :=
  ⟨h.core.ifId.instrRdataId, h.core.ifId.instrIsCompressedId, h.core.pcId, h.arch.rf.read⟩

/-- The registers that sequence it, and those of EX. -/
def datapath : Datapath m := ⟨h.core.idFsm, h.core.branchSetQ, h.branchTakenQ, h.ex⟩

/-- What it sees from the LSU and the CSRs. -/
def datapathIn : DatapathIn where
  lsuValid := Core.lsuValid P.cfg h.core (h.coreIn P x)
  lsuBusy := h.core.lsu.busy
  lsuAddrIncrReq := h.core.lsu.addrIncr
  lsuAddrLast := h.core.lsu.addrLastQ
  dataIndTiming := h.csr.dataIndTiming P.toCsrParams
  illegalCsr := (h.coreIn P x).illegalCsr
  csrRdata := h.arch.csrRdata P.toArchParams (h.archIn P x)
  multdivReadyId := true

/-- What the instruction does in the cycle. -/
def datapathOut : DatapathOut := Datapath.out P.cfg h.idInsn h.datapath (h.datapathIn P x)

/-- What the hart takes from EX is what the datapath takes. -/
def Served : Prop :=
  ExBlock.Agree P.cfg m h.ex (Core.main P.cfg h.core) (h.exIn P)
    (Datapath.exIn P.cfg h.idInsn h.datapath (h.datapathIn P x))

variable {P h x}

/-! ### The wires -/

/-- An instruction that executes, from a word that the decoder for compressed instructions
accepts. -/
structure Runs (h : WholeHart n m) : Prop where
  executing : Core.Executing h.core
  legalC : h.core.ifId.illegalCInsnId = false

/-- What runs executes. -/
theorem Runs.instrExecuting (hr : Runs h) : IdStage.instrExecuting (h.decIn P) = true :=
  (@Core.instrExecuting_iff P.cfg _ (h.coreIn P .idle)).mpr hr.executing

/-- The hart decodes what the datapath decodes, whatever comes back from EX. -/
theorem Runs.main (hr : Runs h) (v d : Bool) : IdStage.main P.cfg h.core.idFsm (h.decIn P)
    = IdStage.main P.cfg h.core.idFsm
      (Datapath.idIn P.cfg h.idInsn h.datapath (h.datapathIn P x) v d) := by
  simp only [IdStage.main, IdStage.instrFirstCycle, decIn, Datapath.idIn, hr.executing.1, hr.legalC]
  rfl

/-- The ALU of the hart gets what that of the datapath gets. -/
theorem Runs.alu (hr : Runs h) : h.alu P
    = Datapath.alu P.cfg h.idInsn h.datapath (h.datapathIn P x) := by
  simp only [WholeHart.alu, Datapath.alu, IdStage.alu, IdStage.instrFirstCycle, decIn,
    Datapath.idIn, hr.executing.1]
  rfl

/-- The operand muxes see the same but for the registers. -/
theorem operands_eq : h.operands P
    = { Datapath.operands P.cfg h.idInsn h.datapath (h.datapathIn P x) with
        rfRdataA := h.rfRdataA P, rfRdataB := h.rfRdataB P } := rfl

/-- EX sees the same but for the registers and the masks. -/
theorem exIn_eq (hr : Runs h) :
    let a := Datapath.alu P.cfg h.idInsn h.datapath (h.datapathIn P x)
    let o : OperandIn :=
      { Datapath.operands P.cfg h.idInsn h.datapath (h.datapathIn P x) with
        rfRdataA := h.rfRdataA P, rfRdataB := h.rfRdataB P }
    h.exIn P = { Datapath.exIn P.cfg h.idInsn h.datapath (h.datapathIn P x) with
      aluOperandA := o.aluOperandA a
      aluOperandB := o.aluOperandB P.cfg a
      btAOperand := o.btAOperand P.cfg a
      btBOperand := o.btBOperand P.cfg a
      multdivOperandA := h.rfRdataA P
      multdivOperandB := h.rfRdataB P
      mdEnable := !P.mdSecure || h.core.ifId.mdEnable
      shiftEnable := !P.shiftSecure || h.core.ifId.shiftEnable
      adderEnable := !P.adderSecure || h.core.ifId.adderEnable } := by
  have hex := hr.instrExecuting (P := P)
  have hmain := hr.main (P := P) (x := x) false false
  have halu := hr.alu (P := P) (x := x)
  have hops := @operands_eq _ _ P h x
  have halu' : IdStage.alu P.cfg h.core.idFsm (h.decIn P) = _ := halu
  simp only [exIn, Datapath.exIn, CocoIbex.exIn, hex, hmain, halu, halu', hops,
    IdStage.instrFirstCycle]
  simp only [decIn, Datapath.idIn, hr.executing.1]
  rfl

/-- The ID-EX machine sees the same but for the decision of EX. -/
theorem idIn_eq (hr : Runs h) (hs : Served P h x) : Core.idIn P.cfg h.core (h.coreIn P x)
    = { Datapath.idSees P.cfg h.idInsn h.datapath (h.datapathIn P x) with
        branchDecision := (h.exOut P).branchDecision } := by
  have hv : (h.coreIn P x).exValid
      = (Datapath.exOut P.cfg h.idInsn h.datapath (h.datapathIn P x)).exValid := hs.exValid
  have hb : (h.coreIn P x).branchDecision = (h.exOut P).branchDecision := rfl
  have hrun : h.core.ctrl.controllerRun = true := by
    simp [Ctrl.controllerRun, hr.executing.2.2]
  have hflush : Core.flushId P.cfg h.core (h.coreIn P x) = false :=
    Core.flushId_of_executing hr.executing
  have hmain : Core.main P.cfg h.core
      = mainDecode P.cfg (h.core.idFsm == .firstCycle) false h.core.ifId.instrRdataId := by
    rw [Core.main, hr.executing.1, hr.legalC, Bool.true_and]
  simp only [Core.idIn, Datapath.idSees, Datapath.idIn, hv, hb,
    hr.executing.1, hr.executing.2.1, hr.legalC, hrun, hflush, Core.illegalCsrInsn, hmain]
  rfl

/-- The decode of the datapath. -/
theorem main_eq (hr : Runs h) (hs : Served P h x) : Core.main P.cfg h.core
    = IdStage.main P.cfg h.datapath.idFsm
      (Datapath.idSees P.cfg h.idInsn h.datapath (h.datapathIn P x)) := by
  have hmain : Core.main P.cfg h.core
      = IdStage.main P.cfg h.core.idFsm (Core.idIn P.cfg h.core (h.coreIn P x)) := rfl
  rw [hmain, idIn_eq hr hs]
  rfl

/-- For a branch the decision is the same. -/
theorem decision_eq (hr : Runs h) (hs : Served P h x)
    (hb : (IdStage.main P.cfg h.datapath.idFsm
      (Datapath.idSees P.cfg h.idInsn h.datapath (h.datapathIn P x))).branchInDec = true) :
    (h.exOut P).branchDecision
      = (Datapath.idSees P.cfg h.idInsn h.datapath (h.datapathIn P x)).branchDecision := by
  rw [← main_eq hr hs] at hb
  exact hs.branchDecision hb

/-- The ID-EX machine answers the same. -/
theorem idOut_eq (hr : Runs h) (hs : Served P h x) : Core.idOut P.cfg h.core (h.coreIn P x)
    = Datapath.fsmOut P.cfg h.idInsn h.datapath (h.datapathIn P x) := by
  rw [Core.idOut, idIn_eq hr hs]
  exact IdStage.fsmOut_decision (decision_eq hr hs)

/-- The registers step the same. -/
theorem datapath_next (hr : Runs h) (hs : Served P h x) :
    (h.next P x).datapath
      = { Datapath.next P.cfg h.idInsn h.datapath (h.datapathIn P x) with
          branchTakenQ := (h.exOut P).branchDecision } := by
  have hid := idOut_eq hr hs
  change (⟨(Core.idOut P.cfg h.core (h.coreIn P x)).idFsmD,
    (Core.idOut P.cfg h.core (h.coreIn P x)).branchSetD, (h.exOut P).branchDecision,
    ExBlock.next P.cfg m h.ex (h.exIn P)⟩ : Datapath m) = _
  rw [hid, hs.next]
  rfl

/-! ### The outputs -/

/-- The hart is done with the instruction when the datapath is. -/
theorem instrIdDone_eq (hr : Runs h) (hs : Served P h x) :
    Core.instrIdDone P.cfg h.core (h.coreIn P x) = (h.datapathOut P x).done := by
  rw [Core.instrIdDone, idIn_eq hr hs]
  exact IdStage.instrDone_decision (decision_eq hr hs)

/-- The instruction stalls until it is done. -/
theorem stallId_eq (hr : Runs h) (hs : Served P h x) :
    h.stallId P x = !(h.datapathOut P x).done := by
  have hd := instrIdDone_eq hr hs
  have hx : IdStage.instrExecuting (Core.idIn P.cfg h.core (h.coreIn P x)) = true :=
    Core.instrExecuting_iff.mpr hr.executing
  have hf : (Core.idIn P.cfg h.core (h.coreIn P x)).flushId = false :=
    Core.flushId_of_executing hr.executing
  rw [Core.instrIdDone, IdStage.instrDone, hx, hf, Bool.not_false, Bool.and_true, Bool.and_true]
    at hd
  rw [← hd, Bool.not_not]
  rfl

/-- The register write of ID. -/
theorem rfWrite_eq (hr : Runs h) (hs : Served P h x) : (h.datapathOut P x).rfWrite
    = if h.rfWeId P x then
        some (rfWaddr h.core.ifId.instrRdataId, h.arch.rfWdataId P.toArchParams (h.archIn P x))
      else none := by
  have hwe : h.rfWeId P x = IdStage.rfWeId P.cfg h.datapath.idFsm
      (Datapath.idSees P.cfg h.idInsn h.datapath (h.datapathIn P x)) := by
    have hwe : h.rfWeId P x
        = IdStage.rfWeId P.cfg h.core.idFsm (Core.idIn P.cfg h.core (h.coreIn P x)) := rfl
    rw [hwe, idIn_eq hr hs]
    exact IdStage.rfWeId_decision (decision_eq hr hs)
  have hmain := main_eq hr hs
  have hcore : Core.main P.cfg h.arch.core = Core.main P.cfg h.core := rfl
  rw [datapathOut, Datapath.out, ArchHart.rfWdataId, hcore]
  cases hw : h.rfWeId P x with
  | false =>
      rw [hw] at hwe
      exact if_neg (by rw [← hwe]; exact Bool.false_ne_true)
  | true =>
      rw [hw] at hwe
      have hrf := IdStage.rfWe_of_rfWeId _ _ _ hwe.symm
      rw [← hmain] at hrf
      have hres : (h.archIn P x).resultEx
          = (Datapath.exOut P.cfg h.idInsn h.datapath (h.datapathIn P x)).resultEx :=
        hs.resultEx hrf
      rw [hres, hmain]
      exact if_pos hwe.symm

/-- Where the fetch goes on. -/
theorem pcSet_eq (hr : Runs h) (hs : Served P h x)
    (hb : HartObs.BranchHeld P.toHartParams h.arch.obs) : (h.datapathOut P x).pcSet
    = if (h.arch.obs.hart.ctrlOut P.toHartParams (h.wired P x)).pcSet then
        some (fetchAddr (h.arch.obs.hart.fetchAddrN P.toHartParams (h.wired P x)))
      else none := by
  have hid := idOut_eq hr hs
  have hset : (h.arch.obs.hart.ctrlOut P.toHartParams (h.wired P x)).pcSet
      = (Datapath.branchSet P.cfg h.idInsn h.datapath (h.datapathIn P x)
        || (Datapath.fsmOut P.cfg h.idInsn h.datapath (h.datapathIn P x)).jumpSet) := by
    have hset : (Core.ctrlOut P.cfg h.core (h.coreIn P x)).pcSet = _ :=
      Core.pcSet_of_executing hr.executing
    rw [Core.branchSet, hid] at hset
    exact hset
  have hmux : (h.arch.obs.hart.trapUnit.ctrlOut P.trap
      (h.arch.obs.hart.trapIn P.toHartParams (h.wired P x))).pcMux = .jump := by
    have hfsm : h.arch.obs.hart.trapUnit.ctrl.ctrlFsm = .decode := hr.executing.2.2
    simp only [TrapUnit.ctrlOut, Ctrl.out, hfsm]
    rfl
  cases hp : (h.arch.obs.hart.ctrlOut P.toHartParams (h.wired P x)).pcSet with
  | false =>
      rw [hp] at hset
      rw [datapathOut, Datapath.out]
      exact if_neg (by rw [← hset]; exact Bool.false_ne_true)
  | true =>
      have hdec := (HartObs.redirecting_of_pcSet hb hr.executing.2.2 hp).2
      have haddr : h.arch.obs.hart.fetchAddrN P.toHartParams (h.wired P x)
          = (Datapath.exOut P.cfg h.idInsn h.datapath (h.datapathIn P x)).branchTarget := by
        rw [Hart.fetchAddrN, TrapUnit.fetchAddrN, hmux]
        exact hs.branchTarget hdec.symm
      rw [hp] at hset
      rw [haddr, datapathOut, Datapath.out]
      exact if_pos hset.symm

end WholeHart

end CocoIbex
