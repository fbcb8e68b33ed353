import CocoIbex.ExBlock
import CocoIbex.PerfCounters
import CocoIbex.Retirement

/-!
# The Performance Events

The event lines of the counters over the runs of the hart, beside the events that the
documentation names: retired instructions, data accesses, and executed jumps and branches. The
lines are strobes of the ID-EX machine, the controller and the LSU, so a jump or branch pulses
in its first cycle, and a taken branch in its second one, before it retires.

`PerfTally` counts one cycle, for the lines and for the events alike. An event belongs to an
instruction, and the documented one is counted in the cycle in which the instruction retires;
the accesses are counted by their transactions. Both are functions of the cycle, so that they
can be compared cycle by cycle in `PerfCount`.

What a branch does later depends on its decision, which it takes in its first cycle only
(`BranchTimed`).

## Main results

* `branchTimed_next` — the step lemma on the branches that are counted;
* `lsuReq_eq` — ID asks the LSU when the load or store starts;
* `inDec_exclusive` — no instruction is of two of the kinds.
-/

namespace CocoIbex

/-! ### The lines -/

/-- `perf_branch_o`. -/
def IdStage.perfBranch (cfg : Config) (fsm : IdFsm) (x : IdIn) : Bool :=
  instrExecuting x && fsm == .firstCycle && !(main cfg fsm x).dataReq
    && !multdivEnDec cfg fsm x && (main cfg fsm x).branchInDec

/-- Counts of the events that follow an instruction. -/
@[ext] structure PerfTally where
  instrRet : ℕ
  instrRetCompressed : ℕ
  memLoad : ℕ
  memStore : ℕ
  jump : ℕ
  branch : ℕ
  branchTaken : ℕ
  deriving DecidableEq, Repr

namespace PerfTally

/-- No events. -/
def zero : PerfTally := ⟨0, 0, 0, 0, 0, 0, 0⟩

/-- The events of both. -/
def add (s t : PerfTally) : PerfTally where
  instrRet := s.instrRet + t.instrRet
  instrRetCompressed := s.instrRetCompressed + t.instrRetCompressed
  memLoad := s.memLoad + t.memLoad
  memStore := s.memStore + t.memStore
  jump := s.jump + t.jump
  branch := s.branch + t.branch
  branchTaken := s.branchTaken + t.branchTaken

end PerfTally

/-- The increments of `minstret` and of the counters of the events in one cycle. -/
def PerfEvents.tally (e : PerfEvents) : PerfTally where
  instrRet := (e.incr 2#5).toNat
  instrRetCompressed := (e.incr 10#5).toNat
  memLoad := (e.incr 5#5).toNat
  memStore := (e.incr 6#5).toNat
  jump := (e.incr 7#5).toNat
  branch := (e.incr 8#5).toNat
  branchTaken := (e.incr 9#5).toNat

/-- They are those of the lines. -/
theorem PerfEvents.tally_eq (e : PerfEvents) :
    e.tally = ⟨e.instrRet.toNat, e.instrRetCompressed.toNat, e.memLoad.toNat, e.memStore.toNat,
      e.jump.toNat, e.branch.toNat, e.branchTaken.toNat⟩ := rfl

namespace HartObs

variable {n : ℕ} (P : HartParams) (o : HartObs n) (x : HartIn)

/-- The inputs of the ID-EX machine. -/
def idIn : IdIn := Core.idIn P.cfg o.core (o.coreIn P x)

/-- The event lines of the register block. -/
def perfEvents : PerfEvents :=
  let y := o.idIn P x
  let f := IdStage.fsmOut P.cfg o.core.idFsm y
  let l := Core.lsuStep P.cfg o.core (o.coreIn P x)
  let first := IdStage.instrFirstCycle o.core.idFsm y
  { instrRet := o.completes P x
    instrRetCompressed := o.completes P x && o.core.ifId.instrIsCompressedId
    isideWait := o.hart.idInReady P x && !o.core.ifId.instrValidId
    jump := (o.hart.ctrlOut P x).perfJump
    branch := IdStage.perfBranch P.cfg o.core.idFsm y
    branchTaken := (o.hart.ctrlOut P x).perfTbranch
    memLoad := l.perfLoad
    memStore := l.perfStore
    dsideWait :=
      IdStage.instrExecuting y && (Core.main P.cfg o.core).dataReq && !y.lsuValid
    mulWait := f.stallMultdiv && multEn P.cfg first y.branchTaken y.illegalCInsn y.instr
    divWait := f.stallMultdiv && divEn P.cfg first y.branchTaken y.illegalCInsn y.instr }

/-! ### The documented events -/

/-- The instruction in ID is a JAL or JALR. -/
def isJump : Bool :=
  let op := Opcode.ofBits (opcodeBits o.core.ifId.instrRdataId)
  op == some .jal || op == some .jalr

/-- The instruction in ID is a conditional branch. -/
def isBranch : Bool := Opcode.ofBits (opcodeBits o.core.ifId.instrRdataId) == some .branch

/-- The instruction in ID is a FENCE.I. -/
def isFenceI : Bool :=
  Opcode.ofBits (opcodeBits o.core.ifId.instrRdataId) == some .miscMem
    && funct3 o.core.ifId.instrRdataId == 0b001#3

/-- The load or store in ID starts its access. -/
def startsAccess : Bool :=
  IdStage.instrExecuting (o.idIn P x) && o.core.idFsm == .firstCycle
    && Core.memInsn P.cfg o.core

/-- The accesses that it starts: two when it crosses a word boundary. -/
def accesses : ℕ :=
  if o.startsAccess P x then if (o.lsuIn P x).splitMisalignedAccess then 2 else 1 else 0

/-- The documented events of a cycle, where `taken` is what EX has decided on the branch. -/
def documented (taken : Bool) : PerfTally where
  instrRet := (o.retires P x).toNat
  instrRetCompressed := (o.retires P x && isCompressed o.word).toNat
  memLoad := if (Core.main P.cfg o.core).dataWe then 0 else o.accesses P x
  memStore := if (Core.main P.cfg o.core).dataWe then o.accesses P x else 0
  jump := (o.retires P x && o.isJump).toNat
  branch := (o.retires P x && o.isBranch).toNat
  branchTaken := (o.retires P x && o.isBranch && taken).toNat

/-- The instruction in ID executes and is past its first cycle. -/
def later : Bool :=
  o.core.ifId.instrValidId && !o.core.instrFetchErrId && o.core.ctrl.ctrlFsm == .decode
    && o.core.idFsm == .multiCycle

end HartObs

/-! ### The promise of EX -/

/-- `ibex_ex_block` keeps the promise: it writes no intermediate value in a later cycle. -/
theorem ExBlock.exValid_later {cfg : Config} {m : Multiplier} {s : ExState m} {y : ExIn}
    (hf : y.aluInstrFirstCycle = false) (hm : y.multSel = false) (hd : y.divSel = false) :
    (ExBlock.outputs cfg m s y).exValid = true := by
  have hsel : ExBlock.multdivSel cfg y = false := by simp [ExBlock.multdivSel, hm, hd]
  have hfirst : (ExBlock.aluIn cfg m s y).instrFirstCycle = false := hf
  have hwe : Alu.imdValWe cfg.rv32b (ExBlock.aluIn cfg m s y) = false := by
    simp only [Alu.imdValWe, hfirst]
    split <;> simp
  simp [ExBlock.outputs, hsel, hwe]

/-! ### The strobes -/

/-- The LSU pulses when it accepts a request. -/
theorem Lsu.step_perf (s : Lsu) (x : LsuIn) :
    (s.step x).perfLoad = (s.lsFsm == .idle && x.lsuReq && !x.lsuWe) ∧
      (s.step x).perfStore = (s.lsFsm == .idle && x.lsuReq && x.lsuWe) := by
  cases hf : s.lsFsm <;> simp only [step, hf] <;> split_ifs <;> simp_all

/-- The controller pulses in `DECODE` only. -/
theorem Ctrl.out_perf {s : Ctrl} (y : CtrlIn) (hs : s.ctrlFsm ≠ .decode) :
    (out s y).perfJump = false ∧ (out s y).perfTbranch = false := by
  simp only [out]
  cases hf : s.ctrlFsm with
  | decode => exact absurd hf hs
  | flush =>
      simp only [flushOut, flushBase]
      split_ifs <;> exact ⟨rfl, rfl⟩
  | dbgTakenIf =>
      simp only [dbgTakenIfOut]
      split_ifs <;> exact ⟨rfl, rfl⟩
  | irqTaken =>
      simp only [irqTakenOut]
      split_ifs <;> exact ⟨rfl, rfl⟩
  | _ => exact ⟨rfl, rfl⟩

namespace Core

variable {cfg : Config} {s : Core} {x : CoreIn}

/-- The controller passes on the jumps and branches of an executing instruction. -/
theorem perf_of_executing (h : Executing s) :
    (ctrlOut cfg s x).perfJump = (idOut cfg s x).jumpSet ∧
      (ctrlOut cfg s x).perfTbranch = branchSet cfg s x := by
  have hv : (ctrlIn cfg s x).instrValid = true := h.1
  have hfe : (ctrlIn cfg s x).instrFetchErr = false := h.2.1
  have hj : (ctrlIn cfg s x).jumpSet = (idOut cfg s x).jumpSet := rfl
  have hb : (ctrlIn cfg s x).branchSet = branchSet cfg s x := rfl
  simp only [ctrlOut, Ctrl.out, h.2.2, Ctrl.decodeOut, hv, Ctrl.specialReqBranch,
    Ctrl.instrFetchErr, hfe, hj, hb]
  cases (idOut cfg s x).jumpSet <;> cases branchSet cfg s x <;> exact ⟨rfl, rfl⟩

/-- It pulses for no other. -/
theorem perf_of_not_executing (h : ¬ Executing s) :
    (ctrlOut cfg s x).perfJump = false ∧ (ctrlOut cfg s x).perfTbranch = false := by
  by_cases hfsm : s.ctrl.ctrlFsm = .decode
  · have hv : (ctrlIn cfg s x).instrValid = s.ifId.instrValidId := rfl
    have hfe : (ctrlIn cfg s x).instrFetchErr = s.instrFetchErrId := rfl
    simp only [ctrlOut, Ctrl.out, hfsm, Ctrl.decodeOut, Ctrl.specialReqBranch,
      Ctrl.instrFetchErr, hv, hfe]
    cases hval : s.ifId.instrValidId with
    | false => exact ⟨rfl, rfl⟩
    | true =>
        have herr : s.instrFetchErrId = true := by
          by_contra hne
          exact h ⟨hval, (Bool.not_eq_true _).mp hne, hfsm⟩
        simp [herr]
  · exact Ctrl.out_perf _ hfsm

end Core

namespace IdStage

variable {cfg : Config} {fsm : IdFsm} {x : IdIn}

/-- Branches and jumps are neither loads or stores nor multiplications or divisions, and no
branch is a jump. -/
theorem inDec_exclusive (h : (main cfg fsm x).branchInDec = true ∨
      (main cfg fsm x).jumpInDec = true) :
    (main cfg fsm x).dataReq = false ∧ multdivEnDec cfg fsm x = false ∧
      ((main cfg fsm x).jumpInDec = true → (main cfg fsm x).branchInDec = false) := by
  obtain ⟨hb, hj, -, hd⟩ :=
    mainDecode_inDec cfg (instrFirstCycle fsm x) x.illegalCInsn x.instr
  have hop : Opcode.ofBits (opcodeBits x.instr) = some .branch ∨
      Opcode.ofBits (opcodeBits x.instr) = some .jal ∨
      Opcode.ofBits (opcodeBits x.instr) = some .jalr ∨
      Opcode.ofBits (opcodeBits x.instr) = some .miscMem := by
    obtain h | h := h
    · exact Or.inl (hb.mp h).2
    · obtain ⟨-, ho | ho | ⟨ho, -⟩⟩ := hj.mp h <;> simp [ho]
  refine ⟨?_, ?_, fun h => ?_⟩
  · by_contra hne
    obtain ⟨-, ho⟩ := hd ((Bool.not_eq_false _).mp hne)
    obtain ho | ho := ho <;> simp [ho] at hop
  · by_contra hne
    simp only [multdivEnDec, Bool.not_eq_false, Bool.and_eq_true] at hne
    have ho := @aluDecode_op cfg (instrFirstCycle fsm x) x.branchTaken x.instr
      (by rw [Bool.or_eq_true]; exact Or.inl hne.2)
    obtain ho | ho := ho <;> simp [ho] at hop
  · by_contra hne
    have ho := (hb.mp ((Bool.not_eq_false _).mp hne)).2
    obtain ⟨-, ho' | ho' | ⟨ho', -⟩⟩ := hj.mp h <;> simp [ho] at ho'

/-- The strobes of the first cycle. -/
theorem strobes_firstCycle (hx : instrExecuting x = true) :
    (fsmOut cfg .firstCycle x).jumpSet = (main cfg .firstCycle x).jumpInDec ∧
      (fsmOut cfg .firstCycle x).branchSetD
        = ((main cfg .firstCycle x).branchInDec && (x.branchDecision || x.dataIndTiming)) ∧
      perfBranch cfg .firstCycle x = (main cfg .firstCycle x).branchInDec := by
  have hset : (main cfg .firstCycle x).jumpInDec = true →
      (main cfg .firstCycle x).jumpSet = true := by
    obtain ⟨-, -, hj, -⟩ :=
      mainDecode_inDec cfg (instrFirstCycle .firstCycle x) x.illegalCInsn x.instr
    intro h
    refine (hj h).trans ?_
    simp only [instrExecuting, Bool.and_eq_true] at hx
    simp [instrFirstCycle, hx.1.1]
  have hex := @inDec_exclusive cfg .firstCycle x
  cases hb : (main cfg .firstCycle x).branchInDec with
  | true =>
      obtain ⟨hd, hm, hj⟩ := hex (Or.inl hb)
      have hj' : (main cfg .firstCycle x).jumpInDec = false := by
        by_contra hne
        cases hb.symm.trans (hj ((Bool.not_eq_false _).mp hne))
      simp [fsmOut, perfBranch, hx, hd, hm, hb, hj']
  | false =>
      cases hj : (main cfg .firstCycle x).jumpInDec with
      | true =>
          obtain ⟨hd, hm, -⟩ := hex (Or.inr hj)
          have hs := hset hj
          simp only [fsmOut, perfBranch, hx, hd, hm, hb, hj, hs, Bool.false_eq_true, if_true,
            if_false, Bool.false_and, Bool.and_false, and_self]
      | false =>
          clear hset hex
          simp only [fsmOut, perfBranch, hx, hb, hj]
          split_ifs <;> simp_all

/-- The later cycles have no strobe of ID. -/
theorem strobes_multiCycle (hx : instrExecuting x = true) :
    (fsmOut cfg .multiCycle x).jumpSet = false ∧ (fsmOut cfg .multiCycle x).branchSetD = false ∧
      perfBranch cfg .multiCycle x = false := by
  obtain ⟨hb, hj, -⟩ := fsmOut_multiCycle cfg x hx
  exact ⟨hj, hb, by simp [perfBranch]⟩

end IdStage

namespace HartObs

variable {n : ℕ} {P : HartParams} {o : HartObs n} {x : HartIn}

/-- An instruction is later in its multi-cycle state. -/
theorem later_iff : o.later = true ↔ Core.Executing o.core ∧ o.core.idFsm = .multiCycle := by
  simp [later, Core.Executing, and_assoc]

/-- An instruction executes where the pipeline registers and the controller let it. -/
theorem executing_iff : IdStage.instrExecuting (o.idIn P x) = true ↔ Core.Executing o.core :=
  Core.instrExecuting_iff

/-- The same with the other truth value. -/
theorem instrExecuting_eq_false (hx : ¬ Core.Executing o.core) :
    IdStage.instrExecuting (o.idIn P x) = false :=
  Core.instrExecuting_eq_false hx

/-- ID asks the LSU for an access when the load or store starts it. -/
theorem lsuReq_eq : Core.lsuReq P.cfg o.core (o.coreIn P x) = o.startsAccess P x := by
  rw [Bool.eq_iff_iff]
  constructor
  · intro h
    obtain ⟨hx, hf, hm⟩ := Core.of_lsuReq h
    simp [startsAccess, executing_iff.mpr hx, hf, hm]
  · intro h
    simp only [startsAccess, Bool.and_eq_true, beq_iff_eq] at h
    obtain ⟨⟨hx, hf⟩, hm⟩ := h
    have hv := (executing_iff.mp hx).1
    have hd : (IdStage.main P.cfg o.core.idFsm (o.idIn P x)).dataReq = true :=
      Core.main_dataReq.trans hm
    have hfirst : IdStage.instrFirstCycle o.core.idFsm (o.idIn P x) = true := by
      rw [IdStage.instrFirstCycle, hf]
      exact Bool.and_eq_true_iff.mpr ⟨hv, rfl⟩
    change IdStage.lsuReq P.cfg o.core.idFsm (o.idIn P x) = true
    rw [IdStage.lsuReq, if_pos hx, hfirst, hd]
    rfl

/-- A load or store pulses when it starts its access. -/
theorem perf_access (hi : Inv P o) :
    (o.perfEvents P x).memLoad = (o.startsAccess P x && !(Core.main P.cfg o.core).dataWe) ∧
      (o.perfEvents P x).memStore
        = (o.startsAccess P x && (Core.main P.cfg o.core).dataWe) := by
  have hidle : Core.lsuReq P.cfg o.core (o.coreIn P x) = true → o.core.lsu.lsFsm = .idle := by
    intro h
    have hb := (hi.core.rest (Core.not_memActive_of_lsuReq h)).1
    simpa [Lsu.busy] using hb
  have hstep := Lsu.step_perf o.core.lsu
    (Core.lsuIn P.cfg o.core (o.coreIn P x) (Core.lsuReq P.cfg o.core (o.coreIn P x)))
  rw [← lsuReq_eq]
  refine ⟨hstep.1.trans ?_, hstep.2.trans ?_⟩
  · cases h : Core.lsuReq P.cfg o.core (o.coreIn P x) with
    | false => simp
    | true => simp [hidle h, Core.lsuIn]
  · cases h : Core.lsuReq P.cfg o.core (o.coreIn P x) with
    | false => simp
    | true => simp [hidle h, Core.lsuIn]

/-! ### The timing of a branch -/

/-- An executing instruction that is no CSR instruction leaves the CSRs as they are. -/
theorem csr_next_of_executing (hx : Core.Executing o.core)
    (hacc : (Core.main P.cfg o.core).csrAccess = false) : (o.next P x).csr = o.csr := by
  have hout : o.hart.ctrlOut P x
      = Ctrl.decodeOut o.core.ctrl (Core.ctrlIn P.cfg o.core (o.coreIn P x)) := by
    change Ctrl.out o.core.ctrl _ = _
    simp only [Ctrl.out, hx.2.2]
    rfl
  have hop : Core.csrOpEn P.cfg o.core (o.coreIn P x) = false := by
    simp [Core.csrOpEn, IdStage.csrOpEn, hacc]
  have hen : (o.hart.csrIn P x).csrOpEn = false := hop
  refine CsRegs.next_eq_self ?_ ?_ ?_ ?_ ?_
  · simp [CsRegs.csrWeInt, CsRegs.csrWreq, hen]
  · change ((o.hart.ctrlOut P x).pcMux == .boot && (o.hart.ctrlOut P x).pcSet) = false
    rw [hout]
    rfl
  · change (o.hart.ctrlOut P x).csrSaveCause = false
    rw [hout]
    rfl
  · change (o.hart.ctrlOut P x).csrRestoreDretId = false
    rw [hout]
    rfl
  · change (o.hart.ctrlOut P x).csrRestoreMretId = false
    rw [hout]
    rfl

/-- With the branch target ALU, only a branch of the fixed timing is set in a later cycle. -/
def BranchTimed (P : HartParams) (o : HartObs n) : Prop :=
  o.core.branchSetQ = true → Core.Executing o.core → P.branchTargetALU = true →
    o.csr.dataIndTiming P.toCsrParams = true

/-- **Step lemma.** The timing of a branch that is counted survives a step. -/
theorem branchTimed_next (hi : Inv P o) (hl : Later P o) (hp : Promised P o x) :
    BranchTimed P (o.next P x) := by
  intro hq hx' hbt
  have hset : (IdStage.fsmOut P.cfg o.core.idFsm (o.idIn P x)).branchSetD = true := hq
  obtain ⟨he, hfirst, hmem, hd⟩ := IdStage.fsmOut_of_branchSetD P.cfg _ _ hset
  have hx := executing_iff.mp he
  have hmulti := (inv_next hi hp.bus).core.branch hq hx'
  have hb : (IdStage.main P.cfg o.core.idFsm (o.idIn P x)).branchInDec = true := by
    rw [hfirst] at hset ⊢
    rw [(IdStage.strobes_firstCycle he).2.1, Bool.and_eq_true] at hset
    exact hset.1
  have hacc : (Core.main P.cfg o.core).csrAccess = false :=
    (Core.plain_of_lasting (x := o.coreIn P x) (fromWord hi hx)
      (Or.inr (Or.inr (Or.inl hb)))).csrAccess
  have hcsr : (o.next P x).csr = o.csr := csr_next_of_executing hx hacc
  rw [hcsr]
  by_contra hne
  have hdit : (o.idIn P x).dataIndTiming = false := (Bool.not_eq_true _).mp hne
  have hcond : (P.cfg.branchTargetALU && !(o.idIn P x).dataIndTiming) = true := by
    rw [hdit]
    exact Bool.and_eq_true_iff.mpr ⟨hbt, rfl⟩
  rw [if_pos hcond] at hd
  have hm : Core.memInsn P.cfg o.core = false := Core.main_dataReq.symm.trans hmem
  have hs : Core.stallId P.cfg o.core (o.coreIn P x) = false := hd.trans (hi.core.stallMem hm)
  cases hmulti.symm.trans (idFsm_next_of_not_stall hi hl hp.ex hx hs)

/-! ### The lines of an executing instruction -/

/-- An executing instruction without an exception is legal. -/
theorem legal_of_no_exception (hx : Core.Executing o.core) (he : o.exception P x = none) :
    (IdStage.main P.cfg o.core.idFsm (o.idIn P x)).illegalInsn = false := by
  by_contra hne
  have hmain : (Core.main P.cfg o.core).illegalInsn = true := (Bool.not_eq_false _).mp hne
  have hill : o.illegal P x = true := by
    have hd : (o.ctrlDec P x).illegalInsn = true := by
      simp [ctrlDec, Core.ctrlDec, hx.1, hmain]
    simp [illegal, hd]
  have hferr : (o.ctrlDec P x).instrFetchErr = false := hx.2.1
  simp [exception, causes, hill, hferr] at he

/-- Branches and jumps, and FENCE.I, as the decoder has them. -/
theorem inDec_of_legal
    (hl : (IdStage.main P.cfg o.core.idFsm (o.idIn P x)).illegalInsn = false) :
    (IdStage.main P.cfg o.core.idFsm (o.idIn P x)).branchInDec = o.isBranch ∧
      (IdStage.main P.cfg o.core.idFsm (o.idIn P x)).jumpInDec = (o.isJump || o.isFenceI) := by
  obtain ⟨hb, hj, -⟩ := mainDecode_inDec P.cfg
    (IdStage.instrFirstCycle o.core.idFsm (o.idIn P x)) (o.idIn P x).illegalCInsn
    (o.idIn P x).instr
  refine ⟨?_, ?_⟩
  · rw [Bool.eq_iff_iff]
    refine hb.trans ?_
    simp only [isBranch, beq_iff_eq]
    exact ⟨fun h => h.2, fun h => ⟨hl, h⟩⟩
  · rw [Bool.eq_iff_iff]
    refine hj.trans ?_
    simp only [isJump, isFenceI, Bool.or_eq_true, Bool.and_eq_true, beq_iff_eq, or_assoc]
    exact ⟨fun h => h.2, fun h => ⟨hl, h⟩⟩

/-- The lines of the first cycle. -/
theorem perfEvents_firstCycle (hi : Inv P o) (hx : Core.Executing o.core)
    (hf : o.core.idFsm = .firstCycle) :
    let d := IdStage.main P.cfg o.core.idFsm (o.idIn P x)
    (o.perfEvents P x).jump = d.jumpInDec ∧ (o.perfEvents P x).branch = d.branchInDec ∧
      (o.perfEvents P x).branchTaken
        = (P.branchTargetALU && !(o.idIn P x).dataIndTiming && d.branchInDec
          && x.branchDecision) ∧
      (o.next P x).core.branchSetQ
        = (d.branchInDec && (x.branchDecision || (o.idIn P x).dataIndTiming)) := by
  intro d
  obtain ⟨hjump, htaken⟩ := @Core.perf_of_executing P.cfg _ (o.coreIn P x) hx
  have hq : o.core.branchSetQ = false := by
    by_contra hne
    cases hf.symm.trans (hi.core.branch ((Bool.not_eq_false _).mp hne) hx)
  obtain ⟨hsj, hsb, hpb⟩ := @IdStage.strobes_firstCycle P.cfg _
    (executing_iff (P := P) (x := x).mpr hx)
  have hout : Core.idOut P.cfg o.core (o.coreIn P x)
      = IdStage.fsmOut P.cfg .firstCycle (o.idIn P x) := by
    rw [← hf]
    rfl
  have hd : d = IdStage.main P.cfg .firstCycle (o.idIn P x) := by rw [← hf]
  have hdec : (o.idIn P x).branchDecision = x.branchDecision := rfl
  refine ⟨?_, ?_, ?_, ?_⟩
  · refine hjump.trans ?_
    rw [hout, hsj, hd]
  · change IdStage.perfBranch P.cfg o.core.idFsm (o.idIn P x) = _
    rw [hf, hpb, hd]
  · refine htaken.trans ?_
    rw [Core.branchSet, hout, hsb, hq, hd, hdec]
    change (if P.branchTargetALU && !(o.idIn P x).dataIndTiming then _ else false) = _
    cases P.branchTargetALU <;> cases (o.idIn P x).dataIndTiming <;> simp
  · change (Core.idOut P.cfg o.core (o.coreIn P x)).branchSetD = _
    rw [hout, hsb, hd, hdec]

/-- The lines of a later cycle. -/
theorem perfEvents_multiCycle (hb : BranchTimed P o) (hx : Core.Executing o.core)
    (hf : o.core.idFsm = .multiCycle) :
    (o.perfEvents P x).jump = false ∧ (o.perfEvents P x).branch = false ∧
      (o.perfEvents P x).branchTaken = o.core.branchSetQ ∧
      (o.next P x).core.branchSetQ = false := by
  obtain ⟨hjump, htaken⟩ := @Core.perf_of_executing P.cfg _ (o.coreIn P x) hx
  obtain ⟨hsj, hsb, hpb⟩ := @IdStage.strobes_multiCycle P.cfg _
    (executing_iff (P := P) (x := x).mpr hx)
  have hout : Core.idOut P.cfg o.core (o.coreIn P x)
      = IdStage.fsmOut P.cfg .multiCycle (o.idIn P x) := by
    rw [← hf]
    rfl
  refine ⟨?_, ?_, ?_, ?_⟩
  · refine hjump.trans ?_
    rw [hout, hsj]
  · change IdStage.perfBranch P.cfg o.core.idFsm (o.idIn P x) = _
    rw [hf, hpb]
  · refine htaken.trans ?_
    rw [Core.branchSet, hout, hsb]
    have hdit : (o.coreIn P x).dataIndTiming = o.csr.dataIndTiming P.toCsrParams := rfl
    have hbt : P.cfg.branchTargetALU = P.branchTargetALU := rfl
    rw [hdit, hbt]
    split_ifs with hc
    · rw [Bool.and_eq_true, Bool.not_eq_true'] at hc
      by_contra hne
      have hq : o.core.branchSetQ = true := by
        cases h : o.core.branchSetQ with
        | true => rfl
        | false => exact absurd h.symm hne
      cases hc.2.symm.trans (hb hq hx hc.1)
    · rfl
  · change (Core.idOut P.cfg o.core (o.coreIn P x)).branchSetD = _
    rw [hout, hsb]

end HartObs

end CocoIbex
