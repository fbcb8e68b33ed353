import CocoIbex.Core
import CocoIbex.Gating

/-!
# Steps of the Two-Stage Core

What one cycle does to the instruction in ID: when it stays, when it is complete, and what a
load or store does until its response is there. The invariant `Core.Inv` ties the LSU and the
bus to the load or store in ID: an access is only under way while its instruction waits in the
later cycles of the ID-EX machine.

Everything later about this core goes through the lemmas here, and none of it unfolds the step
function. An instruction *executes* in a cycle if it is valid, free of a fetch error, and
neither the controller nor the reset keeps it back (`Executing`); it *stays* if it stalls or if
the controller halts. The stalls are computed by ID from its own state, so that a cycle is known
by the first or later cycle it is and by the answers of EX and of the LSU.

## Main results

* `next_of_stall` and `instr_next` — what stays in ID stays the same;
* `instrExecuting_iff` — when an instruction executes;
* `of_lsuReq` — the LSU is asked in the first cycle of a load or store and never else;
* `inv_next` and `inv_reset` — the invariant survives every cycle in which the bus keeps to its
  protocol.
-/

namespace CocoIbex

/-! ### Loads and stores in the decoder -/

/-- A load or store is legal and nothing else. -/
structure MainOut.OnlyMem (o : MainOut) : Prop where
  illegalInsn : o.illegalInsn = false
  ebrkInsn : o.ebrkInsn = false
  mretInsn : o.mretInsn = false
  dretInsn : o.dretInsn = false
  ecallInsn : o.ecallInsn = false
  wfiInsn : o.wfiInsn = false
  csrAccess : o.csrAccess = false
  jumpInDec : o.jumpInDec = false
  branchInDec : o.branchInDec = false

/-- The decoder asks for a memory access in the load and store opcodes only. -/
theorem mainDecodeRaw_onlyMem {cfg : Config} {first : Bool} {i : BitVec 32}
    (h : (mainDecodeRaw cfg first i).dataReq = true)
    (hl : (mainDecodeRaw cfg first i).illegalInsn = false) :
    (mainDecodeRaw cfg first i).OnlyMem := by
  cases ho : Opcode.ofBits (opcodeBits i) with
  | none => simp [mainDecodeRaw, ho] at h
  | some o =>
      cases o
      case load =>
        simp only [mainDecodeRaw, ho] at hl ⊢
        exact ⟨hl, rfl, rfl, rfl, rfl, rfl, rfl, rfl, rfl⟩
      case store =>
        simp only [mainDecodeRaw, ho] at hl ⊢
        exact ⟨hl, rfl, rfl, rfl, rfl, rfl, rfl, rfl, rfl⟩
      case miscMem =>
        simp only [mainDecodeRaw, ho] at h
        split at h <;> simp at h
      case system =>
        simp only [mainDecodeRaw, ho] at h
        split at h <;> simp [systemOut_dataReq] at h
      all_goals simp [mainDecodeRaw, ho] at h

/-- A decoded memory request is that of a legal load or store. -/
theorem onlyMem_of_dataReq {cfg : Config} {first illegalC : Bool} {i : BitVec 32}
    (h : (mainDecode cfg first illegalC i).dataReq = true) :
    (mainDecode cfg first illegalC i).OnlyMem := by
  have hl : (mainDecodeRaw cfg first i).illegalInsn = false ∧ illegalC = false := by
    cases hi : (mainDecodeRaw cfg first i).illegalInsn || illegalC with
    | false => simpa using hi
    | true => simp [mainDecode, MainOut.squash, hi] at h
  have heq : mainDecode cfg first illegalC i = mainDecodeRaw cfg first i := by
    simp only [mainDecode, hl.2, Bool.or_false]
    exact MainOut.squash_of_legal hl.1
  rw [heq] at h ⊢
  exact mainDecodeRaw_onlyMem h hl.1

/-- Whether an instruction is a load or store does not depend on its cycle. -/
theorem mainDecode_dataReq (cfg : Config) (first illegalC : Bool) (i : BitVec 32) :
    (mainDecode cfg first illegalC i).dataReq = (mainDecode cfg true illegalC i).dataReq := by
  have hraw : (mainDecodeRaw cfg first i).dataReq = (mainDecodeRaw cfg true i).dataReq ∧
      (mainDecodeRaw cfg first i).illegalInsn = (mainDecodeRaw cfg true i).illegalInsn := by
    simp only [mainDecodeRaw]
    split <;> (try split) <;> exact ⟨rfl, rfl⟩
  simp only [mainDecode, MainOut.squash, hraw.2]
  split_ifs
  · rfl
  · exact hraw.1

/-- The direction of an access does not depend on its cycle. -/
theorem mainDecode_dataWe (cfg : Config) (first illegalC : Bool) (i : BitVec 32) :
    (mainDecode cfg first illegalC i).dataWe = (mainDecode cfg true illegalC i).dataWe := by
  have hraw : (mainDecodeRaw cfg first i).dataWe = (mainDecodeRaw cfg true i).dataWe ∧
      (mainDecodeRaw cfg first i).illegalInsn = (mainDecodeRaw cfg true i).illegalInsn := by
    simp only [mainDecodeRaw]
    split <;> (try split) <;> exact ⟨rfl, rfl⟩
  simp only [mainDecode, MainOut.squash, hraw.2]
  split_ifs
  · rfl
  · exact hraw.1

namespace Core

variable {cfg : Config} {s : Core} {x : CoreIn}

/-! ### Names for the states of ID -/

/-- The instruction in ID executes. -/
def Executing (s : Core) : Prop :=
  s.ifId.instrValidId = true ∧ s.instrFetchErrId = false ∧ s.ctrl.ctrlFsm = .decode

/-- The word in ID is a load or store. -/
def memInsn (cfg : Config) (s : Core) : Bool :=
  (mainDecode cfg true s.ifId.illegalCInsnId s.ifId.instrRdataId).dataReq

/-- A load or store is past its first cycle. -/
def MemActive (cfg : Config) (s : Core) : Prop :=
  Executing s ∧ s.idFsm = .multiCycle ∧ memInsn cfg s = true

/-- A word is handed over to ID and will be valid there. -/
def deliver (cfg : Config) (s : Core) (x : CoreIn) : Bool :=
  (ifIdIn cfg s x).instrNewId && !(ctrlOut cfg s x).pcSet

/-- Whether a word asks for memory does not depend on its cycle. -/
@[simp] theorem main_dataReq : (main cfg s).dataReq = memInsn cfg s := mainDecode_dataReq _ _ _ _

/-- A word that asks for memory asks for nothing else. -/
theorem onlyMem (h : memInsn cfg s = true) : (main cfg s).OnlyMem :=
  onlyMem_of_dataReq (main_dataReq.trans h)

/-! ### What ID sees -/

/-- The ID-EX machine sees the word in ID with its valid bit. -/
@[simp] theorem idIn_instrValid : (idIn cfg s x).instrValid = s.ifId.instrValidId := rfl

/-- It sees the flush of the controller. -/
@[simp] theorem idIn_flushId : (idIn cfg s x).flushId = flushId cfg s x := rfl

/-- It sees the response of the LSU. -/
@[simp] theorem idIn_lsuValid : (idIn cfg s x).lsuValid = lsuValid cfg s x := rfl

/-- It sees whether the LSU is busy. -/
@[simp] theorem idIn_lsuBusy : (idIn cfg s x).lsuBusy = s.lsu.busy := rfl

/-- It sees the setting of `cpuctrl`. -/
@[simp] theorem idIn_dataIndTiming : (idIn cfg s x).dataIndTiming = x.dataIndTiming := rfl

/-- It decodes the word in ID. -/
@[simp] theorem idStage_main : IdStage.main cfg s.idFsm (idIn cfg s x) = main cfg s := rfl

/-- An instruction executes where the pipeline registers and the controller let it. -/
theorem instrExecuting_iff :
    IdStage.instrExecuting (idIn cfg s x) = true ↔ Executing s := by
  simp [IdStage.instrExecuting, idIn, Ctrl.controllerRun, Executing, and_assoc]

/-- The same with the other truth value. -/
theorem instrExecuting_eq_false (h : ¬ Executing s) :
    IdStage.instrExecuting (idIn cfg s x) = false := by
  rw [← Bool.not_eq_true, instrExecuting_iff]
  exact h

/-- An instruction that does not execute leaves the ID-EX machine alone. -/
theorem idOut_of_not_executing (h : ¬ Executing s) :
    idOut cfg s x = { idFsmD := s.idFsm, rfWeRaw := (main cfg s).rfWe } := by
  simp only [idOut, IdStage.fsmOut, instrExecuting_eq_false h, Bool.false_eq_true, if_false,
    idStage_main]

/-- A valid instruction that does not execute is stalled by the memory only. -/
theorem stallId_of_not_executing (h : ¬ Executing s) (hb : s.lsu.busy = false)
    (hm : memInsn cfg s = false) : stallId cfg s x = false := by
  have ho : idOut cfg s x = _ := idOut_of_not_executing h
  rw [idOut] at ho
  simp [stallId, IdStage.stallId, IdStage.stallMem, ho, hm, hb]

/-- The valid bit of ID in the next cycle. -/
theorem instrValidId_next (hd : deliver cfg s x = false) :
    (next cfg s x).ifId.instrValidId
      = (s.ifId.instrValidId && (stallId cfg s x || (ctrlOut cfg s x).haltIf) &&
          !flushId cfg s x) := by
  have hn : ((ifIdIn cfg s x).fetchValid && (ifIdIn cfg s x).idInReady
      && !(ifIdIn cfg s x).pcSet) = false := hd
  simp only [next, IfIdReg.next, hn, Bool.false_or, IfIdIn.instrValidClear]
  simp [ifIdIn, Bool.and_assoc]

/-- An instruction that is still in ID is the same as before. -/
theorem instr_next (hd : deliver cfg s x = false)
    (hv : (next cfg s x).ifId.instrValidId = true) :
    s.ifId.instrValidId = true ∧ flushId cfg s x = false ∧
      (stallId cfg s x = true ∨ (ctrlOut cfg s x).haltIf = true) ∧
      memInsn cfg (next cfg s x) = memInsn cfg s ∧
      (next cfg s x).instrFetchErrId = s.instrFetchErrId := by
  rw [instrValidId_next hd] at hv
  simp only [Bool.and_eq_true, Bool.or_eq_true, Bool.not_eq_true'] at hv
  obtain ⟨⟨hv, hs⟩, hf⟩ := hv
  have hnew : (ifIdIn cfg s x).instrNewId = false := by
    obtain hs | hs := hs <;> simp [IfIdIn.instrNewId, IfIdIn.idInReady, ifIdIn, hs]
  refine ⟨hv, hf, hs, ?_, ?_⟩
  · simp [memInsn, next, IfIdReg.next, hnew]
  · simp [next, hnew]

/-- A valid instruction that stalls stays in ID. -/
theorem next_of_stall (hv : s.ifId.instrValidId = true) (hs : stallId cfg s x = true)
    (hf : flushId cfg s x = false) :
    (next cfg s x).ifId.instrValidId = true ∧ memInsn cfg (next cfg s x) = memInsn cfg s ∧
      (next cfg s x).instrFetchErrId = s.instrFetchErrId := by
  have hd : deliver cfg s x = false := by
    simp [deliver, IfIdIn.instrNewId, IfIdIn.idInReady, ifIdIn, hs]
  have hv' : (next cfg s x).ifId.instrValidId = true := by
    simp [instrValidId_next hd, hv, hs, hf]
  exact ⟨hv', (instr_next hd hv').2.2.2⟩

/-! ### The controller in `DECODE` -/

/-- The controller does not flush ID while an instruction executes. -/
theorem flushId_of_executing (h : Executing s) : flushId cfg s x = false := by
  simp only [flushId, Ctrl.flushId, h.2.2]

/-- Where `DECODE` goes on. -/
theorem ctrlFsm_next_decode (h : s.ctrl.ctrlFsm = .decode) :
    (next cfg s x).ctrl.ctrlFsm = (Ctrl.decodeOut s.ctrl (ctrlIn cfg s x)).ctrlFsmNs := by
  simp only [next, Ctrl.next, Ctrl.out, h]

/-- An executing instruction sets the fetch address for a branch or jump. -/
theorem pcSet_of_executing (h : Executing s) :
    (ctrlOut cfg s x).pcSet = (branchSet cfg s x || (idOut cfg s x).jumpSet) := by
  have hv : (ctrlIn cfg s x).instrValid = true := h.1
  have hfe : (ctrlIn cfg s x).instrFetchErr = false := h.2.1
  simp only [ctrlOut, Ctrl.out, h.2.2, Ctrl.decodeOut, hv, Ctrl.specialReqBranch,
    Ctrl.instrFetchErr, hfe]
  simp [ctrlIn]

/-- An instruction that stalls does not go beyond the state `FLUSH`. -/
theorem ctrlFsm_next_of_stall (h : s.ctrl.ctrlFsm = .decode) (hs : stallId cfg s x = true) :
    (next cfg s x).ctrl.ctrlFsm = .flush ∨ (next cfg s x).ctrl.ctrlFsm = .decode := by
  have hst : (ctrlIn cfg s x).stall = true := hs
  rw [ctrlFsm_next_decode h]
  simp only [Ctrl.decodeOut, hst]
  split_ifs <;> simp_all

/-- An instruction that is complete and still kept in ID ends the state `DECODE`. -/
theorem next_of_haltIf (h : s.ctrl.ctrlFsm = .decode) (hs : stallId cfg s x = false)
    (hh : (ctrlOut cfg s x).haltIf = true) :
    (next cfg s x).ctrl.ctrlFsm = .flush ∨ (next cfg s x).ctrl.ctrlFsm = .dbgTakenIf ∨
      ((next cfg s x).ctrl.ctrlFsm = .irqTaken ∧
        s.ctrl.specialReqAll (ctrlIn cfg s x) = false ∧
        s.ctrl.enterDebugMode (ctrlDec cfg s x) = false ∧
        s.ctrl.handleIrq (ctrlDec cfg s x) = true) := by
  have hst : (ctrlIn cfg s x).stall = false := hs
  have hdec : (ctrlIn cfg s x).toCtrlDec = ctrlDec cfg s x := rfl
  rw [ctrlFsm_next_decode h]
  simp only [ctrlOut, Ctrl.out, h, Ctrl.decodeOut, hst, hdec] at hh ⊢
  cases hsp : s.ctrl.specialReqAll (ctrlIn cfg s x) <;>
    cases hdb : s.ctrl.enterDebugMode (ctrlDec cfg s x) <;>
    cases hir : s.ctrl.handleIrq (ctrlDec cfg s x) <;> simp_all

/-- A load or store without an error in its response asks for nothing special. -/
theorem special_of_mem (h : Executing s) (hm : memInsn cfg s = true) :
    s.ctrl.specialReqAll (ctrlIn cfg s x) = Ctrl.excReqLsu (ctrlDec cfg s x) := by
  have ho := onlyMem hm
  have hill : illegalCsrInsn cfg s x = false := by simp [illegalCsrInsn, ho.csrAccess]
  have hcsr : csrOpEn cfg s x = false := by
    simp [csrOpEn, IdStage.csrOpEn, ho.csrAccess]
  simp [Ctrl.specialReqAll, Ctrl.mretInsn, Ctrl.dretInsn, Ctrl.wfiInsn, Ctrl.csrPipeFlush,
    Ctrl.excReqD, Ctrl.ecallInsn, Ctrl.ebrkInsn, Ctrl.illegalInsnD, Ctrl.illegalDret,
    Ctrl.illegalUmode, Ctrl.instrFetchErr, ctrlIn, ctrlDec, csrPipeFlush, ho.mretInsn,
    ho.dretInsn, ho.wfiInsn, ho.ecallInsn, ho.ebrkInsn, ho.illegalInsn, hill, hcsr, h.2.1]

/-- The LSU reports an error with a response only. -/
theorem excReqLsu_of_not_lsuValid (h : lsuValid cfg s x = false) :
    Ctrl.excReqLsu (ctrlDec cfg s x) = false := by
  simp only [lsuValid] at h
  simp [Ctrl.excReqLsu, ctrlDec, Lsu.loadErr, Lsu.storeErr, h]

/-- A load or store is complete with its response. -/
theorem multicycleDone_of_mem (hm : memInsn cfg s = true) :
    IdStage.multicycleDone cfg s.idFsm (idIn cfg s x) = lsuValid cfg s x := by
  simp [IdStage.multicycleDone, hm]

/-- A load or store waits for its response. -/
theorem mem_stays (h : Executing s) (hm : memInsn cfg s = true)
    (hl : lsuValid cfg s x = false) : MemActive cfg (next cfg s x) := by
  have hstall : stallId cfg s x = true := by
    simp [stallId, IdStage.stallId, IdStage.stallMem, h.1, hm, hl]
  have hspecial : s.ctrl.specialReqAll (ctrlIn cfg s x) = false := by
    rw [special_of_mem h hm, excReqLsu_of_not_lsuValid hl]
  obtain ⟨hv', hm', he'⟩ := next_of_stall h.1 hstall (flushId_of_executing h)
  have hc' : (next cfg s x).ctrl.ctrlFsm = .decode := by
    have hst : (ctrlIn cfg s x).stall = true := hstall
    simp [ctrlFsm_next_decode h.2.2, Ctrl.decodeOut, hspecial, hst]
  have hid : (next cfg s x).idFsm = .multiCycle := by
    have hx : IdStage.instrExecuting (idIn cfg s x) = true := instrExecuting_iff.mpr h
    have hnext : (next cfg s x).idFsm = (idOut cfg s x).idFsmD := rfl
    cases hfsm : s.idFsm with
    | firstCycle =>
        have hmain : IdStage.main cfg s.idFsm (idIn cfg s x) = main cfg s := idStage_main
        rw [hfsm] at hmain
        simp [hnext, idOut, IdStage.fsmOut, hx, hfsm, hmain, hm]
    | multiCycle =>
        rw [hnext, idOut, hfsm, (IdStage.fsmOut_multiCycle cfg _ hx).2.2, ← hfsm,
          multicycleDone_of_mem hm, hl]
        rfl
  exact ⟨⟨hv', he'.trans h.2.1, hc'⟩, hid, hm'.trans hm⟩

/-! ### The LSU and the bus -/

/-- How many requests are unanswered in each state of the LSU. -/
def LsuBus (s : Core) : Prop :=
  match s.lsu.lsFsm with
  | .idle => (s.lsu.pmpErrQ = true → s.outstanding = 0) ∧ s.outstanding ≤ 1
  | .waitGntMis | .waitGnt => s.outstanding = 0
  | .waitRvalidMis => s.outstanding = if s.lsu.pmpErrQ then 0 else 1
  | .waitRvalidMisGntsDone => s.outstanding = 2 ∧ s.lsu.pmpErrQ = false

section LsuIn

variable {r : Bool}

/-- The LSU sees the request of ID. -/
@[simp] theorem lsuIn_lsuReq : (lsuIn cfg s x r).lsuReq = r := rfl

/-- It sees the grant of the bus. -/
@[simp] theorem lsuIn_dataGnt : (lsuIn cfg s x r).dataGnt = x.dataGnt := rfl

/-- It sees the response of the bus. -/
@[simp] theorem lsuIn_dataRvalid : (lsuIn cfg s x r).dataRvalid = x.dataRvalid := rfl

/-- It sees the verdict of the PMP. -/
@[simp] theorem lsuIn_dataPmpErr : (lsuIn cfg s x r).dataPmpErr = x.dataPmpErr := rfl

end LsuIn

/-- A grant answers a request that the PMP lets through. -/
theorem of_dataGnt (hok : BusOk cfg s x) (h : x.dataGnt = true) :
    (lsuStep cfg s x).dataReq = true ∧ x.dataPmpErr = false := by
  have := hok.gnt h
  simpa [dataReq] using this

/-- There is no response to an empty bus. -/
theorem not_dataRvalid (hok : BusOk cfg s x) (h : s.outstanding = 0) : x.dataRvalid = false := by
  cases hr : x.dataRvalid with
  | false => rfl
  | true => exact absurd h (hok.rvalid hr)

/-- One cycle keeps the count of the requests. -/
theorem lsuBus_next (hok : BusOk cfg s x) (hb : LsuBus s)
    (hq : lsuReq cfg s x = true → s.outstanding = 0) : LsuBus (next cfg s x) := by
  refine Lsu.bus_next (n := s.outstanding) hb
    ⟨of_dataGnt hok, hok.rvalid, hok.pmpWait, hok.pmpGranted, ?_⟩
  intro _ hr
  have hnone := hq hr
  have hrv : (lsuIn cfg s x (lsuReq cfg s x)).dataRvalid = false := not_dataRvalid hok hnone
  rw [hnone, hrv]
  rfl

/-! ### The invariant -/

/-- The LSU and the bus are only at work for the load or store that waits in ID, and a
branch that is still to be taken is in its later cycle. -/
structure Inv (cfg : Config) (s : Core) : Prop where
  bus : LsuBus s
  active : s.lsu.busy = true ∨ s.outstanding ≠ 0 ∨ s.lsu.pmpErrQ = true → MemActive cfg s
  branch : s.branchSetQ = true → Executing s → s.idFsm = .multiCycle

/-- After a reset nothing is under way. -/
theorem inv_reset : Inv cfg reset :=
  ⟨⟨fun _ => rfl, Nat.zero_le 1⟩, by simp [reset, Lsu.reset, Lsu.busy], by simp [reset]⟩

/-- ID asks the LSU for an access in the first cycle of a load or store. -/
theorem of_lsuReq (h : lsuReq cfg s x = true) :
    Executing s ∧ s.idFsm = .firstCycle ∧ memInsn cfg s = true := by
  simp only [lsuReq, IdStage.lsuReq] at h
  split at h
  case isTrue hx =>
      simp only [Bool.and_eq_true, IdStage.instrFirstCycle, idStage_main, main_dataReq] at h
      exact ⟨instrExecuting_iff.mp hx, by simpa using h.1.2, h.2⟩
  case isFalse => simp at h

/-- Without a load or store under way the LSU and the bus rest. -/
theorem Inv.rest (hi : Inv cfg s) (h : ¬ MemActive cfg s) :
    s.lsu.busy = false ∧ s.outstanding = 0 ∧ s.lsu.pmpErrQ = false := by
  have := mt hi.active h
  simpa using this

/-- A load or store in its first cycle is not under way yet. -/
theorem not_memActive_of_lsuReq (h : lsuReq cfg s x = true) : ¬ MemActive cfg s := by
  intro hm
  have hf := (of_lsuReq h).2.1
  rw [hm.2.1] at hf
  cases hf

/-- The response that completes an access comes to a load or store under way. -/
theorem Inv.of_lsuValid (hi : Inv cfg s) (hok : BusOk cfg s x) (h : lsuValid cfg s x = true) :
    MemActive cfg s ∧ s.lsu.lsFsm = .idle := by
  simp only [lsuValid, Lsu.lsuRespValid, lsuIn_dataRvalid, Bool.and_eq_true, Bool.or_eq_true,
    beq_iff_eq] at h
  refine ⟨hi.active ?_, h.2⟩
  obtain h | h := h.1
  · exact Or.inr (Or.inl (hok.rvalid h))
  · exact Or.inr (Or.inr h)

/-- An idle LSU without a request stays idle and asks for nothing. -/
theorem rest_next (hok : BusOk cfg s x) (hf : s.lsu.lsFsm = .idle)
    (hr : lsuReq cfg s x = false) :
    (next cfg s x).lsu.lsFsm = .idle ∧ (next cfg s x).lsu.pmpErrQ = false ∧
      (next cfg s x).outstanding = s.outstanding - x.dataRvalid.toNat := by
  have hg : x.dataGnt = false := by
    cases hg : x.dataGnt with
    | false => rfl
    | true =>
        have := (of_dataGnt hok hg).1
        simp [lsuStep, Lsu.step_dataReq, hf, hr] at this
  simp [next, Lsu.next, Lsu.step, hf, hr, hg]

/-- With the response that completes it an access is over. -/
theorem rest_of_lsuValid (hi : Inv cfg s) (hok : BusOk cfg s x) (h : lsuValid cfg s x = true) :
    (next cfg s x).lsu.busy = false ∧ (next cfg s x).outstanding = 0 ∧
      (next cfg s x).lsu.pmpErrQ = false := by
  obtain ⟨hm, hf⟩ := hi.of_lsuValid hok h
  have hreq : lsuReq cfg s x = false := by
    cases hr : lsuReq cfg s x with
    | false => rfl
    | true => exact absurd hm (not_memActive_of_lsuReq hr)
  obtain ⟨hf', hp', ho'⟩ := rest_next hok hf hreq
  have hb := hi.bus
  simp only [LsuBus, hf] at hb
  have hout : s.outstanding - x.dataRvalid.toNat = 0 := by
    cases hr : x.dataRvalid with
    | true =>
        simp only [Bool.toNat_true]
        omega
    | false =>
        have hp : s.lsu.pmpErrQ = true := by
          simpa [lsuValid, Lsu.lsuRespValid, hr, hf] using h
        simp [hb.1 hp]
  exact ⟨by simp [Lsu.busy, hf'], ho'.trans hout, hp'⟩

/-- Where no load or store executes the LSU stays at rest. -/
theorem rest_of_not_mem (hi : Inv cfg s) (hok : BusOk cfg s x)
    (h : ¬ (Executing s ∧ memInsn cfg s = true)) :
    (next cfg s x).lsu.busy = false ∧ (next cfg s x).outstanding = 0 ∧
      (next cfg s x).lsu.pmpErrQ = false := by
  obtain ⟨hb, ho, hp⟩ := hi.rest fun hm => h ⟨hm.1, hm.2.2⟩
  have hf : s.lsu.lsFsm = .idle := by simpa [Lsu.busy] using hb
  have hreq : lsuReq cfg s x = false := by
    cases hr : lsuReq cfg s x with
    | false => rfl
    | true => exact absurd ⟨(of_lsuReq hr).1, (of_lsuReq hr).2.2⟩ h
  obtain ⟨hf', hp', ho'⟩ := rest_next hok hf hreq
  exact ⟨by simp [Lsu.busy, hf'], by simp [ho', ho], hp'⟩

/-- After one cycle, too, the LSU and the bus work for the load or store in ID only. -/
theorem active_next (hi : Inv cfg s) (hok : BusOk cfg s x)
    (h : (next cfg s x).lsu.busy = true ∨ (next cfg s x).outstanding ≠ 0 ∨
      (next cfg s x).lsu.pmpErrQ = true) : MemActive cfg (next cfg s x) := by
  by_cases hm : Executing s ∧ memInsn cfg s = true
  · cases hl : lsuValid cfg s x with
    | false => exact mem_stays hm.1 hm.2 hl
    | true =>
        have := rest_of_lsuValid hi hok hl
        simp [this] at h
  · have := rest_of_not_mem hi hok hm
    simp [this] at h

/-- Other instructions than loads and stores do not wait for the memory. -/
theorem Inv.stallMem (hi : Inv cfg s) (h : memInsn cfg s = false) :
    IdStage.stallMem cfg s.idFsm (idIn cfg s x) = false := by
  have hb := (hi.rest fun hm => by simp [hm.2.2] at h).1
  simp [IdStage.stallMem, hb, h]

/-- A branch that is set is taken at once or in its later cycle. -/
theorem branch_next (hi : Inv cfg s) (h : (next cfg s x).branchSetQ = true)
    (hx : Executing (next cfg s x)) : (next cfg s x).idFsm = .multiCycle := by
  have hset : (IdStage.fsmOut cfg s.idFsm (idIn cfg s x)).branchSetD = true := h
  obtain ⟨he, -, hm, hd⟩ := IdStage.fsmOut_of_branchSetD cfg _ _ hset
  rw [idIn_dataIndTiming] at hd
  split_ifs at hd with hc
  case neg => exact hd
  -- the branch is taken in this cycle, so no other instruction is behind it
  rw [instrExecuting_iff] at he
  rw [idStage_main, main_dataReq] at hm
  have hstall : stallId cfg s x = false := (hd : stallId cfg s x = _).trans (hi.stallMem hm)
  have hpc : (ctrlOut cfg s x).pcSet = true := by
    rw [pcSet_of_executing he, branchSet, if_pos hc]
    simp [idOut, hset]
  have hdel : deliver cfg s x = false := by simp [deliver, hpc]
  obtain ⟨-, -, hh, -⟩ := instr_next hdel hx.1
  have hhalt : (ctrlOut cfg s x).haltIf = true := by simpa [hstall] using hh
  obtain hn | hn | ⟨hn, -⟩ := next_of_haltIf he.2.2 hstall hhalt <;>
    · rw [hx.2.2] at hn
      cases hn

/-- The invariant survives every cycle in which the bus keeps to its protocol. -/
theorem inv_next (hi : Inv cfg s) (hok : BusOk cfg s x) : Inv cfg (next cfg s x) where
  bus := lsuBus_next hok hi.bus fun hr => (hi.rest (not_memActive_of_lsuReq hr)).2.1
  active := active_next hi hok
  branch := branch_next hi

end Core

end CocoIbex
