import CocoIbex.WbCoreStep
import CocoIbex.WholeRest

/-!
# The Assertions of the Controller and of ID

The assertions of `ibex_controller`, `ibex_id_stage`, `ibex_wb_stage` and `ibex_core` over the
runs of the whole hart. A jump or branch that redirects the fetch asks for nothing special, in
that cycle or later, and goes on in its later cycle or leaves. The LSU answers to the load or
store in ID, so the data of a load goes to the register that this load names.

The assertions are kept as the source states them, on the signals of one cycle (`Asserts`), with
the two that look at the next cycle beside them (`Redirects`). A response and the access that it
answers are cycles apart, so what the LSU was asked for is kept in a history (`Requested`), and
`AssertInv` ties it to the instruction in ID: the one that waits for its response is the one
that has made the request.

The write of a load is stated as the register file stores it (`Loaded`), in the builds with and
without masked writes: behind a write of the LSU the register `rd` of the word that has asked
for the data holds the data, unless it is `x0`.

## Main results

* `assertInv_next` — the step lemma;
* `assertions_hold` — in every run on a bus that keeps to its protocol all assertions hold.
-/

namespace CocoIbex

namespace HartObs

variable {n : ℕ} (P : HartParams) (o : HartObs n) (x : HartIn)

/-- `branch_set`. -/
def branchSet : Bool := Core.branchSet P.cfg o.core (o.coreIn P x)

/-- `jump_set`. -/
def jumpSet : Bool := (Core.idOut P.cfg o.core (o.coreIn P x)).jumpSet

/-- `special_req_all`. -/
def specialReqAll : Bool :=
  o.core.ctrl.specialReqAll (Core.ctrlIn P.cfg o.core (o.coreIn P x))

/-- A jump, branch or FENCE.I executes. -/
def Redirecting : Prop :=
  Core.Executing o.core ∧
    ((Core.main P.cfg o.core).branchInDec = true ∨ (Core.main P.cfg o.core).jumpInDec = true)

variable {P o x}

/-! ### Jumps and branches -/

/-- What an instruction is does not depend on its cycle. -/
theorem inDec_congr {o' : HartObs n} (hreg : o'.core.ifId = o.core.ifId) :
    (Core.main P.cfg o'.core).branchInDec = (Core.main P.cfg o.core).branchInDec ∧
      (Core.main P.cfg o'.core).jumpInDec = (Core.main P.cfg o.core).jumpInDec := by
  have hmain : ∀ s : Core, Core.main P.cfg s = mainDecode P.cfg
      (s.ifId.instrValidId && s.idFsm == .firstCycle) s.ifId.illegalCInsnId
      s.ifId.instrRdataId := fun _ => rfl
  rw [hmain, hmain, hreg]
  obtain ⟨hb, hj, -⟩ := mainDecode_inDec P.cfg
    (o.core.ifId.instrValidId && o.core.idFsm == .firstCycle) o.core.ifId.illegalCInsnId
    o.core.ifId.instrRdataId
  obtain ⟨hb', hj', -⟩ := mainDecode_inDec P.cfg
    (o.core.ifId.instrValidId && o'.core.idFsm == .firstCycle) o.core.ifId.illegalCInsnId
    o.core.ifId.instrRdataId
  have hl := mainDecode_illegalInsn P.cfg
    (o.core.ifId.instrValidId && o'.core.idFsm == .firstCycle)
    (o.core.ifId.instrValidId && o.core.idFsm == .firstCycle) o.core.ifId.illegalCInsnId
    o.core.ifId.instrRdataId
  refine ⟨?_, ?_⟩
  · rw [Bool.eq_iff_iff, hb, hb', hl]
  · rw [Bool.eq_iff_iff, hj, hj', hl]

/-- An instruction that goes on stays what it is. -/
theorem Redirecting.congr {o' : HartObs n} (h : Redirecting P o)
    (hx : Core.Executing o'.core) (hreg : o'.core.ifId = o.core.ifId) : Redirecting P o' := by
  obtain ⟨hb, hj⟩ := inDec_congr (P := P) hreg
  refine ⟨hx, ?_⟩
  rw [hb, hj]
  exact h.2

/-- A jump or branch is no load or store. -/
theorem Redirecting.not_mem (h : Redirecting P o) : Core.memInsn P.cfg o.core = false := by
  have hx := @IdStage.inDec_exclusive P.cfg o.core.idFsm (o.idIn P .idle) h.2
  exact Core.main_dataReq.symm.trans hx.1

/-- It is no system instruction. -/
theorem Redirecting.plain (hi : Inv P o) (h : Redirecting P o) :
    (Core.main P.cfg o.core).Plain := by
  have hlast : IdStage.Lasting P.cfg o.core.idFsm (o.idIn P .idle) :=
    h.2.elim (fun h => Or.inr (Or.inr (Or.inl h))) (fun h => Or.inr (Or.inr (Or.inr (Or.inl h))))
  exact Core.plain_of_lasting (fromWord hi h.1) hlast

/-- It asks for nothing special. -/
theorem special_of_redirecting (hi : Inv P o) (hok : BusOk P o x) (h : Redirecting P o) :
    o.specialReqAll P x = false := by
  rw [specialReqAll, Core.special_of_plain h.1 (h.plain hi)]
  refine Core.excReqLsu_of_not_lsuValid ?_
  by_contra hne
  have hact := (hi.core.of_lsuValid hok ((Bool.not_eq_false _).mp hne)).1
  cases h.not_mem.symm.trans hact.2.2

/-- Only a jump or branch comes to be set. -/
theorem inDec_of_fsmOut (hset :
    (IdStage.fsmOut P.cfg o.core.idFsm (o.idIn P x)).branchSetD = true ∨
      (IdStage.fsmOut P.cfg o.core.idFsm (o.idIn P x)).jumpSet = true) :
    (Core.main P.cfg o.core).branchInDec = true ∨ (Core.main P.cfg o.core).jumpInDec = true := by
  have hdec := IdStage.inDec_of_fsmOut P.cfg o.core.idFsm (o.idIn P x) hset
  have hmain : IdStage.main P.cfg o.core.idFsm (o.idIn P x) = Core.main P.cfg o.core := rfl
  rwa [hmain] at hdec

/-- A branch that is still to be set is in its later cycle. -/
def BranchHeld (P : HartParams) (o : HartObs n) : Prop :=
  o.core.branchSetQ = true →
    (P.branchTargetALU && !o.csr.dataIndTiming P.toCsrParams) = false →
      Redirecting P o ∧ o.core.idFsm = .multiCycle

/-- A branch that is taken and not yet set is in its later cycle in the next one. -/
theorem branchHeld_next (hi : Inv P o) (hok : BusOk P o x) : BranchHeld P (o.next P x) := by
  intro hq hc
  have hset : (IdStage.fsmOut P.cfg o.core.idFsm (o.idIn P x)).branchSetD = true := hq
  obtain ⟨he, hfirst, -, -⟩ := IdStage.fsmOut_of_branchSetD P.cfg _ _ hset
  have hx := executing_iff.mp he
  have hr : Redirecting P o := ⟨hx, inDec_of_fsmOut (Or.inl hset)⟩
  rw [csr_next_of_executing hx (hr.plain hi).csrAccess] at hc
  have hs : Core.stallId P.cfg o.core (o.coreIn P x) = true :=
    IdStage.stallId_of_branchSetD P.cfg _ _ hset hc
  obtain ⟨-, hx', -, hreg, hm⟩ := next_of_stall hi hok hx hs
  exact ⟨hr.congr hx' hreg, hm⟩

/-- Only a jump or branch is set. -/
theorem redirecting_of_set (hb : BranchHeld P o)
    (h : o.branchSet P x = true ∨ o.jumpSet P x = true) : Redirecting P o := by
  have hd : ∀ hset : (IdStage.fsmOut P.cfg o.core.idFsm (o.idIn P x)).branchSetD = true ∨
      (IdStage.fsmOut P.cfg o.core.idFsm (o.idIn P x)).jumpSet = true, Redirecting P o := by
    intro hset
    refine ⟨?_, inDec_of_fsmOut hset⟩
    obtain hset | hset := hset
    · exact executing_iff.mp (IdStage.fsmOut_of_branchSetD P.cfg _ _ hset).1
    · exact executing_iff.mp (IdStage.fsmOut_of_jumpSet P.cfg _ _ hset).1
  obtain h | h := h
  · rw [branchSet, Core.branchSet] at h
    split_ifs at h with hc
    · exact hd (Or.inl h)
    · exact (hb h ((Bool.not_eq_true _).mp hc)).1
  · exact hd (Or.inr h)

/-- What executes behind a redirected fetch is the same instruction in its later cycle. -/
theorem next_of_set (hi : Inv P o) (hok : BusOk P o x) (hb : BranchHeld P o)
    (h : o.branchSet P x = true ∨ o.jumpSet P x = true)
    (hx' : Core.Executing (o.next P x).core) :
    (o.next P x).core.idFsm = .multiCycle ∧ (o.next P x).csr = o.csr := by
  have hr := redirecting_of_set hb h
  have hx := hr.1
  have hset : (Core.ctrlOut P.cfg o.core (o.coreIn P x)).pcSet = true := by
    rw [Core.pcSet_of_executing hx, Bool.or_eq_true]
    exact h
  have hdel : Core.deliver P.cfg o.core (o.coreIn P x) = false := by
    simp [Core.deliver, hset]
  obtain ⟨-, -, hh, -⟩ := Core.instr_next hdel hx'.1
  have hs : Core.stallId P.cfg o.core (o.coreIn P x) = true := by
    by_contra hne
    rw [Bool.not_eq_true] at hne
    have hhalt := hh.resolve_left (by simp [hne])
    obtain hn | hn | ⟨hn, -⟩ := Core.next_of_haltIf hx.2.2 hne hhalt <;>
      cases hx'.2.2.symm.trans hn
  exact ⟨(next_of_stall hi hok hx hs).2.2.2.2,
    csr_next_of_executing hx (hr.plain hi).csrAccess⟩

/-- `NeverDoubleBranch`. -/
theorem branchSet_next (hi : Inv P o) (hok : BusOk P o x) (hb : BranchHeld P o)
    (h : o.branchSet P x = true) (x' : HartIn) : (o.next P x).branchSet P x' = false := by
  by_contra hne
  have hset' := (Bool.not_eq_false _).mp hne
  have hr' := redirecting_of_set (branchHeld_next hi hok) (Or.inl hset')
  obtain ⟨hm, hcsr⟩ := next_of_set hi hok hb (Or.inl h) hr'.1
  have hd' : (Core.idOut P.cfg (o.next P x).core ((o.next P x).coreIn P x')).branchSetD
      = false := by
    have hx' := @executing_iff n P (o.next P x) x'
    rw [Core.idOut, hm]
    exact (IdStage.fsmOut_multiCycle P.cfg _ (hx'.mpr hr'.1)).1
  have hdit : ((o.next P x).coreIn P x').dataIndTiming = (o.coreIn P x).dataIndTiming :=
    congrArg (CsRegs.dataIndTiming P.toCsrParams) hcsr
  rw [branchSet, Core.branchSet] at hset' h
  rw [hd', hdit] at hset'
  split_ifs at hset' h with hc
  · -- the branch is held, so it was in its later cycle before
    have hm' := (hb h ((Bool.not_eq_true _).mp hc)).2
    have hx := (hb h ((Bool.not_eq_true _).mp hc)).1.1
    have hd : (Core.idOut P.cfg o.core (o.coreIn P x)).branchSetD = false := by
      rw [Core.idOut, hm']
      exact (IdStage.fsmOut_multiCycle P.cfg _ (executing_iff.mpr hx)).1
    cases hset'.symm.trans hd

/-- `NeverDoubleJump`. -/
theorem jumpSet_next (hi : Inv P o) (hok : BusOk P o x) (hb : BranchHeld P o)
    (h : o.jumpSet P x = true) (x' : HartIn) : (o.next P x).jumpSet P x' = false := by
  by_contra hne
  have hset' := (Bool.not_eq_false _).mp hne
  have hr' := redirecting_of_set (branchHeld_next hi hok) (Or.inr hset')
  obtain ⟨hm, -⟩ := next_of_set hi hok hb (Or.inr h) hr'.1
  have hx' := @executing_iff n P (o.next P x) x'
  rw [jumpSet, Core.idOut, hm] at hset'
  cases hset'.symm.trans (IdStage.fsmOut_multiCycle P.cfg _ (hx'.mpr hr'.1)).2.1

/-- `StallIDIfMulticycle`. -/
theorem stallId_of_multicycle (hi : Inv P o) (hf : o.core.idFsm = .firstCycle)
    (hd : (Core.idOut P.cfg o.core (o.coreIn P x)).idFsmD = .multiCycle) :
    Core.stallId P.cfg o.core (o.coreIn P x) = true := by
  by_cases hx : Core.Executing o.core
  · have hb : o.core.lsu.busy = false := (hi.core.rest fun h => by cases hf.symm.trans h.2.1).1
    have h := (@IdStage.stallId_firstCycle P.cfg (o.idIn P x) (executing_iff.mpr hx) hb).mpr
    rw [Core.idOut, hf] at hd
    rw [← hf] at h
    rw [← hf] at hd
    exact h hd
  · have hout : Core.idOut P.cfg o.core (o.coreIn P x) = _ := Core.idOut_of_not_executing hx
    rw [hout, hf] at hd
    cases hd

/-! ### A redirected fetch and exceptions -/

/-- What has redirected the fetch and is not over is a jump or branch. -/
def RedirectHeld (P : HartParams) (o : HartObs n) : Prop :=
  o.target.isSome = true → o.core.ifId.instrValidId = true → o.ended = false → Redirecting P o

/-- What has redirected the fetch is a jump or branch as long as it is in ID. -/
theorem redirectHeld_next (hi : Inv P o) (hok : BusOk P o x) (hb : BranchHeld P o)
    (hr : RedirectHeld P o) : RedirectHeld P (o.next P x) := by
  intro ht hv he
  have hd : o.deliver P x = false := by
    by_contra hne
    have hnone : (o.next P x).target = none := if_pos ((Bool.not_eq_false _).mp hne)
    simp [hnone] at ht
  have he' : o.ended = false ∧ o.ends P x = false := by simpa [next, hd] using he
  obtain ⟨hv', -, -⟩ := kept_next hd hv
  have hfsm := (hi.running hv' he'.1).1
  obtain ⟨hs, hsp⟩ := of_not_ends hfsm hv' he'.2
  -- a fetch error is special
  have hferr : o.core.instrFetchErrId = false := by
    by_contra hne
    have herr : (Core.ctrlDec P.cfg o.core (o.coreIn P x)).instrFetchErr = true :=
      (Bool.not_eq_false _).mp hne
    have hval : (Core.ctrlDec P.cfg o.core (o.coreIn P x)).instrValid = true := hv'
    have hdec : (Core.ctrlIn P.cfg o.core (o.coreIn P x)).toCtrlDec
        = Core.ctrlDec P.cfg o.core (o.coreIn P x) := rfl
    simp [Ctrl.specialReqAll, Ctrl.excReqD, Ctrl.instrFetchErr, hdec, herr, hval, hfsm] at hsp
  have hx : Core.Executing o.core := ⟨hv', hferr, hfsm⟩
  obtain ⟨-, hx', -, hreg, -⟩ := next_of_stall hi hok hx hs
  refine Redirecting.congr ?_ hx' hreg
  have htarget : (o.next P x).target = (o.redirect P x).or o.target := by simp [next, hd]
  rw [htarget] at ht
  cases hset : (o.hart.ctrlOut P x).pcSet with
  | true =>
      have hset' : (Core.ctrlOut P.cfg o.core (o.coreIn P x)).pcSet = true := hset
      rw [Core.pcSet_of_executing hx, Bool.or_eq_true] at hset'
      exact redirecting_of_set hb hset'
  | false =>
      have hnone : o.redirect P x = none := by simp [redirect, hset]
      rw [hnone, Option.none_or] at ht
      exact hr ht hv' he'.1

/-- An instruction that asks for nothing special raises no exception. -/
theorem exception_of_not_special (hfsm : o.core.ctrl.ctrlFsm = .decode)
    (hv : o.core.ifId.instrValidId = true) (hs : o.specialReqAll P x = false) :
    o.exception P x = none := by
  by_contra hne
  obtain ⟨⟨c, v⟩, hcv⟩ := Option.ne_none_iff_exists'.mp hne
  have hr := raised_of_exception hfsm hv hcv
  have hdec : (Core.ctrlIn P.cfg o.core (o.coreIn P x)).toCtrlDec = o.ctrlDec P x := rfl
  simp only [specialReqAll, Ctrl.specialReqAll, hdec, Bool.or_eq_false_iff] at hs
  simp only [Ctrl.raised, Bool.or_eq_true] at hr
  obtain hr | hr := hr
  · cases hr.symm.trans hs.1.2
  · cases hr.symm.trans hs.2

/-- In `DECODE` only a jump or branch redirects the fetch. -/
theorem redirecting_of_pcSet (hb : BranchHeld P o) (hfsm : o.core.ctrl.ctrlFsm = .decode)
    (h : (o.hart.ctrlOut P x).pcSet = true) : Redirecting P o := by
  refine redirecting_of_set (x := x) hb ?_
  have hset : (Ctrl.out o.core.ctrl (Core.ctrlIn P.cfg o.core (o.coreIn P x))).pcSet = true := h
  simp only [Ctrl.out, hfsm, Ctrl.decodeOut, Bool.and_eq_true] at hset
  exact Bool.or_eq_true_iff.mp hset.2.1

/-! ### The load or store in ID -/

/-- A load or store past its first cycle was in ID before, without its response. -/
theorem of_memActive_next (hi : Inv P o) (hl : Later P o) (hp : Promised P o x)
    (hm : Core.MemActive P.cfg (o.next P x).core) :
    Core.Executing o.core ∧ Core.memInsn P.cfg o.core = true ∧
      (o.next P x).core.ifId = o.core.ifId ∧
      Core.lsuValid P.cfg o.core (o.coreIn P x) = false := by
  have hx : Core.Executing o.core := by
    by_contra hne
    cases hm.2.1.symm.trans (next_of_not_executing hl hne).1
  have hs : Core.stallId P.cfg o.core (o.coreIn P x) = true := by
    by_contra hne
    rw [Bool.not_eq_true] at hne
    cases hm.2.1.symm.trans (idFsm_next_of_not_stall hi hl hp.ex hx hne)
  have hreg := (next_of_stall hi hp.bus hx hs).2.2.2.1
  have hmem := hm.2.2
  rw [Core.memInsn, hreg] at hmem
  exact ⟨hx, hmem, hreg, Core.lsuValid_of_stall hi.core hp.bus hx hs⟩

/-- After its first grant the LSU has the direction of the access. -/
def WeHeld (P : HartParams) (o : HartObs n) : Prop :=
  Core.MemActive P.cfg o.core →
    o.core.lsu.lsFsm = .idle ∨ o.core.lsu.lsFsm = .waitRvalidMis ∨
      o.core.lsu.lsFsm = .waitRvalidMisGntsDone →
    o.core.lsu.dataWeQ = (Core.main P.cfg o.core).dataWe

/-- The LSU holds the direction of the load or store in ID. -/
theorem weHeld_next (hi : Inv P o) (hl : Later P o) (hp : Promised P o x) (hw : WeHeld P o) :
    WeHeld P (o.next P x) := by
  intro hm' hfsm'
  obtain ⟨hx, hm, hreg, -⟩ := of_memActive_next hi hl hp hm'
  have hdir : (Core.main P.cfg (o.next P x).core).dataWe = (Core.main P.cfg o.core).dataWe := by
    rw [Core.main, Core.main, hreg, mainDecode_dataWe]
    exact (mainDecode_dataWe _ _ _ _).symm
  rw [hdir]
  have hstep : (o.next P x).core.lsu = o.core.lsu.next (o.lsuIn P x) := rfl
  rw [hstep] at hfsm' ⊢
  have hbusy : o.core.lsu.lsFsm ≠ .idle → Core.MemActive P.cfg o.core := fun hne =>
    hi.core.active (Or.inl (by simp [Lsu.busy, hne]))
  have hmis : o.core.lsu.lsFsm = .waitRvalidMis ∨ o.core.lsu.lsFsm = .waitRvalidMisGntsDone →
      o.core.lsu.dataWeQ = (o.lsuIn P x).lsuWe := fun h =>
    hw (hbusy (by obtain h | h := h <;> simp [h])) (Or.inr h)
  obtain hidle | hfsm' := hfsm'
  · by_cases hreq : (o.lsuIn P x).lsuReq = true ∨ o.core.lsu.lsFsm ≠ .idle
    · refine Lsu.dataWeQ_of_lsuReqDone hmis ?_
      have hns : (o.core.lsu.step (o.lsuIn P x)).lsFsmNs = .idle := hidle
      simpa [Lsu.lsuReqDone, hns] using hreq
    · rw [not_or, Bool.not_eq_true, not_not] at hreq
      obtain ⟨hreq, hf⟩ := hreq
      rw [(Lsu.next_of_idle hf hreq).2.1]
      -- without a request it is not the first cycle
      refine hw ⟨hx, ?_, hm⟩ (Or.inl hf)
      cases hfirst : o.core.idFsm with
      | multiCycle => rfl
      | firstCycle =>
          have hstart : o.startsAccess P x = true := by
            simp [startsAccess, executing_iff.mpr hx, hfirst, hm]
          have hl' : (o.lsuIn P x).lsuReq = o.startsAccess P x := lsuReq_eq
          rw [hl', hstart] at hreq
          cases hreq
  · exact Lsu.dataWeQ_of_busy hmis hfsm'

end HartObs

namespace WholeHart

variable {n : ℕ} {m : Multiplier} (P : WholeParams) (h : WholeHart n m) (x : WholeIn)

/-! ### The assertions -/

/-- `branch_set`. -/
def branchSet : Bool := h.arch.obs.branchSet P.toHartParams (h.wired P x)

/-- `jump_set`. -/
def jumpSet : Bool := h.arch.obs.jumpSet P.toHartParams (h.wired P x)

/-- `special_req_all`. -/
def specialReqAll : Bool := h.arch.obs.specialReqAll P.toHartParams (h.wired P x)

/-- `special_req_branch`. -/
def specialReqBranch : Bool :=
  h.core.ctrl.specialReqBranch (Core.ctrlDec P.cfg h.core (h.coreIn P x))

/-- `instr_executing`. -/
def instrExecuting : Bool := IdStage.instrExecuting (h.decIn P)

/-- `stall_id`. -/
def stallId : Bool := Core.stallId P.cfg h.core (h.coreIn P x)

/-- `lsu_req`. -/
def lsuReq : Bool := Core.lsuReq P.cfg h.core (h.coreIn P x)

/-- `rf_we_id`. -/
def rfWeId : Bool := h.arch.rfWeId P.toArchParams (h.archIn P x)

/-- `rf_we_lsu`. -/
def rfWeLsu : Bool := h.arch.rfWeLsu P.toArchParams (h.archIn P x)

/-- `outstanding_load_id`. -/
def outstandingLoadId : Bool :=
  h.instrExecuting P && (Core.main P.cfg h.core).dataReq && !(Core.main P.cfg h.core).dataWe

/-- `outstanding_store_id`. -/
def outstandingStoreId : Bool :=
  h.instrExecuting P && (Core.main P.cfg h.core).dataReq && (Core.main P.cfg h.core).dataWe

/-- The assertions about one cycle. -/
structure Asserts : Prop where
  specialReqAllGivesSpecialReqBranchIfBranchInst :
    h.specialReqAll P x = true → h.branchSet P x = true ∨ h.jumpSet P x = true →
      h.specialReqBranch P x = true
  stallIdIfMulticycle : h.core.idFsm = .firstCycle →
    (Core.idOut P.cfg h.core (h.coreIn P x)).idFsmD = .multiCycle → h.stallId P x = true
  ibexStallIfValidInstrNotExecuting : h.core.ifId.instrValidId = true →
    h.core.instrFetchErrId = false → h.instrExecuting P = false →
      h.core.ctrl.controllerRun = true → h.stallId P x = true
  rfWriteFromOneSourceOnly : ¬ (h.rfWeId P x = true ∧ h.rfWeLsu P x = true)
  noMemRfWriteWithoutPendingLoad : h.rfWeLsu P x = true → h.outstandingLoadId P = true
  noMemResponseWithoutPendingAccess : x.dataRvalid = true →
    h.outstandingLoadId P = true ∨ h.outstandingStoreId P = true

/-- The instruction in ID redirects the fetch, in this cycle or before. -/
def Redirects : Prop :=
  (h.core.ctrl.ctrlFsm = .decode ∧
    (h.arch.obs.hart.ctrlOut P.toHartParams (h.wired P x)).pcSet = true) ∨
  (h.core.ifId.instrValidId = true ∧ h.arch.obs.ended = false ∧
    h.arch.obs.target.isSome = true)

/-- The access of the instruction in ID after the inputs `ins`: one cycle has requested it, on
an empty bus, no other one since, and the instruction that requested it is still in ID. -/
def Requested (s : WholeHart n m) (ins : List WholeIn) : Prop :=
  ∃ pre y post, ins = pre ++ y :: post ∧
    (Machine.run (next P) s pre).lsuReq P y = true ∧
    (Machine.run (next P) s pre).core.outstanding = 0 ∧
    (∀ q z, q ++ [z] <+: post → (Machine.run (next P) s (pre ++ y :: q)).lsuReq P z = false) ∧
    (Machine.run (next P) s ins).core.ifId = (Machine.run (next P) s pre).core.ifId

/-- The data of the LSU is in the register that the instruction in ID names, and no other
register has changed. -/
def Loaded : Prop :=
  (h.next P x).arch.rf = h.arch.rf.write true (rfWaddr h.core.ifId.instrRdataId)
    (h.core.lsu.lsuRdata (h.arch.obs.lsuIn P.toHartParams (h.wired P x)))

variable {P h x}

/-! ### Every run -/

/-- What holds in every cycle of a run. -/
structure AssertInv (P : WholeParams) (h : WholeHart n m) : Prop where
  base : Inv P h
  branch : HartObs.BranchHeld P.toHartParams h.arch.obs
  redirect : HartObs.RedirectHeld P.toHartParams h.arch.obs
  we : HartObs.WeHeld P.toHartParams h.arch.obs

/-- Nothing is under way after a reset. -/
theorem assertInv_reset (P : WholeParams) (a : BitVec 31) : AssertInv P (reset n m a) where
  base := inv_reset P a
  branch := fun h => nomatch h
  redirect := fun h => nomatch h
  we := fun h => nomatch h.2.1

/-- **Step lemma.** The invariant survives every cycle of a bus that keeps to its protocol. -/
theorem assertInv_next (hi : AssertInv P h) (hok : BusOk P h x) : AssertInv P (h.next P x) := by
  have hp := promised hi.base hok
  exact
    { base := inv_next hi.base hok
      branch := HartObs.branchHeld_next hi.base.obs hp.bus
      redirect := HartObs.redirectHeld_next hi.base.obs hp.bus hi.branch hi.redirect
      we := HartObs.weHeld_next hi.base.obs hi.base.later hp hi.we }

/-- The invariant holds after every run. -/
theorem assertInv_run (P : WholeParams) (a : BitVec 31) {ins : List WholeIn}
    (hok : Machine.Along (next P) (BusOk P) (reset n m a) ins) :
    AssertInv P (Machine.run (next P) (reset n m a) ins) :=
  Machine.run_induction (AssertInv P) (fun _ _ hi hx => assertInv_next hi hx)
    (assertInv_reset P a) hok

/-- A register write of the LSU comes with the response to a load under way. -/
theorem of_rfWeLsu (hi : AssertInv P h) (hok : BusOk P h x) (hw : h.rfWeLsu P x = true) :
    Core.MemActive P.cfg h.core ∧ (Core.main P.cfg h.core).dataWe = false := by
  have hw' : (h.core.lsu.lsFsm == .idle && x.dataRvalid
      && !h.core.lsu.dataOrPmpErr (h.arch.obs.lsuIn P.toHartParams (h.wired P x))
      && !h.core.lsu.dataWeQ) = true := hw
  simp only [Bool.and_eq_true, beq_iff_eq, Bool.not_eq_true'] at hw'
  obtain ⟨⟨⟨hf, hr⟩, -⟩, hwe⟩ := hw'
  have hact := hi.base.obs.core.active (Or.inr (Or.inl (hok.rvalid hr)))
  exact ⟨hact, (hi.we hact (Or.inl hf)).symm.trans hwe⟩

/-- The masks of the secure build let the write of a load pass. -/
theorem writeTransparent_of_memActive (hi : AssertInv P h) (hact : Core.MemActive P.cfg h.core) :
    WriteTransparent P.cfg h.core.ifId := by
  obtain ⟨w, hw⟩ := HartObs.fromWord hi.base.obs hact.1
  have hw : h.core.ifId = IfIdReg.ofWord w := hw
  have hmem := hact.2.2
  rw [Core.memInsn, hw] at hmem
  have hacc : Accepts P.cfg w := (onlyMem_of_dataReq hmem).illegalInsn
  have hraw := (congrArg MainOut.dataReq (hacc.mainDecode true)).symm.trans hmem
  rw [hw]
  exact (writeTransparent_iff hacc).mpr
    ((writeEnabled_iff hacc).mpr (not_writeMaskMissing_of_mem hraw))

/-- The data of a load is written to the register that the load names, in both builds. -/
theorem loaded_of_rfWeLsu (hi : AssertInv P h) (hok : BusOk P h x) (hw : h.rfWeLsu P x = true) :
    h.Loaded P x := by
  obtain ⟨hact, hwe⟩ := of_rfWeLsu hi hok hw
  have hid : h.arch.rfWeId P.toArchParams (h.archIn P x) = false := rfWeId_of_mem hact.2.2
  have hlsu : h.arch.rfWeLsu P.toArchParams (h.archIn P x) = true := hw
  have hnext := ArchHart.rfNext_eq_write (P := P.toArchParams) (h := h.arch) (x := h.archIn P x)
    (fun _ => writeTransparent_of_memActive hi hact)
    (fun _ => ⟨Core.main_dataReq.trans hact.2.2, hwe⟩)
  rw [ArchHart.rfWeWb, ArchHart.rfWdataWb, hid, hlsu, Bool.or_true, if_neg Bool.false_ne_true]
    at hnext
  exact hnext

/-- The load or store under way has its access outstanding in ID. -/
theorem instrExecuting_of_memActive (hm : Core.MemActive P.cfg h.core) :
    (h.instrExecuting P && (Core.main P.cfg h.core).dataReq) = true := by
  have hx : h.instrExecuting P = true :=
    (@Core.instrExecuting_iff P.cfg _ (h.coreIn P .idle)).mpr hm.1
  have hd : (Core.main P.cfg h.core).dataReq = true := Core.main_dataReq.trans hm.2.2
  rw [hx, hd]
  rfl

/-- A jump or branch that is set asks for nothing special. -/
theorem not_special_of_set (hi : AssertInv P h) (hok : BusOk P h x)
    (hset : h.branchSet P x = true ∨ h.jumpSet P x = true) : h.specialReqAll P x = false := by
  have hr := HartObs.redirecting_of_set (x := h.wired P x) hi.branch hset
  exact HartObs.special_of_redirecting hi.base.obs (promised hi.base hok).bus hr

/-- A response comes to the load or store in ID. -/
theorem outstanding_of_dataRvalid (hi : AssertInv P h) (hok : BusOk P h x)
    (hr : x.dataRvalid = true) :
    h.outstandingLoadId P = true ∨ h.outstandingStoreId P = true := by
  have hact := hi.base.obs.core.active (Or.inr (Or.inl (hok.rvalid hr)))
  rw [outstandingLoadId, outstandingStoreId, instrExecuting_of_memActive hact]
  cases (Core.main P.cfg h.core).dataWe with
  | true => exact Or.inr rfl
  | false => exact Or.inl rfl

/-- The assertions hold in a cycle on a bus that keeps to its protocol. -/
theorem asserts (hi : AssertInv P h) (hok : BusOk P h x) : Asserts P h x where
  specialReqAllGivesSpecialReqBranchIfBranchInst := by
    intro hs hset
    rw [not_special_of_set hi hok hset] at hs
    cases hs
  stallIdIfMulticycle :=
    HartObs.stallId_of_multicycle (x := h.wired P x) hi.base.obs
  ibexStallIfValidInstrNotExecuting := by
    intro hv he hx hr
    have hx' : (h.core.ifId.instrValidId && !h.core.instrFetchErrId
        && h.core.ctrl.controllerRun) = false := hx
    simp [hv, he, hr] at hx'
  rfWriteFromOneSourceOnly := by
    rintro ⟨hid, hlsu⟩
    have hno : h.rfWeId P x = false := rfWeId_of_mem (of_rfWeLsu hi hok hlsu).1.2.2
    rw [hno] at hid
    cases hid
  noMemRfWriteWithoutPendingLoad := by
    intro hlsu
    obtain ⟨hact, hwe⟩ := of_rfWeLsu hi hok hlsu
    rw [outstandingLoadId, instrExecuting_of_memActive hact, hwe]
    rfl
  noMemResponseWithoutPendingAccess := outstanding_of_dataRvalid hi hok

/-- An instruction that redirects the fetch raises no exception. -/
theorem exception_of_redirects (hi : AssertInv P h) (hok : BusOk P h x) (hr : h.Redirects P x) :
    h.arch.obs.exception P.toHartParams (h.wired P x) = none := by
  have hred : HartObs.Redirecting P.toHartParams h.arch.obs := by
    obtain ⟨hf, hset⟩ | ⟨hv, he, ht⟩ := hr
    · exact HartObs.redirecting_of_pcSet hi.branch hf hset
    · exact hi.redirect ht hv he
  exact HartObs.exception_of_not_special hred.1.2.2 hred.1.1
    (HartObs.special_of_redirecting hi.base.obs (promised hi.base hok).bus hred)

/-- The access under way was requested by the instruction in ID. -/
theorem requested_of_memActive (P : WholeParams) (a : BitVec 31) {ins : List WholeIn}
    (hok : Machine.Along (next P) (BusOk P) (reset n m a) ins)
    (hm : Core.MemActive P.cfg (Machine.run (next P) (reset n m a) ins).core) :
    Requested P (reset n m a) ins := by
  induction ins using List.reverseRecOn with
  | nil => cases hm.2.1
  | append_singleton ins x ih =>
      obtain ⟨hpre, hx⟩ := Machine.along_concat.mp hok
      have hi := inv_run P a hpre
      have hp := promised hi hx
      rw [Machine.run_concat] at hm
      obtain ⟨hex, hmem, hreg, -⟩ := HartObs.of_memActive_next hi.obs hi.later hp hm
      have hreg' : (Machine.run (next P) (reset n m a) (ins ++ [x])).core.ifId
          = (Machine.run (next P) (reset n m a) ins).core.ifId := by
        rw [Machine.run_concat]
        exact hreg
      have hreq : (Machine.run (next P) (reset n m a) ins).lsuReq P x
          = HartObs.startsAccess P.toHartParams (Machine.run (next P) (reset n m a) ins).arch.obs
              ((Machine.run (next P) (reset n m a) ins).wired P x) := HartObs.lsuReq_eq
      cases hf : (Machine.run (next P) (reset n m a) ins).core.idFsm with
      | firstCycle =>
          have hrest := hi.obs.core.rest fun hact => by cases hf.symm.trans hact.2.1
          have hf' : (Machine.run (next P) (reset n m a) ins).arch.obs.core.idFsm
              = .firstCycle := hf
          refine ⟨ins, x, [], rfl, ?_, hrest.2.1, ?_, hreg'⟩
          · rw [hreq]
            simp [HartObs.startsAccess, HartObs.executing_iff.mpr hex, hf', hmem]
          · intro q z hq
            simp at hq
      | multiCycle =>
          obtain ⟨pre, y, post, rfl, hy, hout, hnone, hsame⟩ := ih hpre ⟨hex, hf, hmem⟩
          refine ⟨pre, y, post ++ [x], by simp, hy, hout, ?_, hreg'.trans hsame⟩
          intro q z hq
          obtain hq | hq := List.prefix_concat_iff.mp hq
          · obtain ⟨rfl, hz⟩ := List.append_inj' hq rfl
            obtain rfl : z = x := by simpa using hz
            have hf' : (Machine.run (next P) (reset n m a) (pre ++ y :: q)).arch.obs.core.idFsm
                = .multiCycle := hf
            rw [hreq]
            simp [HartObs.startsAccess, hf']
          · exact hnone q z hq

variable (n m)

/-- **Assertions of the controller and of ID.** In every run, on every data bus that answers
each granted request once: all assertions hold, no branch and no jump is set in two cycles in
a row, the data of a load is written to the register named by the load that requested it (which
is still the instruction in ID), and what redirects the fetch raises no exception. -/
theorem assertions_hold (P : WholeParams) (a : BitVec 31) (ins : List WholeIn) (x x' : WholeIn)
    (hok : Machine.Along (next P) (BusOk P) (reset n m a) (ins ++ [x])) :
    let h := Machine.run (next P) (reset n m a) ins
    Asserts P h x ∧
      (h.branchSet P x = true → (h.next P x).branchSet P x' = false) ∧
      (h.jumpSet P x = true → (h.next P x).jumpSet P x' = false) ∧
      (h.rfWeLsu P x = true → Requested P (reset n m a) ins ∧ h.Loaded P x) ∧
      (h.Redirects P x → h.arch.obs.exception P.toHartParams (h.wired P x) = none) := by
  intro h
  obtain ⟨hpre, hx⟩ := Machine.along_concat.mp hok
  have hi := assertInv_run P a hpre
  have hp := promised hi.base hx
  refine ⟨asserts hi hx, fun hb => ?_, fun hj => ?_, fun hw => ?_, exception_of_redirects hi hx⟩
  · exact HartObs.branchSet_next hi.base.obs hp.bus hi.branch hb _
  · exact HartObs.jumpSet_next hi.base.obs hp.bus hi.branch hj _
  · exact ⟨requested_of_memActive P a hpre (of_rfWeLsu hi hx hw).1, loaded_of_rfWeLsu hi hx hw⟩

/-- The load `lw x3, 0(x0)` is fetched after a reset and its request is granted. -/
def loadTrace : List WholeIn :=
  [.idle, .idle, .fetch 0x00002183#32, { WholeIn.idle with dataGnt := true }]

/-- The response to the load. -/
def loadData : WholeIn := { WholeIn.idle with dataRvalid := true, dataRdata := 5#32 }

/-- The data comes to the load that requested it, and x3 is 5 in the next cycle. -/
theorem assertions_hold_load :
    let h := Machine.run (next .small) (reset 4 .fast 0#31) loadTrace
    h.rfWeLsu .small loadData = true ∧ Asserts .small h loadData ∧
      Requested .small (reset 4 .fast 0#31) loadTrace ∧
      (h.next .small loadData).arch.rf.read 3#5 = 5#32 := by
  have hall := assertions_hold 4 .fast .small 0#31 loadTrace loadData .idle (by decide +kernel)
  have hw : (Machine.run (next .small) (reset 4 .fast 0#31) loadTrace).rfWeLsu .small loadData
      = true := by decide +kernel
  obtain ⟨hreq, hloaded⟩ := hall.2.2.2.1 hw
  refine ⟨hw, hall.1, hreq, ?_⟩
  rw [hloaded]
  decide +kernel

end WholeHart

end CocoIbex
