import CocoIbex.CoreStep
import CocoIbex.WbCore

/-!
# Steps of the Three-Stage Core

What a cycle of the three-stage core does to a load or store, and the invariant of every run. An
access starts in ID, is held there until its last transaction is granted, and then moves on to
the write-back stage, which is empty by then; while it waits there for its response no
instruction executes. So the LSU still knows in which direction the access of the write-back
stage goes (`Inv.wbLoad`, `Inv.wbStore`).

The invariant has the places at which an access can be: in ID with a transaction that is not
granted yet, in write-back with a response to come, or nowhere, with the LSU at rest and nothing
outstanding on the bus. The stall of an instruction behind an access in write-back is what keeps
these apart, so that there is never an access in both stages with a transaction under way.

## Main results

* `inv_next` and `inv_run` — the invariant survives every run on a bus that keeps to its
  protocol;
* `next_of_stall` — an instruction that stalls stays in ID;
* `of_lsuReq` and `of_instrExecuting` — what is known of an access that is made, and of an
  instruction that executes.
-/

namespace CocoIbex

namespace Lsu

variable {s : Lsu} {x : LsuIn}

/-- An access that is complete has left its direction. -/
theorem dataWeQ_of_lsuReqDone
    (hw : s.lsFsm = .waitRvalidMis ∨ s.lsFsm = .waitRvalidMisGntsDone → s.dataWeQ = x.lsuWe)
    (h : s.lsuReqDone x = true) : (s.next x).dataWeQ = x.lsuWe := by
  cases hf : s.lsFsm <;> simp only [lsuReqDone, next, step, hf] at h hw ⊢ <;> split_ifs at h ⊢ <;>
    simp_all

/-- An access under way that has had its first grant has left its direction. -/
theorem dataWeQ_of_busy
    (hw : s.lsFsm = .waitRvalidMis ∨ s.lsFsm = .waitRvalidMisGntsDone → s.dataWeQ = x.lsuWe)
    (h : (s.next x).lsFsm = .waitRvalidMis ∨ (s.next x).lsFsm = .waitRvalidMisGntsDone) :
    (s.next x).dataWeQ = x.lsuWe := by
  cases hf : s.lsFsm <;> simp only [next, step, hf] at h hw ⊢ <;> split_ifs at h ⊢ <;> simp_all

/-- Without a request an idle LSU stays as it is. -/
theorem next_of_idle (hf : s.lsFsm = .idle) (hr : x.lsuReq = false) :
    (s.next x).lsFsm = .idle ∧ (s.next x).dataWeQ = s.dataWeQ ∧
      (s.next x).addrLastQ = s.addrLastQ := by
  simp [next, step, hf, hr]

end Lsu

namespace IdWb

/-- A load or store without a hazard is stalled by the memory only. -/
theorem stallId_of_mem (cfg : Config) (fsm : IdFsm) (dataReqCompleteQ : Bool) (x : IdWbIn)
    (lsuReqDone : Bool) (hm : (main cfg fsm x).dataReq = true) (hhz : stallLdHz cfg fsm x = false)
    (hr : x.readyWb = true) :
    stallId cfg fsm dataReqCompleteQ x lsuReqDone
      = stallMem cfg fsm dataReqCompleteQ x lsuReqDone := by
  cases hs : stallMem cfg fsm dataReqCompleteQ x lsuReqDone with
  | true => simp [stallId, hs]
  | false =>
      simp only [stallId, hhz, hs, fsmOut, multicycleDone, hm, hr]
      cases instrExecuting cfg fsm x <;> cases fsm <;> cases lsuReqDone <;>
        cases IdStage.multdivEnDec cfg _ x.toIdIn <;> rfl

end IdWb

namespace WbCore

variable {cfg : Config} {s : WbCore} {x : WbCoreIn}

/-! ### What executes -/

/-- The word in ID is a load or store. -/
def memInsn (cfg : Config) (s : WbCore) : Bool :=
  (mainDecode cfg true s.ifId.illegalCInsnId s.ifId.instrRdataId).dataReq

/-- An access of the write-back stage does not finish in this cycle. -/
def outstanding (cfg : Config) (s : WbCore) (x : WbCoreIn) : Bool :=
  (s.wb.outstandingLoadWb || s.wb.outstandingStoreWb) && !lsuValid cfg s x

/-- Whether a word asks for memory does not depend on its cycle. -/
@[simp] theorem main_dataReq : (main cfg s).dataReq = memInsn cfg s := mainDecode_dataReq _ _ _ _

/-- The ID-EX machine decodes the word in ID. -/
@[simp] theorem idWb_main : IdWb.main cfg s.idFsm (idIn cfg s x) = main cfg s := rfl

/-- The ID-EX machine has the access of the instruction outstanding. -/
@[simp] theorem idWb_outstanding :
    IdWb.outstandingMemoryAccess (idIn cfg s x) = outstanding cfg s x := rfl

/-- A word that asks for memory asks for nothing else. -/
theorem onlyMem (h : memInsn cfg s = true) : (main cfg s).OnlyMem :=
  onlyMem_of_dataReq (main_dataReq.trans h)

/-- What is known of an instruction that executes. -/
theorem of_instrExecuting (h : instrExecuting cfg s x = true) :
    s.ifId.instrValidId = true ∧ s.instrFetchErrId = false ∧ wbException cfg s x = false ∧
      s.ctrl.ctrlFsm = .decode ∧ IdWb.stallLdHz cfg s.idFsm (idIn cfg s x) = false ∧
      outstanding cfg s x = false := by
  simp only [instrExecuting, IdWb.instrExecuting, IdWb.instrKill, idWb_outstanding,
    Bool.and_eq_true, Bool.not_eq_true', Bool.or_eq_false_iff] at h
  obtain ⟨⟨⟨hv, ⟨hfetch, hexc⟩, hrun⟩, hhz⟩, hout⟩ := h
  have hrun' : s.ctrl.controllerRun = true := by
    rwa [Bool.not_eq_false'] at hrun
  exact ⟨hv, hfetch, hexc, by simpa [Ctrl.controllerRun] using hrun', hhz, hout⟩

/-- The write-back stage takes a new instruction when none executes past an access. -/
theorem readyWb_of_not_outstanding (h : outstanding cfg s x = false) :
    s.wb.readyWb (lsuValid cfg s x) = true := by
  simp only [outstanding, WbStage.outstandingLoadWb, WbStage.outstandingStoreWb] at h
  simp only [WbStage.readyWb, WbStage.wbDone]
  cases hv : s.wb.wbValidQ <;> cases ht : s.wb.wbInstrTypeQ <;> simp_all

/-- An access in ID executes when it asks the LSU. -/
theorem of_lsuReq (h : lsuReq cfg s x = true) :
    instrExecuting cfg s x = true ∧ memInsn cfg s = true ∧ s.dataReqCompleteQ = false := by
  simp only [lsuReq, IdWb.lsuReq] at h
  split at h
  case isTrue hx =>
      simp only [IdWb.dataReqAllowed, idWb_main, main_dataReq, Bool.and_eq_true,
        Bool.not_eq_true'] at h
      exact ⟨hx, h.2, h.1.2⟩
  case isFalse => cases h

/-- An access in ID that executes asks the LSU until it is complete. -/
theorem lsuReq_of_mem (hx : instrExecuting cfg s x = true) (hm : memInsn cfg s = true)
    (hc : s.dataReqCompleteQ = false) : lsuReq cfg s x = true := by
  have hout := (of_instrExecuting hx).2.2.2.2.2
  have hx' : IdWb.instrExecuting cfg s.idFsm (idIn cfg s x) = true := hx
  simp [lsuReq, IdWb.lsuReq, hx', IdWb.dataReqAllowed, hm, hc, hout]

/-- An access that is complete stalls nothing. -/
theorem stallMem_of_mem (hx : instrExecuting cfg s x = true) (hm : memInsn cfg s = true)
    (hc : s.dataReqCompleteQ = false) :
    IdWb.stallMem cfg s.idFsm s.dataReqCompleteQ (idIn cfg s x) (lsuReqDone cfg s x)
      = !lsuReqDone cfg s x := by
  obtain ⟨hv, -, -, -, -, hout⟩ := of_instrExecuting hx
  have hv' : (idIn cfg s x).instrValid = true := hv
  simp [IdWb.stallMem, IdWb.dataReqAllowed, hv', hm, hc, hout]

/-- A load or store moves on exactly when its last transaction is granted. -/
theorem enWb_of_mem (hx : instrExecuting cfg s x = true) (hm : memInsn cfg s = true)
    (hc : s.dataReqCompleteQ = false) : enWb cfg s x = lsuReqDone cfg s x := by
  obtain ⟨hv, -, -, hfsm, hhz, hout⟩ := of_instrExecuting hx
  have hx' : IdWb.instrExecuting cfg s.idFsm (idIn cfg s x) = true := hx
  have hflush : (idIn cfg s x).flushId = false := by
    change s.ctrl.flushId (ctrlDec cfg s x) = false
    simp only [Ctrl.flushId, hfsm]
  have hready : (idIn cfg s x).readyWb = true := readyWb_of_not_outstanding hout
  have hmain : (IdWb.main cfg s.idFsm (idIn cfg s x)).dataReq = true := main_dataReq.trans hm
  have hstall := IdWb.stallId_of_mem cfg s.idFsm s.dataReqCompleteQ (idIn cfg s x)
    (lsuReqDone cfg s x) hmain hhz hready
  rw [stallMem_of_mem hx hm hc] at hstall
  simp [enWb, IdWb.instrDone, hstall, hflush, hx']

/-! ### The invariant -/

/-- A load or store in ID is run by the controller, with nothing ahead of it that could
stop it. -/
structure MemActive (cfg : Config) (s : WbCore) : Prop where
  valid : s.ifId.instrValidId = true
  fetchErr : s.instrFetchErrId = false
  fsm : s.ctrl.ctrlFsm = .decode
  mem : memInsn cfg s = true
  wb : s.wb.wbValidQ = false
  loadErrQ : s.ctrl.loadErrQ = false
  storeErrQ : s.ctrl.storeErrQ = false

/-- The LSU and the write-back stage go together. -/
structure Inv (cfg : Config) (s : WbCore) : Prop where
  complete : s.dataReqCompleteQ = false
  active : s.lsu.busy = true → MemActive cfg s
  dataWe : s.lsu.lsFsm = .waitRvalidMis ∨ s.lsu.lsFsm = .waitRvalidMisGntsDone →
    s.lsu.dataWeQ = (main cfg s).dataWe
  wbLoad : s.wb.outstandingLoadWb = true → s.lsu.dataWeQ = false
  wbStore : s.wb.outstandingStoreWb = true → s.lsu.dataWeQ = true

/-- After a reset nothing is under way. -/
theorem inv_reset : Inv cfg reset where
  complete := rfl
  active := fun h => nomatch h
  dataWe := fun h => by simp [reset, Lsu.reset] at h
  wbLoad := fun h => nomatch h
  wbStore := fun h => nomatch h

/-- Without a response there is no error. -/
theorem errors_of_not_lsuValid (h : lsuValid cfg s x = false) :
    loadErr cfg s x = false ∧ storeErr cfg s x = false := by
  simp only [lsuValid] at h
  simp [loadErr, storeErr, Lsu.loadErr, Lsu.storeErr, h]

/-- The LSU does not answer while it is busy. -/
theorem lsuValid_of_busy (h : s.lsu.busy = true) : lsuValid cfg s x = false := by
  have hf : (s.lsu.lsFsm == .idle) = false := by simpa [Lsu.busy] using h
  simp [lsuValid, Lsu.lsuRespValid, hf]

/-- An access under way executes. -/
theorem MemActive.executing (h : MemActive cfg s) (hb : s.lsu.busy = true) :
    instrExecuting cfg s x = true := by
  have hnone : lsuValid cfg s x = false := lsuValid_of_busy hb
  obtain ⟨hl, hst⟩ := errors_of_not_lsuValid hnone
  have hexc : wbException cfg s x = false := by
    simp [wbException, h.loadErrQ, h.storeErrQ, hl, hst]
  have hhz : IdWb.stallLdHz cfg s.idFsm (idIn cfg s x) = false := by
    simp [IdWb.stallLdHz, idIn, WbStage.outstandingLoadWb, h.wb]
  have hout : outstanding cfg s x = false := by
    simp [outstanding, WbStage.outstandingLoadWb, WbStage.outstandingStoreWb, h.wb]
  have hrun : s.ctrl.controllerRun = true := by simp [Ctrl.controllerRun, h.fsm]
  have hkill : IdWb.instrKill (idIn cfg s x) = false := by
    simp [IdWb.instrKill, idIn, h.fetchErr, hexc, hrun]
  have hvalid : (idIn cfg s x).instrValid = true := h.valid
  simp [instrExecuting, IdWb.instrExecuting, hvalid, hkill, hhz, hout]

/-- Nothing is special of a load or store without an error. -/
theorem special_of_mem (hm : memInsn cfg s = true) (hfetch : s.instrFetchErrId = false)
    (hl : loadErr cfg s x = false) (hst : storeErr cfg s x = false) :
    s.ctrl.specialReqAll (ctrlIn cfg s x) = false := by
  have ho := onlyMem hm
  have hill : illegalCsrInsn cfg s x = false := by simp [illegalCsrInsn, ho.csrAccess]
  have hcsr : csrOpEn cfg s x = false := by simp [csrOpEn, IdWb.csrOpEn, ho.csrAccess]
  simp [Ctrl.specialReqAll, Ctrl.mretInsn, Ctrl.dretInsn, Ctrl.wfiInsn, Ctrl.csrPipeFlush,
    Ctrl.excReqD, Ctrl.ecallInsn, Ctrl.ebrkInsn, Ctrl.illegalInsnD, Ctrl.illegalDret,
    Ctrl.illegalUmode, Ctrl.instrFetchErr, Ctrl.excReqLsu, ctrlIn, ctrlDec, csrPipeFlush,
    ho.mretInsn,
    ho.dretInsn, ho.wfiInsn, ho.ecallInsn, ho.ebrkInsn, ho.illegalInsn, hill, hfetch, hl, hst, hcsr]

/-- An instruction in `DECODE` stays in ID while that is not ready for the next. -/
theorem next_of_not_ready (hfsm : s.ctrl.ctrlFsm = .decode)
    (hready : (ifIdIn cfg s x).idInReady = false) :
    (next cfg s x).ifId = s.ifId ∧ (next cfg s x).instrFetchErrId = s.instrFetchErrId := by
  have hnew : (ifIdIn cfg s x).instrNewId = false := by simp [IfIdIn.instrNewId, hready]
  have hhold : ((ifIdIn cfg s x).stall || (ifIdIn cfg s x).haltIf) = true := by
    simpa [IfIdIn.idInReady, ← Bool.not_or] using hready
  have hflush : (ifIdIn cfg s x).flushId = false := by
    change Ctrl.flushId s.ctrl (ctrlDec cfg s x) = false
    simp [Ctrl.flushId, hfsm]
  have hclear : (ifIdIn cfg s x).instrValidClear = false := by
    rw [IfIdIn.instrValidClear, hhold, hflush]
    rfl
  have hreg : s.ifId.next (ifIdIn cfg s x) = s.ifId := by
    simp [IfIdReg.next, hready, hnew, hclear]
  exact ⟨hreg, by simp [next, hnew]⟩

/-- An instruction that stalls in `DECODE` stays in ID. -/
theorem next_of_stall (hfsm : s.ctrl.ctrlFsm = .decode) (hs : stallId cfg s x = true) :
    (next cfg s x).ifId = s.ifId ∧ (next cfg s x).instrFetchErrId = s.instrFetchErrId :=
  next_of_not_ready hfsm (by simp [IfIdIn.idInReady, ifIdIn, hs])

/-- The write-back stage is empty after an access under way in ID. -/
theorem wbValidQ_next (hen : enWb cfg s x = false) (hout : outstanding cfg s x = false) :
    (next cfg s x).wb.wbValidQ = false := by
  have hen' : (wbIn cfg s x).enWb = false := hen
  have hready := readyWb_of_not_outstanding hout
  have hready' : s.wb.readyWb (wbIn cfg s x).lsuDataValid = true := hready
  have hnext : (next cfg s x).wb = s.wb.next (wbIn cfg s x) := rfl
  rw [hnext]
  simp only [WbStage.readyWb, Bool.or_eq_true, Bool.not_eq_true'] at hready'
  simp only [WbStage.next, hen', Bool.false_and, Bool.false_or]
  obtain h | h := hready' <;> simp [h]

/-- A load or store that is not complete stays in ID. -/
theorem mem_stays (h : lsuReq cfg s x = true) (hd : lsuReqDone cfg s x = false) :
    MemActive cfg (next cfg s x) ∧ (next cfg s x).ifId = s.ifId := by
  obtain ⟨hx, hm, hc⟩ := of_lsuReq h
  obtain ⟨hv, hfetch, hexc, hfsm, -, hout⟩ := of_instrExecuting hx
  simp only [wbException, Bool.or_eq_false_iff] at hexc
  obtain ⟨⟨-, hl⟩, hst⟩ := hexc
  have hmem := stallMem_of_mem hx hm hc
  rw [hd, Bool.not_false] at hmem
  have hstall : stallId cfg s x = true := by simp [stallId, IdWb.stallId, hd, hmem]
  have hspecial := special_of_mem hm hfetch hl hst
  obtain ⟨hreg, hfetch'⟩ := next_of_stall hfsm hstall
  have hen : enWb cfg s x = false := (enWb_of_mem hx hm hc).trans hd
  have hst' : (ctrlIn cfg s x).stall = true := by simp [ctrlIn, hstall]
  refine ⟨⟨?_, hfetch'.trans hfetch, ?_, ?_, wbValidQ_next hen hout, hl, hst⟩, hreg⟩
  · rw [hreg, hv]
  · change (Ctrl.out s.ctrl (ctrlIn cfg s x)).ctrlFsmNs = .decode
    simp [Ctrl.out, hfsm, Ctrl.decodeOut, hst', hspecial]
  · rw [memInsn, hreg]
    exact hm

/-- An access under way asks the LSU. -/
theorem Inv.lsuReq_of_busy (hi : Inv cfg s) (hb : s.lsu.busy = true) :
    lsuReq cfg s x = true := by
  have ha := hi.active hb
  exact lsuReq_of_mem (ha.executing hb) ha.mem hi.complete

/-- The LSU has an access under way in the next cycle when one is not complete. -/
theorem Inv.of_busy_next (hi : Inv cfg s) (hb : (next cfg s x).lsu.busy = true) :
    lsuReq cfg s x = true ∧ lsuReqDone cfg s x = false := by
  have hnext : (next cfg s x).lsu = s.lsu.next (lsuIn cfg s x (lsuReq cfg s x)) := rfl
  rw [hnext] at hb
  have hreq : lsuReq cfg s x = true := by
    cases hb' : s.lsu.busy with
    | true => exact hi.lsuReq_of_busy hb'
    | false =>
        by_contra hne
        rw [Bool.not_eq_true] at hne
        have hf : s.lsu.lsFsm = .idle := by simpa [Lsu.busy] using hb'
        have := (Lsu.next_of_idle (x := lsuIn cfg s x (lsuReq cfg s x)) hf hne).1
        simp [Lsu.busy, this] at hb
  refine ⟨hreq, ?_⟩
  have hns : (s.lsu.step (lsuIn cfg s x (lsuReq cfg s x))).lsFsmNs ≠ .idle := by
    simpa [Lsu.busy, Lsu.next] using hb
  simp [lsuReqDone, Lsu.lsuReqDone, hns]

/-- An access that moves on is complete. -/
theorem of_enWb_mem (hi : Inv cfg s) (hen : enWb cfg s x = true) (hm : memInsn cfg s = true) :
    lsuReq cfg s x = true ∧ lsuReqDone cfg s x = true := by
  have hx : instrExecuting cfg s x = true := by
    simp only [enWb, IdWb.instrDone, Bool.and_eq_true] at hen
    exact hen.2
  exact ⟨lsuReq_of_mem hx hm hi.complete, (enWb_of_mem hx hm hi.complete).symm.trans hen⟩

/-- The direction that the LSU keeps for the access in ID. -/
theorem Inv.dataWe_lsuIn (hi : Inv cfg s) (r : Bool) :
    s.lsu.lsFsm = .waitRvalidMis ∨ s.lsu.lsFsm = .waitRvalidMisGntsDone →
      s.lsu.dataWeQ = (lsuIn cfg s x r).lsuWe := hi.dataWe

/-- What the write-back stage holds after a cycle: an access that has just been completed
in ID, or the old one. -/
theorem wb_next (hv : (next cfg s x).wb.wbValidQ = true)
    (ht : (next cfg s x).wb.wbInstrTypeQ ≠ .other) :
    (enWb cfg s x = true ∧ memInsn cfg s = true ∧
      (next cfg s x).wb.wbInstrTypeQ = if (main cfg s).dataWe then .store else .load) ∨
    (enWb cfg s x = false ∧ outstanding cfg s x = true ∧
      (next cfg s x).wb.wbInstrTypeQ = s.wb.wbInstrTypeQ ∧ s.wb.wbValidQ = true) := by
  have hnext : (next cfg s x).wb = s.wb.next (wbIn cfg s x) := rfl
  rw [hnext] at hv ht ⊢
  have hen : (wbIn cfg s x).enWb = enWb cfg s x := rfl
  cases he : enWb cfg s x with
  | true =>
      rw [he] at hen
      have htype : (s.wb.next (wbIn cfg s x)).wbInstrTypeQ
          = IdWb.instrTypeWb cfg s.idFsm (idIn cfg s x) := if_pos hen
      rw [htype, IdWb.instrTypeWb, idWb_main, main_dataReq] at ht ⊢
      cases hm : memInsn cfg s with
      | false => simp [hm] at ht
      | true => exact Or.inl ⟨rfl, rfl, by simp⟩
  | false =>
      rw [he] at hen
      have htype : (s.wb.next (wbIn cfg s x)).wbInstrTypeQ = s.wb.wbInstrTypeQ := by
        simp [WbStage.next, hen]
      have hdone : (wbIn cfg s x).lsuDataValid = lsuValid cfg s x := rfl
      simp only [WbStage.next, hen, Bool.false_and, Bool.false_or, hdone, Bool.and_eq_true,
        Bool.not_eq_true', WbStage.wbDone, Bool.or_eq_false_iff] at hv
      refine Or.inr ⟨rfl, ?_, htype, hv.1⟩
      rw [htype] at ht
      simp only [outstanding, WbStage.outstandingLoadWb, WbStage.outstandingStoreWb, hv.1, hv.2.2]
      cases hty : s.wb.wbInstrTypeQ with
      | other => exact absurd hty ht
      | _ => rfl

/-- The direction of the access in the write-back stage after a cycle. -/
theorem wbDataWe_next (hi : Inv cfg s) (hv : (next cfg s x).wb.wbValidQ = true)
    (ht : (next cfg s x).wb.wbInstrTypeQ ≠ .other) :
    (next cfg s x).lsu.dataWeQ = ((next cfg s x).wb.wbInstrTypeQ == .store) := by
  have hnext : (next cfg s x).lsu = s.lsu.next (lsuIn cfg s x (lsuReq cfg s x)) := rfl
  obtain ⟨hen, hm, htype⟩ | ⟨hen, hout, htype, hv'⟩ := wb_next hv ht
  · have hdone := (of_enWb_mem hi hen hm).2
    rw [htype, hnext, Lsu.dataWeQ_of_lsuReqDone (hi.dataWe_lsuIn _) hdone]
    have hwe : (lsuIn cfg s x (lsuReq cfg s x)).lsuWe = (main cfg s).dataWe := rfl
    rw [hwe]
    cases (main cfg s).dataWe <;> rfl
  · have hidle : s.lsu.lsFsm = .idle := by
      by_contra hne
      have := (hi.active (by simpa [Lsu.busy] using hne)).wb
      rw [hv'] at this
      cases this
    have hreq : lsuReq cfg s x = false := by
      by_contra hne
      rw [Bool.not_eq_false] at hne
      have := (of_instrExecuting (of_lsuReq hne).1).2.2.2.2.2
      rw [hout] at this
      cases this
    have hkeep := (Lsu.next_of_idle (x := lsuIn cfg s x (lsuReq cfg s x)) hidle hreq).2.1
    rw [hnext, hkeep, htype]
    rw [htype] at ht
    cases hty : s.wb.wbInstrTypeQ with
    | other => exact absurd hty ht
    | load => exact hi.wbLoad (by simp [WbStage.outstandingLoadWb, hv', hty])
    | store => exact hi.wbStore (by simp [WbStage.outstandingStoreWb, hv', hty])

/-- The flop of the completed request is never set: the access leaves ID at once. -/
theorem complete_next (hi : Inv cfg s) : (next cfg s x).dataReqCompleteQ = false := by
  have hnext : (next cfg s x).dataReqCompleteQ
      = ((s.dataReqCompleteQ || (lsuReq cfg s x && lsuReqDone cfg s x))
        && !(enWb cfg s x && s.wb.readyWb (lsuValid cfg s x))) := rfl
  rw [hnext, hi.complete, Bool.false_or]
  cases hreq : lsuReq cfg s x && lsuReqDone cfg s x with
  | false => rfl
  | true =>
      rw [Bool.and_eq_true] at hreq
      obtain ⟨hx, hm, hc⟩ := of_lsuReq hreq.1
      have hen := (enWb_of_mem hx hm hc).trans hreq.2
      have hready := readyWb_of_not_outstanding (of_instrExecuting hx).2.2.2.2.2
      simp [hen, hready]

/-- One cycle keeps the invariant. -/
theorem inv_next (hi : Inv cfg s) : Inv cfg (next cfg s x) where
  complete := complete_next hi
  active := by
    intro hb
    obtain ⟨hreq, hd⟩ := hi.of_busy_next hb
    exact (mem_stays hreq hd).1
  dataWe := by
    intro hf
    have hb : (next cfg s x).lsu.busy = true := by
      obtain h | h := hf <;> simp [Lsu.busy, h]
    obtain ⟨hreq, hd⟩ := hi.of_busy_next hb
    have hreg := (mem_stays hreq hd).2
    have hnext : (next cfg s x).lsu = s.lsu.next (lsuIn cfg s x (lsuReq cfg s x)) := rfl
    rw [hnext] at hf ⊢
    rw [Lsu.dataWeQ_of_busy (hi.dataWe_lsuIn _) hf, main, hreg, mainDecode_dataWe]
    exact mainDecode_dataWe ..
  wbLoad := by
    intro h
    simp only [WbStage.outstandingLoadWb, Bool.and_eq_true, beq_iff_eq] at h
    rw [wbDataWe_next hi h.1 (by simp [h.2]), h.2]
    rfl
  wbStore := by
    intro h
    simp only [WbStage.outstandingStoreWb, Bool.and_eq_true, beq_iff_eq] at h
    rw [wbDataWe_next hi h.1 (by simp [h.2]), h.2]
    rfl

/-- Every run meets the invariant. -/
theorem inv_run (ins : List WbCoreIn) : Inv cfg (Machine.run (next cfg) reset ins) :=
  Machine.run_invariant (Inv cfg) (fun _ _ hi => inv_next hi) ins inv_reset

/-! ### Accesses in the write-back stage -/

/-- The write-back stage holds a load or store. -/
def inWb (s : WbCore) : Bool := s.wb.outstandingLoadWb || s.wb.outstandingStoreWb

/-- An access waits in write-back where that has a valid load or store. -/
theorem inWb_iff :
    s.inWb = true ↔ s.wb.wbValidQ = true ∧ s.wb.wbInstrTypeQ ≠ .other := by
  simp only [inWb, WbStage.outstandingLoadWb, WbStage.outstandingStoreWb]
  cases s.wb.wbValidQ <;> cases s.wb.wbInstrTypeQ <;> simp

/-- Without a request the LSU is idle. -/
theorem Inv.idle_of_not_lsuReq (hi : Inv cfg s) (hr : lsuReq cfg s x = false) :
    s.lsu.lsFsm = .idle := by
  by_contra hne
  have := hi.lsuReq_of_busy (x := x) (by simpa [Lsu.busy] using hne)
  rw [hr] at this
  cases this

/-- Nothing leaves ID behind an access that is not answered. -/
theorem enWb_of_outstanding (hout : outstanding cfg s x = true) : enWb cfg s x = false := by
  by_contra hen
  simp only [enWb, IdWb.instrDone, Bool.not_eq_false, Bool.and_eq_true] at hen
  have := (of_instrExecuting hen.2).2.2.2.2.2
  rw [hout] at this
  cases this

/-- An access stays in write-back until its last response. -/
theorem inWb_of_outstanding (hout : outstanding cfg s x = true) :
    (next cfg s x).inWb = true := by
  have hsplit : (s.inWb && !lsuValid cfg s x) = true := hout
  rw [Bool.and_eq_true, Bool.not_eq_true', inWb_iff] at hsplit
  obtain ⟨⟨hv, ht⟩, hnone⟩ := hsplit
  have hwb : (next cfg s x).wb = s.wb.next (wbIn cfg s x) := rfl
  have hen : (wbIn cfg s x).enWb = false := enWb_of_outstanding hout
  have hdone : (wbIn cfg s x).lsuDataValid = false := hnone
  rw [inWb_iff, hwb]
  simp [WbStage.next, hen, hdone, WbStage.wbDone, hv, ht]

/-- An access is gone from write-back only with its last response. -/
theorem lsuValid_of_gone (h : s.inWb = true) (h' : (next cfg s x).inWb = false) :
    lsuValid cfg s x = true := by
  by_contra hne
  rw [Bool.not_eq_true] at hne
  have hout : outstanding cfg s x = true := by
    have hboth : (s.inWb && !lsuValid cfg s x) = true := by simp [h, hne]
    exact hboth
  rw [inWb_of_outstanding hout] at h'
  cases h'

/-- An access that leaves ID waits in write-back. -/
theorem inWb_of_enWb (hen : enWb cfg s x = true) (hm : memInsn cfg s = true) :
    (next cfg s x).inWb = true := by
  have hx := hen
  simp only [enWb, IdWb.instrDone, Bool.and_eq_true] at hx
  have hready : s.wb.readyWb (wbIn cfg s x).lsuDataValid = true :=
    readyWb_of_not_outstanding (of_instrExecuting hx.2).2.2.2.2.2
  have hwb : (next cfg s x).wb = s.wb.next (wbIn cfg s x) := rfl
  have hen' : (wbIn cfg s x).enWb = true := hen
  have htype : (wbIn cfg s x).instrTypeWb ≠ .other := by
    change IdWb.instrTypeWb cfg s.idFsm (idIn cfg s x) ≠ .other
    rw [IdWb.instrTypeWb, idWb_main, main_dataReq, hm]
    cases (main cfg s).dataWe <;> simp
  rw [inWb_iff, hwb]
  simp [WbStage.next, hen', hready, htype]

/-- A request that leaves the LSU idle goes on to write-back. -/
theorem inWb_of_lsuReq (hr : lsuReq cfg s x = true) (hb : (next cfg s x).lsu.busy = false) :
    (next cfg s x).inWb = true := by
  obtain ⟨hx, hm, hc⟩ := of_lsuReq hr
  have hns : (s.lsu.step (lsuIn cfg s x (lsuReq cfg s x))).lsFsmNs = .idle := by
    simpa [next, Lsu.next, Lsu.busy] using hb
  have hreq : (lsuIn cfg s x (lsuReq cfg s x)).lsuReq = true := hr
  have hdone : lsuReqDone cfg s x = true := by simp [lsuReqDone, Lsu.lsuReqDone, hreq, hns]
  exact inWb_of_enWb ((enWb_of_mem hx hm hc).trans hdone) hm

end WbCore

end CocoIbex
