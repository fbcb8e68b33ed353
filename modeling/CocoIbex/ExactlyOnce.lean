import CocoIbex.CoreStep

/-!
# Exactly-Once Execution

In the two-stage pipeline an instruction that is complete may stay in ID for some cycles: the
controller halts IF while it goes on to an exception, an interrupt or debug mode. It must not
execute there again. A complete instruction is *parked* until it leaves; what stands against it
is a load or store, which raises its stall anew in the parked cycles.

What an instruction does is counted from the cycle in which it is handed over to ID: requests to
the LSU, the first and the second transaction on the data bus, CSR writes, redirects of the
fetch, and completions. The bound is one of each. A load or store whose response comes in the
cycle of an interrupt is the exception: it is asked for again in its parked cycle, and its
transactions are made a second time (`replayTrace`).

## Main results

* `Core.NoReplay` excludes the two cycles in which a parked load or store comes back;
* `Core.done_step` and `Core.parked_next` are the step lemmas, for the cycle in which an
  instruction completes and for those in which it is parked;
* `Core.exactly_once` is the bound for every run.
-/

namespace CocoIbex

/-! ### The parts of a memory access -/

namespace Lsu

/-- An access under way has had the grant for its first part. -/
def FirstGranted (s : Lsu) : Prop :=
  match s.lsFsm with
  | .idle | .waitRvalidMis | .waitRvalidMisGntsDone => True
  | .waitGnt => s.handleMisalignedQ = true
  | .waitGntMis => False

/-- An access under way has had all its grants. -/
def AllGranted (s : Lsu) : Prop := s.lsFsm = .idle ∨ s.lsFsm = .waitRvalidMisGntsDone

variable {s : Lsu} {x : LsuIn}

/-- A first part that has been granted stays so while no new access starts. -/
theorem firstGranted_next (hr : s.lsFsm = .idle → x.lsuReq = false) (h : FirstGranted s) :
    FirstGranted (s.next x) := by
  cases hf : s.lsFsm <;> simp only [FirstGranted, next, step, hf] at h hr ⊢ <;>
    split_ifs <;> simp_all

/-- So do both parts. -/
theorem allGranted_next (hr : s.lsFsm = .idle → x.lsuReq = false) (h : AllGranted s) :
    AllGranted (s.next x) := by
  obtain hf | hf := h <;> simp only [AllGranted, next, step, hf] at hr ⊢ <;>
    split_ifs <;> simp_all

/-- A grant of the first request is remembered. -/
theorem firstGranted_of_gnt (hd : (s.step x).dataReq = true) (hg : x.dataGnt = true)
    (ha : (s.step x).addrIncrReq = false) : FirstGranted (s.next x) := by
  cases hf : s.lsFsm <;> simp only [FirstGranted, next, step, hf, hg] at hd ha ⊢ <;>
    split_ifs <;> simp_all

/-- A grant of the second request is remembered. -/
theorem allGranted_of_gnt (hd : (s.step x).dataReq = true) (hg : x.dataGnt = true)
    (ha : (s.step x).addrIncrReq = true) : AllGranted (s.next x) := by
  cases hf : s.lsFsm <;> simp only [AllGranted, next, step, hf, hg] at hd ha ⊢ <;>
    split_ifs <;> simp_all

/-- After the grant for the first part only the second part is asked for. -/
theorem addrIncrReq_of_firstGranted (hr : s.lsFsm = .idle → x.lsuReq = false)
    (h : FirstGranted s) (hd : (s.step x).dataReq = true) : (s.step x).addrIncrReq = true := by
  rw [step_addrIncrReq]
  rw [step_dataReq] at hd
  cases hf : s.lsFsm <;> simp_all [FirstGranted]

/-- After the last grant nothing is asked for. -/
theorem dataReq_of_allGranted (hr : s.lsFsm = .idle → x.lsuReq = false) (h : AllGranted s) :
    (s.step x).dataReq = false := by
  rw [step_dataReq]
  obtain hf | hf := h <;> simp_all

end Lsu

namespace Core

variable {cfg : Config} {s : Core} {x : CoreIn}

/-! ### Events -/

/-- A branch or jump of ID sets the fetch address. -/
def branchPcSet (cfg : Config) (s : Core) (x : CoreIn) : Bool :=
  s.ctrl.ctrlFsm == .decode && (ctrlOut cfg s x).pcSet

/-- A data transaction is granted; the second of a misaligned pair is at the incremented
address. -/
def transaction (second : Bool) (cfg : Config) (s : Core) (x : CoreIn) : Bool :=
  dataReq cfg s x && x.dataGnt && (lsuStep cfg s x).addrIncrReq == second

/-- `f` has fired at most once since a word was last handed over to ID, the cycle with the
inputs `x` included. -/
def AtMostOnce (f : Config → Core → CoreIn → Bool) (cfg : Config) (ins : List CoreIn)
    (x : CoreIn) : Prop :=
  Machine.firedSince (next cfg) (deliver cfg) (f cfg) reset ins
    + (f cfg (Machine.run (next cfg) reset ins) x).toNat ≤ 1

/-- No instruction does anything twice, up to the cycle with the inputs `x`. -/
structure ExactlyOnce (cfg : Config) (ins : List CoreIn) (x : CoreIn) : Prop where
  lsuReq : AtMostOnce lsuReq cfg ins x
  firstTransaction : AtMostOnce (transaction false) cfg ins x
  secondTransaction : AtMostOnce (transaction true) cfg ins x
  csrWrite : AtMostOnce csrOpEn cfg ins x
  pcSet : AtMostOnce branchPcSet cfg ins x
  instrDone : AtMostOnce instrIdDone cfg ins x

/-! ### The contract -/

/-- No interrupt without a debug request is accepted in the cycle in which a load or store
completes without an error, and no debug request is withdrawn before `DBG_TAKEN_IF` with a
load or store in ID. -/
structure NoReplay (cfg : Config) (s : Core) (x : CoreIn) : Prop where
  irq : s.ctrl.ctrlFsm = .decode → s.lsu.lsFsm = .idle → x.dataRvalid = true →
    s.lsu.dataOrPmpErr (lsuIn cfg s x false) = false →
    s.ctrl.enterDebugMode (ctrlDec cfg s x) = false →
    s.ctrl.handleIrq (ctrlDec cfg s x) = false
  dbg : s.ctrl.ctrlFsm = .dbgTakenIf → s.ifId.instrValidId = true → memInsn cfg s = true →
    Ctrl.debugCauseStands (ctrlDec cfg s x) = true

/-- The bus keeps to its protocol and nothing is replayed. -/
structure Quiet (cfg : Config) (s : Core) (x : CoreIn) : Prop where
  bus : BusOk cfg s x
  noReplay : NoReplay cfg s x

/-- A replay is seen in the cycle in which it happens. -/
instance : Decidable (NoReplay cfg s x) :=
  decidable_of_iff
    ((s.ctrl.ctrlFsm = .decode → s.lsu.lsFsm = .idle → x.dataRvalid = true →
      s.lsu.dataOrPmpErr (lsuIn cfg s x false) = false →
      s.ctrl.enterDebugMode (ctrlDec cfg s x) = false →
      s.ctrl.handleIrq (ctrlDec cfg s x) = false) ∧
      (s.ctrl.ctrlFsm = .dbgTakenIf → s.ifId.instrValidId = true → memInsn cfg s = true →
        Ctrl.debugCauseStands (ctrlDec cfg s x) = true))
    ⟨fun h => ⟨h.1, h.2⟩, fun h => ⟨h.irq, h.dbg⟩⟩

/-- So are a replay and an error. -/
instance : Decidable (Quiet cfg s x) :=
  decidable_of_iff (BusOk cfg s x ∧ NoReplay cfg s x)
    ⟨fun h => ⟨h.1, h.2⟩, fun h => ⟨h.bus, h.noReplay⟩⟩

/-! ### Parked instructions -/

/-- The controller is in a state in which the instruction in ID, if there is one, does not
execute any more. -/
def Parked (cfg : Config) (s : Core) : Prop :=
  s.ifId.instrValidId = true →
    s.ctrl.ctrlFsm = .flush ∨ s.ctrl.ctrlFsm = .dbgTakenId ∨ s.ctrl.ctrlFsm = .dbgTakenIf ∨
      (s.ctrl.ctrlFsm = .irqTaken ∧ memInsn cfg s = false)

/-- Nothing executes while the controller has an instruction parked. -/
theorem not_executing_of_parked (h : Parked cfg s) : ¬ Executing s := by
  intro hx
  obtain hc | hc | hc | ⟨hc, -⟩ := h hx.1 <;>
    · rw [hx.2.2] at hc
      cases hc

/-- A load or store that completes without an error has had its response. -/
theorem of_not_special (h : Executing s) (hm : memInsn cfg s = true)
    (hl : lsuValid cfg s x = true) (hs : s.ctrl.specialReqAll (ctrlIn cfg s x) = false) :
    s.lsu.lsFsm = .idle ∧ x.dataRvalid = true ∧
      s.lsu.dataOrPmpErr (lsuIn cfg s x false) = false := by
  rw [special_of_mem h hm] at hs
  have hl' : s.lsu.lsuRespValid (lsuIn cfg s x false) = true := hl
  have herr : s.lsu.dataOrPmpErr (lsuIn cfg s x false) = false := by
    simp only [Ctrl.excReqLsu, ctrlDec, Lsu.loadErr, Lsu.storeErr, hl', Bool.and_true] at hs
    cases hw : s.lsu.dataWeQ <;> simpa [hw] using hs
  have hp : s.lsu.pmpErrQ = false := by
    simp only [Lsu.dataOrPmpErr, Bool.or_eq_false_iff] at herr
    exact herr.2
  simp only [Lsu.lsuRespValid, hp, Bool.or_false, Bool.and_eq_true, beq_iff_eq] at hl'
  exact ⟨hl'.2, hl'.1, herr⟩

/-- A load or store that does not stall has its response. -/
theorem lsuValid_of_not_stall (h : Executing s) (hm : memInsn cfg s = true)
    (hs : stallId cfg s x = false) : lsuValid cfg s x = true := by
  cases hl : lsuValid cfg s x with
  | true => rfl
  | false => simp [stallId, IdStage.stallId, IdStage.stallMem, h.1, hm, hl] at hs

/-- **Completion.** A complete instruction that is kept in ID is parked. -/
theorem done_step (hq : Quiet cfg s x) (hd : deliver cfg s x = false)
    (h : instrIdDone cfg s x = true) : Parked cfg (next cfg s x) := by
  simp only [instrIdDone, IdStage.instrDone, Bool.and_eq_true, Bool.not_eq_true',
    instrExecuting_iff] at h
  obtain ⟨⟨hs, -⟩, hx⟩ := h
  have hstall : stallId cfg s x = false := hs
  intro hv
  obtain ⟨-, -, hh, hm, -⟩ := instr_next hd hv
  have hhalt : (ctrlOut cfg s x).haltIf = true := by simpa [hstall] using hh
  obtain hc | hc | ⟨hc, hsp, hdb, hir⟩ := next_of_haltIf hx.2.2 hstall hhalt
  · exact Or.inl hc
  · exact Or.inr (Or.inr (Or.inl hc))
  · refine Or.inr (Or.inr (Or.inr ⟨hc, ?_⟩))
    cases hmem : memInsn cfg s with
    | false => exact hm.trans hmem
    | true =>
        have hl := lsuValid_of_not_stall hx hmem hstall
        obtain ⟨hf, hr, he⟩ := of_not_special hx hmem hl hsp
        have := hq.noReplay.irq hx.2.2 hf hr he hdb
        simp [this] at hir

/-- **Parking.** A parked instruction stays parked until it leaves. -/
theorem parked_next (hi : Inv cfg s) (hq : Quiet cfg s x) (hd : deliver cfg s x = false)
    (h : Parked cfg s) : Parked cfg (next cfg s x) := by
  intro hv
  obtain ⟨hv, hf, hh, hm, -⟩ := instr_next hd hv
  have hx := not_executing_of_parked h
  have hb := (hi.rest fun ha => hx ha.1).1
  have hst : memInsn cfg s = false → stallId cfg s x = false := stallId_of_not_executing hx hb
  obtain hc | hc | hc | ⟨hc, hmem⟩ := h hv
  · -- only an ebreak into debug mode is kept in `FLUSH`
    have hbase : (Ctrl.flushBase s.ctrl (ctrlIn cfg s x)).flushId = false := by
      rw [Ctrl.flushBase_flushId]
      simp only [flushId, Ctrl.flushId, hc] at hf
      exact hf
    have hnext : (next cfg s x).ctrl.ctrlFsm
        = (Ctrl.flushOut s.ctrl (ctrlIn cfg s x)).ctrlFsmNs := by
      simp only [next, Ctrl.next, Ctrl.out, hc]
    rw [hnext]
    obtain hn | hn := Ctrl.flushOut_of_kept s.ctrl _ hbase
    · exact Or.inr (Or.inl hn)
    · exact Or.inr (Or.inr (Or.inl hn))
  · simp [flushId, Ctrl.flushId, hc] at hf
  · have hstands : Ctrl.debugCauseStands (ctrlDec cfg s x) = false := by
      simpa [flushId, Ctrl.flushId, hc] using hf
    have hmem : memInsn cfg s = false := by
      cases hmem : memInsn cfg s with
      | false => rfl
      | true =>
          have := hq.noReplay.dbg hc hv hmem
          simp [this] at hstands
    have hhalt : (ctrlOut cfg s x).haltIf = false := by
      have hstands' : Ctrl.debugCauseStands (ctrlIn cfg s x).toCtrlDec = false := hstands
      simp [ctrlOut, Ctrl.out, hc, Ctrl.dbgTakenIfOut, hstands', Ctrl.defaults]
    simp [hst hmem, hhalt] at hh
  · have hhalt : (ctrlOut cfg s x).haltIf = false := by
      simp only [ctrlOut, Ctrl.out, hc, Ctrl.irqTakenOut]
      split_ifs <;> rfl
    simp [hst hmem, hhalt] at hh

/-! ### The next cycle of an executing instruction -/

/-- An executing instruction stalls and goes on executing, or is parked. -/
theorem executing_next (hq : Quiet cfg s x) (hd : deliver cfg s x = false) (h : Executing s) :
    Parked cfg (next cfg s x) ∨ (stallId cfg s x = true ∧ Executing (next cfg s x)) := by
  have hf : flushId cfg s x = false := flushId_of_executing h
  cases hs : stallId cfg s x with
  | false =>
      refine Or.inl (done_step hq hd ?_)
      have hs' : IdStage.stallId cfg s.idFsm (idIn cfg s x) = false := hs
      simp [instrIdDone, IdStage.instrDone, hs', hf, instrExecuting_iff.mpr h]
  | true =>
      obtain ⟨hv, -, he⟩ := next_of_stall h.1 hs hf
      obtain hc | hc := ctrlFsm_next_of_stall h.2.2 hs
      · exact Or.inl fun _ => Or.inl hc
      · exact Or.inr ⟨rfl, hv, he.trans h.2.1, hc⟩

/-- A stalled instruction in a later cycle is not complete. -/
theorem idFsm_next_of_stall (hi : Inv cfg s) (h : Executing s) (hm : s.idFsm = .multiCycle)
    (hs : stallId cfg s x = true) : (next cfg s x).idFsm = .multiCycle := by
  have hx : IdStage.instrExecuting (idIn cfg s x) = true := instrExecuting_iff.mpr h
  have hn := (IdStage.fsmOut_multiCycle cfg _ hx).2.2
  rw [← hm] at hn
  suffices hnd : IdStage.multicycleDone cfg s.idFsm (idIn cfg s x) = false by
    refine Eq.trans hn ?_
    rw [hnd]
    exact hm
  refine Bool.eq_false_iff.mpr fun hdone => ?_
  have hmem : IdStage.stallMem cfg s.idFsm (idIn cfg s x) = true := by
    rw [hm] at hdone
    have := IdStage.stallId_of_multicycleDone cfg _ hx hdone
    rw [← hm] at this
    exact this.symm.trans hs
  cases hmi : memInsn cfg s with
  | false => simp [hi.stallMem hmi] at hmem
  | true =>
      rw [multicycleDone_of_mem hmi] at hdone
      have hb : s.lsu.busy = false := by
        simp only [lsuValid, Lsu.lsuRespValid, Bool.and_eq_true, beq_iff_eq] at hdone
        simp [Lsu.busy, hdone.2]
      simp [IdStage.stallMem, hb, hdone, IdStage.instrFirstCycle, hm] at hmem

/-- An instruction in a later cycle sets no branch and no jump anew. -/
theorem idOut_multiCycle (h : Executing s) (hm : s.idFsm = .multiCycle) :
    (idOut cfg s x).branchSetD = false ∧ (idOut cfg s x).jumpSet = false := by
  have hx : IdStage.instrExecuting (idIn cfg s x) = true := instrExecuting_iff.mpr h
  obtain ⟨hb, hj, -⟩ := IdStage.fsmOut_multiCycle cfg _ hx
  rw [← hm] at hb hj
  exact ⟨hb, hj⟩

/-- A load or store under way goes on waiting, or is complete and parked. -/
theorem memActive_next (hi : Inv cfg s) (hq : Quiet cfg s x) (hd : deliver cfg s x = false)
    (h : MemActive cfg s) : Parked cfg (next cfg s x) ∨ MemActive cfg (next cfg s x) := by
  obtain hp | ⟨hs, hx⟩ := executing_next hq hd h.1
  · exact Or.inl hp
  · obtain ⟨-, hm, -⟩ := next_of_stall h.1.1 hs (flushId_of_executing h.1)
    exact Or.inr ⟨hx, idFsm_next_of_stall hi h.1 h.2.1 hs, hm.trans h.2.2⟩

/-! ### Who causes an event -/

/-- Only what executes is done. -/
theorem executing_of_instrIdDone (h : instrIdDone cfg s x = true) : Executing s := by
  simp only [instrIdDone, IdStage.instrDone, Bool.and_eq_true, instrExecuting_iff] at h
  exact h.2

/-- The CSRs are accessed in the last cycle of an instruction. -/
theorem instrIdDone_of_csrOpEn (h : csrOpEn cfg s x = true) : instrIdDone cfg s x = true := by
  simp only [csrOpEn, IdStage.csrOpEn, Bool.and_eq_true] at h
  exact h.2

/-- A data request comes from the load or store that executes. -/
theorem of_dataReq (hi : Inv cfg s) (h : (lsuStep cfg s x).dataReq = true) :
    Executing s ∧ memInsn cfg s = true ∧ (lsuReq cfg s x = true ∨ s.lsu.busy = true) := by
  rw [lsuStep, Lsu.step_dataReq] at h
  cases hb : s.lsu.busy with
  | true =>
      have hm := hi.active (Or.inl hb)
      exact ⟨hm.1, hm.2.2, Or.inr rfl⟩
  | false =>
      have hf : s.lsu.lsFsm = .idle := by simpa [Lsu.busy] using hb
      simp only [hf, lsuIn_lsuReq] at h
      exact ⟨(of_lsuReq h).1, (of_lsuReq h).2.2, Or.inl h⟩

/-- A load or store that has sent a request is under way. -/
theorem memActive_of_dataReq (hi : Inv cfg s) (hok : BusOk cfg s x)
    (h : (lsuStep cfg s x).dataReq = true) : MemActive cfg (next cfg s x) := by
  obtain ⟨hx, hm, hr⟩ := of_dataReq hi h
  refine mem_stays hx hm (Bool.eq_false_iff.mpr fun hl => ?_)
  obtain ⟨ha, hf⟩ := hi.of_lsuValid hok hl
  obtain hr | hb := hr
  · exact not_memActive_of_lsuReq hr ha
  · simp [Lsu.busy, hf] at hb

/-- Only what executes redirects the fetch. -/
theorem executing_of_branchPcSet (h : branchPcSet cfg s x = true) : Executing s := by
  simp only [branchPcSet, Bool.and_eq_true, beq_iff_eq] at h
  obtain ⟨hc, hp⟩ := h
  simp only [ctrlOut, Ctrl.out, hc, Ctrl.decodeOut, Bool.and_eq_true, Ctrl.specialReqBranch,
    Ctrl.instrFetchErr] at hp
  have hv : s.ifId.instrValidId = true := hp.1
  have hv' : (ctrlIn cfg s x).toCtrlDec.instrValid = true := hv
  have he : (ctrlIn cfg s x).toCtrlDec.instrFetchErr = false := by simpa [hv'] using hp.2.2
  exact ⟨hv, he, hc⟩

/-! ### Every event fires once -/

/-- An event of executing instructions fires at most once where an instruction that has
fired it stays in a stage of its own, in which the event is silent, until it is parked. -/
theorem atMostOnce_of_stage {f : Config → Core → CoreIn → Bool} (Stage : Core → Prop)
    (exec : ∀ s x, Inv cfg s → f cfg s x = true → Executing s)
    (fire : ∀ s x, Inv cfg s → Quiet cfg s x → deliver cfg s x = false → f cfg s x = true →
      Parked cfg (next cfg s x) ∨ Stage (next cfg s x))
    (keep : ∀ s x, Inv cfg s → Quiet cfg s x → deliver cfg s x = false → Stage s →
      Parked cfg (next cfg s x) ∨ Stage (next cfg s x))
    (silent : ∀ s x, Inv cfg s → Stage s → f cfg s x = false)
    {ins : List CoreIn} (hok : Machine.Along (next cfg) (Quiet cfg) reset (ins ++ [x])) :
    AtMostOnce f cfg ins x := by
  refine Machine.fired_once (Inv cfg) (fun s => Parked cfg s ∨ Stage s)
    (fun s x hi hq => inv_next hi hq.bus) fire ?_ ?_ inv_reset hok
  · intro s x hi hq hd h
    obtain h | h := h
    · exact Or.inl (parked_next hi hq hd h)
    · exact keep s x hi hq hd h
  · intro s x hi hq h
    obtain h | h := h
    · exact Bool.eq_false_iff.mpr fun hf => not_executing_of_parked h (exec s x hi hf)
    · exact silent s x hi h

variable {ins : List CoreIn}

/-- An instruction is done once. -/
theorem instrIdDone_once (hok : Machine.Along (next cfg) (Quiet cfg) reset (ins ++ [x])) :
    AtMostOnce instrIdDone cfg ins x :=
  atMostOnce_of_stage (fun _ => False) (fun _ _ _ h => executing_of_instrIdDone h)
    (fun _ _ _ hq hd h => Or.inl (done_step hq hd h)) (fun _ _ _ _ _ h => h.elim)
    (fun _ _ _ h => h.elim) hok

/-- An instruction accesses the CSRs once. -/
theorem csrOpEn_once (hok : Machine.Along (next cfg) (Quiet cfg) reset (ins ++ [x])) :
    AtMostOnce csrOpEn cfg ins x :=
  atMostOnce_of_stage (fun _ => False)
    (fun _ _ _ h => executing_of_instrIdDone (instrIdDone_of_csrOpEn h))
    (fun _ _ _ hq hd h => Or.inl (done_step hq hd (instrIdDone_of_csrOpEn h)))
    (fun _ _ _ _ _ h => h.elim) (fun _ _ _ h => h.elim) hok

/-- A load or store under way is not in its first cycle. -/
theorem lsuReq_of_memActive (h : MemActive cfg s) : lsuReq cfg s x = false :=
  Bool.eq_false_iff.mpr fun hr => not_memActive_of_lsuReq hr h

/-- An instruction asks the LSU once. -/
theorem lsuReq_once (hok : Machine.Along (next cfg) (Quiet cfg) reset (ins ++ [x])) :
    AtMostOnce lsuReq cfg ins x := by
  refine atMostOnce_of_stage (MemActive cfg) (fun _ _ _ h => (of_lsuReq h).1) ?_
    (fun _ _ hi hq hd h => memActive_next hi hq hd h) (fun _ _ _ h => lsuReq_of_memActive h) hok
  intro s x hi hq _ h
  obtain ⟨hx, -, hm⟩ := of_lsuReq h
  refine Or.inr (mem_stays hx hm (Bool.eq_false_iff.mpr fun hl => ?_))
  exact not_memActive_of_lsuReq h (hi.of_lsuValid hq.bus hl).1

/-- A part of an access is granted at most once where the LSU keeps track of its grant. -/
theorem transaction_once {second : Bool} (Granted : Lsu → Prop)
    (keep : ∀ (l : Lsu) y, (l.lsFsm = .idle → y.lsuReq = false) → Granted l → Granted (l.next y))
    (gnt : ∀ (l : Lsu) y, (l.step y).dataReq = true → y.dataGnt = true →
      (l.step y).addrIncrReq = second → Granted (l.next y))
    (silent : ∀ (l : Lsu) y, (l.lsFsm = .idle → y.lsuReq = false) → Granted l →
      (l.step y).dataReq = true → (l.step y).addrIncrReq ≠ second)
    (hok : Machine.Along (next cfg) (Quiet cfg) reset (ins ++ [x])) :
    AtMostOnce (transaction second) cfg ins x := by
  have req : ∀ s x, transaction second cfg s x = true → (lsuStep cfg s x).dataReq = true ∧
      x.dataGnt = true ∧ (lsuStep cfg s x).addrIncrReq = second := by
    intro s x h
    simp only [transaction, dataReq, Bool.and_eq_true, beq_iff_eq] at h
    exact ⟨h.1.1.1, h.1.2, h.2⟩
  refine atMostOnce_of_stage (fun s => MemActive cfg s ∧ Granted s.lsu) ?_ ?_ ?_ ?_ hok
  · intro s x hi h
    exact (of_dataReq hi (req s x h).1).1
  · intro s x hi hq hd h
    obtain ⟨hreq, hg, ha⟩ := req s x h
    exact Or.inr ⟨memActive_of_dataReq hi hq.bus hreq, gnt _ _ hreq hg ha⟩
  · intro s x hi hq hd h
    obtain ⟨hm, hf⟩ := h
    obtain hp | hm' := memActive_next hi hq hd hm
    · exact Or.inl hp
    · exact Or.inr ⟨hm', keep _ _ (fun _ => lsuReq_of_memActive hm) hf⟩
  · intro s x hi h
    obtain ⟨hm, hf⟩ := h
    refine Bool.eq_false_iff.mpr fun h => ?_
    obtain ⟨hreq, -, ha⟩ := req s x h
    exact silent _ _ (fun _ => lsuReq_of_memActive hm) hf hreq ha

/-- A branch or jump that has set the fetch address is over or in its later cycle. -/
theorem branchPcSet_fire (hi : Inv cfg s) (hq : Quiet cfg s x) (hd : deliver cfg s x = false)
    (h : branchPcSet cfg s x = true) :
    Parked cfg (next cfg s x) ∨ (Executing (next cfg s x) ∧
      (next cfg s x).idFsm = .multiCycle ∧ (next cfg s x).branchSetQ = false) := by
  have hx := executing_of_branchPcSet h
  obtain hp | ⟨hs, hx'⟩ := executing_next hq hd hx
  · exact Or.inl hp
  refine Or.inr ⟨hx', ?_⟩
  simp only [branchPcSet, Bool.and_eq_true, pcSet_of_executing hx, Bool.or_eq_true] at h
  cases hj : (idOut cfg s x).jumpSet with
  | true =>
      have hj' : (IdStage.fsmOut cfg s.idFsm (idIn cfg s x)).jumpSet = true := hj
      obtain ⟨-, -, hm, hb, hn⟩ := IdStage.fsmOut_of_jumpSet cfg _ _ hj'
      refine ⟨?_, hb⟩
      split_ifs at hn with hc
      · have := (hn : stallId cfg s x = _).symm.trans hs
        rw [hi.stallMem (by simpa using hm)] at this
        cases this
      · exact hn
  | false =>
      have hb : branchSet cfg s x = true := by simpa [hj] using h.2
      simp only [branchSet] at hb
      split_ifs at hb with hc
      · -- with the branch target ALU a branch does not stall
        have hb' : (IdStage.fsmOut cfg s.idFsm (idIn cfg s x)).branchSetD = true := hb
        obtain ⟨-, -, hm, hn⟩ := IdStage.fsmOut_of_branchSetD cfg _ _ hb'
        rw [idIn_dataIndTiming, if_pos hc] at hn
        have := (hn : stallId cfg s x = _).symm.trans hs
        rw [hi.stallMem (by simpa using hm)] at this
        cases this
      · have hm := hi.branch hb hx
        exact ⟨idFsm_next_of_stall hi hx hm hs, (idOut_multiCycle hx hm).1⟩

/-- An instruction redirects the fetch once. -/
theorem branchPcSet_once (hok : Machine.Along (next cfg) (Quiet cfg) reset (ins ++ [x])) :
    AtMostOnce branchPcSet cfg ins x := by
  refine atMostOnce_of_stage
    (fun s => Executing s ∧ s.idFsm = .multiCycle ∧ s.branchSetQ = false)
    (fun _ _ _ h => executing_of_branchPcSet h)
    (fun _ _ hi hq hd h => branchPcSet_fire hi hq hd h) ?_ ?_ hok
  · intro s x hi hq hd h
    obtain ⟨hx, hm, -⟩ := h
    obtain hp | ⟨hs, hx'⟩ := executing_next hq hd hx
    · exact Or.inl hp
    · exact Or.inr ⟨hx', idFsm_next_of_stall hi hx hm hs, (idOut_multiCycle hx hm).1⟩
  · intro s x hi h
    obtain ⟨hx, hm, hb⟩ := h
    obtain ⟨hd, hj⟩ : (idOut cfg s x).branchSetD = false ∧ (idOut cfg s x).jumpSet = false :=
      idOut_multiCycle hx hm
    simp [branchPcSet, pcSet_of_executing hx, branchSet, hd, hj, hb]

/-- **Exactly-once execution.** In every run in which the bus keeps to its protocol, no
interrupt is taken in the cycle in which a load or store completes, and no debug request is
withdrawn behind a load or store, no instruction does anything twice. -/
theorem exactly_once (cfg : Config) (ins : List CoreIn) (x : CoreIn)
    (hok : Machine.Along (next cfg) (Quiet cfg) reset (ins ++ [x])) : ExactlyOnce cfg ins x where
  lsuReq := lsuReq_once hok
  firstTransaction :=
    transaction_once Lsu.FirstGranted (fun _ _ => Lsu.firstGranted_next)
      (fun _ _ => Lsu.firstGranted_of_gnt)
      (fun _ _ hr h hd => by simp [Lsu.addrIncrReq_of_firstGranted hr h hd]) hok
  secondTransaction :=
    transaction_once Lsu.AllGranted (fun _ _ => Lsu.allGranted_next)
      (fun _ _ => Lsu.allGranted_of_gnt)
      (fun _ _ hr h hd => by simp [Lsu.dataReq_of_allGranted hr h] at hd) hok
  csrWrite := csrOpEn_once hok
  pcSet := branchPcSet_once hok
  instrDone := instrIdDone_once hok

/-- The configuration with a multiplier and without the extensions. -/
def smallConfig : Config := ⟨true, false, false⟩

/-- A cycle in which nothing is asked and nothing is answered. -/
def quietIn : CoreIn where
  fetchEnable := true
  fetchValid := false
  fetchRdata := 0#32
  fetchAddr := 0#32
  fetchErr := false
  fetchErrPlus2 := false
  exValid := true
  branchDecision := false
  branchTaken := false
  adderResultEx := 0#32
  lsuWdata := 0#32
  dataGnt := false
  dataRvalid := false
  dataErr := false
  dataPmpErr := false
  dataRdata := 0#32
  dataIndTiming := false
  illegalCsr := false
  csrMstatusMie := true
  irqPending := false
  irqs := ⟨false, false, false, 0#15⟩
  debugSingleStep := false
  debugEbreakm := false
  debugEbreaku := false
  triggerMatch := false
  privMode := .m
  csrMstatusTw := false
  irqNm := false
  debugReq := false

/-- The core starts and `lw x1, 0(x0)` is handed over to ID and granted. -/
def loadTrace : List CoreIn :=
  [quietIn, quietIn, quietIn, { quietIn with fetchValid := true, fetchRdata := 0x00002083#32 },
    { quietIn with dataGnt := true }]

/-- The load with an interrupt one cycle after its response. -/
theorem exactly_once_load :
    ExactlyOnce smallConfig (loadTrace ++ [{ quietIn with dataRvalid := true }])
      { quietIn with irqNm := true } :=
  exactly_once _ _ _ (by decide +kernel)

/-- A non-maskable interrupt in the cycle of the response, and the bus granting the load a
second time. -/
def replayTrace : List CoreIn :=
  loadTrace ++ [{ quietIn with dataRvalid := true, irqNm := true }, { quietIn with irqNm := true }]

/-- The load of `replayTrace` is executed twice. -/
theorem load_replayed :
    Machine.Along (next smallConfig) (BusOk smallConfig) reset
        (replayTrace ++ [{ quietIn with dataGnt := true }]) ∧
      ¬ ExactlyOnce smallConfig replayTrace { quietIn with dataGnt := true } := by
  refine ⟨by decide +kernel, fun h => ?_⟩
  have hreq := h.lsuReq
  revert hreq
  rw [AtMostOnce]
  decide +kernel

end Core

end CocoIbex
