import CocoIbex.CoreTop

/-!
# The Sleep of the Core

When `core_sleep_o` is high nothing should be under way: no request on a bus, and no load or
store without its response. The controller sleeps behind a `wfi`, the busy flags count one cycle
late, and an access in the write-back stage is behind the LSU that is idle again.
`CoreTop.sleepSafe_iff` has the sleep of every core that keeps to `CoreModel.Lawful`;
`core_sleep_safe_iff` is the result for the two cores.

Both cores are handled together. `CoreModel.Lawful` says of a core what the sleep unit relies
on: what its LSU has under way shows in its busy flag, and a sleeping controller neither fetches
nor executes. The two-stage core has these laws. In the three-stage core an access can be behind
the LSU, in write-back, and the busy flag does not tell of it.

## Main results

* `inv_next` — one cycle keeps the invariant, as long as the core does not fall asleep over an
  access;
* `sleepSafe_iff` — the exact contract: the runs in which the sleep is safe are those in which
  every cycle meets the condition on the state before it;
* `core_sleep_safe_iff` — always with two stages, and with three unless a `wfi` overtakes the
  access in write-back.
-/

namespace CocoIbex

namespace Ctrl

variable {s : Ctrl} {y : CtrlIn}

/-- The controller waits for something to wake it up. -/
def asleep (s : Ctrl) (x : CtrlDec) : Bool :=
  s.ctrlFsm == .waitSleep
    || (s.ctrlFsm == .sleep
      && !(x.irqNm || x.irqPending || x.debugReq || s.debugModeQ || x.debugSingleStep))

/-- `ctrl_busy_o` is low just then. -/
theorem out_ctrlBusy : (out s y).ctrlBusy = !asleep s y.toCtrlDec := by
  simp only [out, asleep]
  cases hf : s.ctrlFsm with
  | flush =>
      simp only [flushOut, flushBase]
      split_ifs <;> rfl
  | dbgTakenIf =>
      simp only [dbgTakenIfOut]
      split_ifs <;> rfl
  | irqTaken =>
      simp only [irqTakenOut]
      split_ifs <;> rfl
  | sleep => simp
  | _ => rfl

/-- What the controller assigns while it is asleep. -/
theorem out_of_asleep (h : asleep s y.toCtrlDec = true) :
    (out s y).ctrlFsmNs = .sleep ∧ (out s y).haltIf = true ∧ (out s y).flushId = true := by
  simp only [asleep, Bool.or_eq_true, Bool.and_eq_true, beq_iff_eq, Bool.not_eq_true'] at h
  obtain hf | ⟨hf, hwake⟩ := h
  · simp [out, hf]
  · simp [out, hf, hwake]

/-- Nothing is fetched in a controller that sleeps or is reset. -/
theorem out_instrReq (h : s.ctrlFsm = .reset ∨ s.ctrlFsm = .sleep) :
    (out s y).instrReq = false := by
  obtain hf | hf := h <;> simp [out, hf]

end Ctrl

/-! ### What a core has to keep to -/

/-- The laws of a core: only an instruction that the controller runs asks for memory, and
the requests that are not answered belong to a load or store in ID or in write-back. -/
structure CoreModel.Lawful {σ : Type} (M : CoreModel σ) (Inv : σ → ℕ → Prop) : Prop where
  /-- only the next state depends on the fetch port -/
  ctrlIn_feed : ∀ s x v o, M.ctrlIn s (x.feed v o) = M.ctrlIn s x
  lsuIn_feed : ∀ s x v o, M.lsuIn s (x.feed v o) = M.lsuIn s x
  waits_feed : ∀ s x v o, M.waits s (x.feed v o) = M.waits s x
  ctrl_next : ∀ s x, M.ctrl (M.next s x) = (M.ctrl s).next (M.ctrlIn s x)
  inv_next : ∀ s n x, Inv s n → M.DataOk s n x →
    Inv (M.next s x) (n + x.dataGnt.toNat - x.dataRvalid.toNat)
  /-- the LSU rests -/
  busy : ∀ s n, Inv s n → (M.ctrl s).ctrlFsm ≠ .decode → (M.lsu s).busy = false
  lsuReq : ∀ s x, (M.ctrl s).ctrlFsm ≠ .decode → (M.lsuIn s x).lsuReq = false
  answered : ∀ s n, Inv s n → (M.ctrl s).ctrlFsm ≠ .decode → M.memInWb s = false → n = 0
  /-- the instruction in ID is gone when it is flushed -/
  memInId : ∀ s x, ((M.ctrl s).out (M.ctrlIn s x)).haltIf = true →
    ((M.ctrl s).out (M.ctrlIn s x)).flushId = true → M.memInId (M.next s x) = false
  memInWb : ∀ s x, (M.ctrl s).ctrlFsm ≠ .decode → M.memInWb (M.next s x) = M.waits s x

namespace CoreTop

variable {σ : Type} (M : CoreModel σ) (s : CoreTop σ) (x : CoreTopIn)

/-- Nothing is under way in this cycle. -/
structure Safe : Prop where
  dataOut : s.dataOut = 0
  instrOut : s.instrOut = 0
  dataReq : M.dataReq s.core x.toWbCoreIn = false
  instrReq : s.instrReq M x = false
  memInId : M.memInId s.core = false
  memInWb : M.memInWb s.core = false

/-- Whatever comes from outside, the core only sleeps where it is safe. -/
def SleepSafe : Prop := ∀ x, s.coreSleep x = true → s.Safe M x

/-- A core that goes to sleep has no load or store in write-back without its response. -/
def SleepOk : Prop :=
  (M.ctrl s.core).asleep (M.ctrlIn s.core x.toWbCoreIn).toCtrlDec = true →
    s.prefetch.busy (s.prefetchIn M x) = false → M.waits s.core x.toWbCoreIn = false

/-- What the core with its fetch unit keeps to. Behind the register of the sleep unit
nothing is under way. -/
structure Inv (CInv : σ → ℕ → Prop) : Prop where
  core : CInv s.core s.dataOut
  wf : s.prefetch.WF
  alone : s.prefetch.Alone
  instrOut : s.instrOut = s.prefetch.unanswered
  ctrl : s.coreBusyQ = false →
    (M.ctrl s.core).ctrlFsm = .reset ∨ (M.ctrl s.core).ctrlFsm = .sleep
  fetch : s.coreBusyQ = false →
    s.prefetch.validReqQ = false ∧ s.prefetch.slot0 = .empty ∧ s.prefetch.slot1 = .empty
  memInId : s.coreBusyQ = false → M.memInId s.core = false
  memInWb : s.coreBusyQ = false → M.memInWb s.core = false

variable {M s x} {CInv : σ → ℕ → Prop}

/-- A controller that sleeps or is reset runs nothing. -/
theorem Inv.ctrl_ne_decode (hi : s.Inv M CInv) (hb : s.coreBusyQ = false) :
    (M.ctrl s.core).ctrlFsm ≠ .decode := by
  obtain h | h := hi.ctrl hb <;> simp [h]

/-- Nor does one that is asleep. -/
theorem ctrl_ne_decode (h : (M.ctrl s.core).asleep (M.ctrlIn s.core x.toWbCoreIn).toCtrlDec
    = true) : (M.ctrl s.core).ctrlFsm ≠ .decode := by
  intro hf
  simp [Ctrl.asleep, hf] at h

/-- Where the invariant holds the sleep is safe. -/
theorem Inv.sleepSafe (hM : M.Lawful CInv) (hi : s.Inv M CInv) : s.SleepSafe M := by
  intro x hx
  simp only [coreSleep, clockEn, Bool.not_eq_true', Bool.or_eq_false_iff] at hx
  obtain ⟨⟨⟨hb, -⟩, -⟩, -⟩ := hx
  have hrun := hi.ctrl_ne_decode hb
  obtain ⟨hq, h0, h1⟩ := hi.fetch hb
  have hidle : (M.lsu s.core).lsFsm = .idle := by
    simpa [Lsu.busy] using hM.busy _ _ hi.core hrun
  have hreq : (s.prefetchIn M x).req = false := Ctrl.out_instrReq (hi.ctrl hb)
  refine ⟨hM.answered _ _ hi.core hrun (hi.memInWb hb), ?_, ?_, ?_, hi.memInId hb, hi.memInWb hb⟩
  · rw [hi.instrOut, PrefetchBuffer.unanswered,
      (PrefetchBuffer.pending_eq_nil hi.wf).mpr ⟨h0, h1⟩]
    rfl
  · simp [CoreModel.dataReq, Lsu.step_dataReq, hidle, hM.lsuReq _ _ hrun]
  · simp [instrReq, PrefetchBuffer.validReq, PrefetchBuffer.validNewReq, hq, hreq]

/-- The buses of the core inside. -/
theorem BusOk.core (hM : M.Lawful CInv) (hok : s.BusOk M x) :
    M.DataOk s.core s.dataOut (s.coreIn M x) where
  gnt := by
    have h := hok.data.gnt
    simp only [CoreModel.dataReq, coreIn, hM.lsuIn_feed] at h ⊢
    exact h
  rvalid := hok.data.rvalid
  pmpWait := hok.data.pmpWait
  pmpGranted := hok.data.pmpGranted

/-- A busy flag that is low: the core is asleep, and fetches nothing. -/
theorem of_coreBusyD (h : s.coreBusyD M x = false) :
    (M.ctrl s.core).asleep (M.ctrlIn s.core x.toWbCoreIn).toCtrlDec = true ∧
      s.prefetch.busy (s.prefetchIn M x) = false := by
  simp only [coreBusyD, ctrlOut, Ctrl.out_ctrlBusy, Bool.or_eq_false_iff, Bool.not_eq_false'] at h
  exact h.1

/-- The load or store in write-back after a cycle in which the core is asleep. -/
theorem memInWb_next (hM : M.Lawful CInv) (h : (M.ctrl s.core).asleep
    (M.ctrlIn s.core x.toWbCoreIn).toCtrlDec = true) :
    M.memInWb (s.next M x).core = M.waits s.core x.toWbCoreIn := by
  have hnext : (s.next M x).core = M.next s.core (s.coreIn M x) := rfl
  rw [hnext, hM.memInWb _ _ (ctrl_ne_decode h), coreIn, hM.waits_feed]

/-- One cycle keeps the invariant when the core does not go to sleep too early. -/
theorem inv_next (hM : M.Lawful CInv) (hi : s.Inv M CInv) (hbus : s.BusOk M x)
    (hok : s.SleepOk M x) : (s.next M x).Inv M CInv where
  core := hM.inv_next _ _ _ hi.core (hbus.core hM)
  wf := PrefetchBuffer.wf_next hi.wf
  alone := PrefetchBuffer.alone_next hi.wf
  instrOut := by
    have hcount := PrefetchBuffer.unanswered_next (x := s.prefetchIn M x) hi.wf hi.alone
      hbus.instrGnt fun hv => hi.instrOut ▸ hbus.instrRvalid hv
    rw [← hi.instrOut] at hcount
    exact hcount.symm
  ctrl := by
    intro hb
    have hnext : (s.next M x).core = M.next s.core (s.coreIn M x) := rfl
    rw [hnext, hM.ctrl_next, coreIn, hM.ctrlIn_feed]
    exact Or.inr (Ctrl.out_of_asleep (of_coreBusyD hb).1).1
  fetch := fun hb => PrefetchBuffer.rest_next hi.wf (of_coreBusyD hb).2
  memInId := by
    intro hb
    obtain ⟨-, hhalt, hflush⟩ := Ctrl.out_of_asleep (of_coreBusyD hb).1
    refine hM.memInId s.core (s.coreIn M x) ?_ ?_
    · rw [coreIn, hM.ctrlIn_feed]
      exact hhalt
    · rw [coreIn, hM.ctrlIn_feed]
      exact hflush
  memInWb := by
    intro hb
    obtain ⟨hsleep, hfetch⟩ := of_coreBusyD hb
    rw [memInWb_next hM hsleep]
    exact hok hsleep hfetch

/-- A core that goes to sleep too early is asleep in the next cycle with a load or store in
write-back. -/
theorem not_sleepSafe_next (hM : M.Lawful CInv) (hi : s.Inv M CInv) (hok : ¬ s.SleepOk M x) :
    ¬ (s.next M x).SleepSafe M := by
  simp only [SleepOk, not_forall, Bool.not_eq_false] at hok
  obtain ⟨hsleep, hfetch, hwaits⟩ := hok
  have hlsu := hM.busy _ _ hi.core (ctrl_ne_decode hsleep)
  have hb : (s.next M x).coreBusyQ = false := by
    change s.coreBusyD M x = false
    simp [coreBusyD, ctrlOut, Ctrl.out_ctrlBusy, hsleep, hfetch, hlsu]
  intro hsafe
  have hnow := (hsafe .idle (by simp [coreSleep, clockEn, hb, CoreTopIn.idle])).memInWb
  rw [memInWb_next hM hsleep, hwaits] at hnow
  cases hnow

/-- **The exact contract of the sleep**, for every core that keeps to the laws. -/
theorem sleepSafe_iff (hM : M.Lawful CInv) {core : σ} (hreset : CInv core 0)
    (hctrl : (M.ctrl core).ctrlFsm = .reset) (hid : M.memInId core = false)
    (hwb : M.memInWb core = false) (pb : PrefetchBuffer) (ins : List CoreTopIn)
    (hbus : Machine.Along (next M) (BusOk M) (reset core pb) ins) :
    (∀ pre, pre <+: ins → (Machine.run (next M) (reset core pb) pre).SleepSafe M) ↔
      Machine.Along (next M) (SleepOk M) (reset core pb) ins := by
  refine Machine.good_iff_along_of (fun s => s.Inv M CInv) (fun s => s.SleepSafe M)
    (fun _ _ hi hbus hok => inv_next hM hi hbus hok) (fun _ hi => hi.sleepSafe hM)
    (fun _ _ hi _ hok => not_sleepSafe_next hM hi hok) ?_ ins hbus
  exact
    { core := hreset
      wf := PrefetchBuffer.wf_reset pb
      alone := fun h => nomatch h
      instrOut := rfl
      ctrl := fun _ => Or.inl hctrl
      fetch := fun _ => ⟨rfl, rfl, rfl⟩
      memInId := fun _ => hid
      memInWb := fun _ => hwb }

end CoreTop

/-! ### The two cores -/

/-- An instruction that is flushed, with none handed over, is gone. -/
theorem IfIdReg.next_of_flush {r : IfIdReg} {y : IfIdIn} (hhalt : y.haltIf = true)
    (hflush : y.flushId = true) : (r.next y).instrValidId = false := by
  simp [next, IfIdIn.idInReady, IfIdIn.instrValidClear, hhalt, hflush]

/-- The two-stage core keeps to the rules that the sleep rests on. -/
theorem Core.lawful (cfg : Config) :
    (Core.model cfg).Lawful fun s n => Core.Inv cfg s ∧ n = s.outstanding where
  ctrlIn_feed _ _ _ _ := rfl
  lsuIn_feed _ _ _ _ := rfl
  waits_feed _ _ _ _ := rfl
  ctrl_next _ _ := rfl
  inv_next := by
    rintro s n x ⟨hi, rfl⟩ hok
    refine ⟨Core.inv_next hi ⟨?_, hok.rvalid, hok.pmpWait, hok.pmpGranted⟩, rfl⟩
    intro hg
    obtain ⟨hr, hp⟩ := hok.gnt hg
    have hr' : (lsuStep cfg s x.toCoreIn).dataReq = true := hr
    simp [dataReq, hr', hp]
  busy := by
    rintro s n ⟨hi, -⟩ hf
    exact (hi.rest fun hm => hf hm.1.2.2).1
  lsuReq := by
    intro s x hf
    by_contra hr
    exact hf (of_lsuReq (Bool.not_eq_false _ ▸ hr)).1.2.2
  answered := by
    rintro s n ⟨hi, rfl⟩ hf -
    exact (hi.rest fun hm => hf hm.1.2.2).2.1
  memInId := by
    intro s x hhalt hflush
    have hgone : (next cfg s x.toCoreIn).ifId.instrValidId = false :=
      IfIdReg.next_of_flush hhalt ((Ctrl.out_flushId _ _).symm.trans hflush)
    simp [model, hgone]
  memInWb _ _ _ := rfl

namespace WbCore

variable {cfg : Config} {s : WbCore} {n : ℕ} {x : WbCoreIn}

/-- The unanswered requests in the three-stage core: without an access there is none. -/
structure Quiet (cfg : Config) (s : WbCore) (n : ℕ) : Prop where
  core : Inv cfg s
  bus : s.lsu.Bus n
  rest : s.inWb = false → s.lsu.busy = false → n = 0 ∧ s.lsu.pmpErrQ = false

/-- Only the controller in `DECODE` has an instruction execute. -/
theorem not_executing (hf : s.ctrl.ctrlFsm ≠ .decode) : instrExecuting cfg s x = false := by
  by_contra hx
  exact hf (of_instrExecuting (Bool.not_eq_false _ ▸ hx)).2.2.2.1

/-- An idle LSU takes the next access when the last one is answered. -/
theorem Quiet.start (hi : Quiet cfg s n) (hrv : x.dataRvalid = true → n ≠ 0)
    (hf : s.lsu.lsFsm = .idle) (hr : lsuReq cfg s x = true) : n = x.dataRvalid.toNat := by
  have hb := hi.bus
  simp only [Lsu.Bus, hf] at hb
  have hout : (s.inWb && !lsuValid cfg s x) = false :=
    (of_instrExecuting (of_lsuReq hr).1).2.2.2.2.2
  cases hv : x.dataRvalid with
  | true =>
      have hne := hrv hv
      simp only [Bool.toNat_true]
      omega
  | false =>
      cases hin : s.inWb with
      | false => exact (hi.rest hin (by simp [Lsu.busy, hf])).1
      | true =>
          -- the answer is that of the PMP
          rw [hin, Bool.true_and, Bool.not_eq_false'] at hout
          have hvalid : ((lsuIn cfg s x false).dataRvalid || s.lsu.pmpErrQ) = true := by
            simp only [lsuValid, Lsu.lsuRespValid, Bool.and_eq_true] at hout
            exact hout.1
          have hnone : (lsuIn cfg s x false).dataRvalid = false := hv
          rw [hnone, Bool.false_or] at hvalid
          exact hb.1 hvalid

/-- One cycle keeps the count of the requests. -/
theorem quiet_next (hi : Quiet cfg s n) (hok : (model cfg).DataOk s n x) :
    Quiet cfg (next cfg s x) (n + x.dataGnt.toNat - x.dataRvalid.toNat) where
  core := inv_next hi.core
  bus := Lsu.bus_next hi.bus
    ⟨hok.gnt, hok.rvalid, hok.pmpWait, hok.pmpGranted, hi.start hok.rvalid⟩
  rest := by
    intro hin hb
    cases hreq : lsuReq cfg s x with
    | true =>
        rw [inWb_of_lsuReq hreq hb] at hin
        cases hin
    | false =>
        have hf := hi.core.idle_of_not_lsuReq hreq
        have hreq' : (lsuIn cfg s x (lsuReq cfg s x)).lsuReq = false := hreq
        have hp : (next cfg s x).lsu.pmpErrQ = false := by
          simp [next, Lsu.next, Lsu.step, hf, hreq']
        have hg : x.dataGnt = false := by
          by_contra hne
          have hr := (hok.gnt (Bool.not_eq_false _ ▸ hne)).1
          simp [CoreModel.dataReq, model, Lsu.step_dataReq, hf, hreq'] at hr
        refine ⟨?_, hp⟩
        rw [hg, Bool.toNat_false, Nat.add_zero]
        have hbus := hi.bus
        simp only [Lsu.Bus, hf] at hbus
        cases hold : s.inWb with
        | false => simp [(hi.rest hold (by simp [Lsu.busy, hf])).1]
        | true =>
            have hvalid := lsuValid_of_gone hold hin
            simp only [lsuValid, Lsu.lsuRespValid, Bool.and_eq_true, Bool.or_eq_true] at hvalid
            obtain hv | hp := hvalid.1
            · have hv' : x.dataRvalid = true := hv
              simp only [hv', Bool.toNat_true]
              omega
            · simp [hbus.1 hp]

/-- The three-stage core keeps to them where it is quiet. -/
theorem lawful (cfg : Config) : (model cfg).Lawful (Quiet cfg) where
  ctrlIn_feed _ _ _ _ := rfl
  lsuIn_feed _ _ _ _ := rfl
  waits_feed _ _ _ _ := rfl
  ctrl_next _ _ := rfl
  inv_next _ _ _ hi hok := quiet_next hi hok
  busy := by
    intro s n hi hf
    by_contra hb
    exact hf (hi.core.active (Bool.not_eq_false _ ▸ hb)).fsm
  lsuReq := by
    intro s x hf
    by_contra hr
    have hx := (of_lsuReq (Bool.not_eq_false _ ▸ hr)).1
    rw [not_executing hf] at hx
    cases hx
  answered := by
    intro s n hi hf hin
    refine (hi.rest hin ?_).1
    by_contra hb
    exact hf (hi.core.active (Bool.not_eq_false _ ▸ hb)).fsm
  memInId := by
    intro s x hhalt hflush
    have hgone : (next cfg s x).ifId.instrValidId = false :=
      IfIdReg.next_of_flush hhalt ((Ctrl.out_flushId _ _).symm.trans hflush)
    simp [model, hgone]
  memInWb := by
    intro s x hf
    change (next cfg s x).inWb = outstanding cfg s x
    cases hout : outstanding cfg s x with
    | true => exact inWb_of_outstanding hout
    | false =>
        by_contra hin
        obtain ⟨hv, ht⟩ := inWb_iff.mp (Bool.not_eq_false _ ▸ hin)
        obtain ⟨hen, -⟩ | ⟨-, hwait, -⟩ := wb_next hv ht
        · simp only [enWb, IdWb.instrDone, Bool.and_eq_true] at hen
          have hx : instrExecuting cfg s x = true := hen.2
          rw [not_executing hf] at hx
          cases hx
        · rw [hout] at hwait
          cases hwait

end WbCore

/-! ### The result -/

namespace CoreTop

/-- The sleep of the two-stage core is safe in every run. That of the three-stage core is
safe in a run if and only if in each cycle in which the controller is asleep and the
prefetch buffer has nothing to do, no load or store waits in write-back for its response. -/
theorem core_sleep_safe_iff (cfg : Config) (pb : PrefetchBuffer) (ins : List CoreTopIn) :
    (Machine.Along (next (Core.model cfg)) (BusOk (Core.model cfg)) (reset .reset pb) ins →
      (Machine.run (next (Core.model cfg)) (reset .reset pb) ins).SleepSafe (Core.model cfg)) ∧
    (Machine.Along (next (WbCore.model cfg)) (BusOk (WbCore.model cfg)) (reset .reset pb) ins →
      ((∀ pre, pre <+: ins →
          (Machine.run (next (WbCore.model cfg)) (reset .reset pb) pre).SleepSafe
            (WbCore.model cfg)) ↔
        Machine.Along (next (WbCore.model cfg)) (SleepOk (WbCore.model cfg))
          (reset .reset pb) ins)) := by
  constructor
  · intro hbus
    refine (sleepSafe_iff (Core.lawful cfg) ⟨Core.inv_reset, rfl⟩ rfl rfl rfl pb ins hbus).mpr ?_
      ins List.prefix_rfl
    exact Machine.along_of_forall (fun _ _ _ _ => rfl) _ ins
  · intro hbus
    refine sleepSafe_iff (WbCore.lawful cfg) ⟨WbCore.inv_reset, ?_, ?_⟩ rfl rfl rfl pb ins hbus
    · exact ⟨fun _ => rfl, Nat.zero_le 1⟩
    · exact fun _ _ => ⟨rfl, rfl⟩

/-- A cycle of the instruction bus, which has the word `w`. -/
def fetchCycle (instrGnt instrRvalid : Bool) (w : BitVec 32) : CoreTopIn :=
  { CoreTopIn.idle with instrGnt := instrGnt, instrRvalid := instrRvalid, instrRdata := w }

/-- A load that is granted and not answered, and a `wfi` behind it. -/
def loadThenWfi : List CoreTopIn :=
  [.idle, fetchCycle true false 0#32, fetchCycle true true 0x00002083#32,
    { fetchCycle true true 0x10500073#32 with dataGnt := true },
    fetchCycle true true 0x00000013#32, fetchCycle true true 0x00000013#32,
    fetchCycle false true 0x00000013#32, .idle]

/-- The three-stage core sleeps while the load waits for its response. -/
theorem sleeps_with_load :
    let M := WbCore.model ⟨true, false, false⟩
    let fifo : FetchFifo :=
      ⟨false, false, false, ⟨0#32, false⟩, ⟨0#32, false⟩, ⟨0#32, false⟩, 0#31⟩
    let pb : PrefetchBuffer := ⟨false, false, .empty, .empty, 0#32, 0#32, fifo⟩
    let s := Machine.run (next M) (reset .reset pb) loadThenWfi
    Machine.Along (next M) (BusOk M) (reset .reset pb) loadThenWfi ∧
      s.coreSleep .idle = true ∧ s.dataOut = 1 ∧ M.memInWb s.core = true := by
  decide +kernel

end CoreTop

end CocoIbex
