import CocoIbex.PrefetchBuffer
import CocoIbex.WbCoreStep

/-!
# The Core and its Fetch Unit

`ibex_core` from the outside: a core, of two or of three stages, with the prefetch buffer at its
fetch port and the register behind `core_sleep_o`. What the fetch unit and the sleep unit use of
a core is `CoreModel`; the CSRs, EX, the target of a branch and both buses are inputs. The
granted and unanswered requests on the two buses are counted along.

A `CoreModel` is a state and a step with the few signals that leave the core towards the fetch
and the clock: `instr_req_int`, the redirect, whether a word is taken, and whether the
controller and the LSU are busy. `Core.model` and `WbCore.model` are the two that there are.
What holds of every model is stated once, and the two cores are compared by their laws instead
of by their steps.

The clock gate is commented out in the source, so a core that sleeps goes on taking steps;
`clockEn` is what `core_sleep_o` tells of it.

No result is stated in this module; the sleep is the subject of `CoreSleep`.
-/

namespace CocoIbex

/-- A cycle with the output `o` of the fetch unit at the fetch port. -/
def WbCoreIn.feed (x : WbCoreIn) (valid : Bool) (o : FetchOut) : WbCoreIn :=
  { x with
    fetchValid := valid
    fetchRdata := o.rdata
    fetchAddr := o.addr
    fetchErr := o.err
    fetchErrPlus2 := o.errPlus2 }

/-- A core as the fetch unit and the sleep unit see it. -/
structure CoreModel (σ : Type) where
  next : σ → WbCoreIn → σ
  ctrl : σ → Ctrl
  ctrlIn : σ → WbCoreIn → CtrlIn
  lsu : σ → Lsu
  lsuIn : σ → WbCoreIn → LsuIn
  /-- a load or store is in ID -/
  memInId : σ → Bool
  /-- a load or store is in the write-back stage -/
  memInWb : σ → Bool
  /-- it does not have its last response in this cycle -/
  waits : σ → WbCoreIn → Bool

/-- The two-stage core. -/
def Core.model (cfg : Config) : CoreModel Core where
  next s x := next cfg s x.toCoreIn
  ctrl s := s.ctrl
  ctrlIn s x := ctrlIn cfg s x.toCoreIn
  lsu s := s.lsu
  lsuIn s x := lsuIn cfg s x.toCoreIn (lsuReq cfg s x.toCoreIn)
  memInId s := s.ifId.instrValidId && memInsn cfg s
  memInWb _ := false
  waits _ _ := false

/-- The three-stage core. -/
def WbCore.model (cfg : Config) : CoreModel WbCore where
  next := next cfg
  ctrl s := s.ctrl
  ctrlIn := ctrlIn cfg
  lsu s := s.lsu
  lsuIn s x := lsuIn cfg s x (lsuReq cfg s x)
  memInId s := s.ifId.instrValidId && memInsn cfg s
  memInWb := inWb
  waits := outstanding cfg

namespace CoreModel

variable {σ : Type} (M : CoreModel σ) (s : σ) (n : ℕ) (x : WbCoreIn)

/-- The request of the LSU, ahead of the PMP. -/
def dataReq : Bool := ((M.lsu s).step (M.lsuIn s x)).dataReq

/-- The data bus with `n` unanswered requests keeps to the protocol: a grant answers a
request that the PMP lets through, a response a granted request of an earlier cycle. The PMP
verdict on a request that waits for its grant, or for the response to the first part, does
not change. -/
structure DataOk : Prop where
  gnt : x.dataGnt = true → M.dataReq s x = true ∧ x.dataPmpErr = false
  rvalid : x.dataRvalid = true → n ≠ 0
  pmpWait : (M.lsu s).lsFsm = .waitGnt ∨ (M.lsu s).lsFsm = .waitGntMis →
    x.dataPmpErr = (M.lsu s).pmpErrQ
  pmpGranted : (M.lsu s).lsFsm = .waitRvalidMisGntsDone → x.dataPmpErr = false

/-- The data bus keeps to its protocol or not within one cycle. -/
instance : Decidable (M.DataOk s n x) :=
  decidable_of_iff
    ((x.dataGnt = true → M.dataReq s x = true ∧ x.dataPmpErr = false) ∧
      (x.dataRvalid = true → n ≠ 0) ∧
      ((M.lsu s).lsFsm = .waitGnt ∨ (M.lsu s).lsFsm = .waitGntMis →
        x.dataPmpErr = (M.lsu s).pmpErrQ) ∧
      ((M.lsu s).lsFsm = .waitRvalidMisGntsDone → x.dataPmpErr = false))
    ⟨fun h => ⟨h.1, h.2.1, h.2.2.1, h.2.2.2⟩, fun h => ⟨h.gnt, h.rvalid, h.pmpWait, h.pmpGranted⟩⟩

end CoreModel

/-- The registers of the core and its fetch unit. -/
structure CoreTop (σ : Type) where
  core : σ
  prefetch : PrefetchBuffer
  coreBusyQ : Bool
  /-- granted data requests that are not answered; not a register -/
  dataOut : ℕ
  /-- granted instruction requests that are not answered; not a register -/
  instrOut : ℕ

/-- What they see in one cycle. The fetch port of `toWbCoreIn` is replaced by that of the
prefetch buffer. -/
structure CoreTopIn extends WbCoreIn where
  fetchAddrN : BitVec 32
  instrGnt : Bool
  instrRvalid : Bool
  instrRdata : BitVec 32
  instrErr : Bool
  instrPmpErr : Bool
  deriving DecidableEq

/-- A cycle in which nothing comes from outside. -/
def CoreTopIn.idle : CoreTopIn where
  fetchEnable := true
  fetchValid := false
  fetchRdata := 0#32
  fetchAddr := 0#32
  fetchErr := false
  fetchErrPlus2 := false
  exValid := true
  branchDecision := false
  branchTaken := false
  adderResultEx := 0#32
  lsuWdata := 0#32
  dataGnt := false
  dataRvalid := false
  dataErr := false
  dataPmpErr := false
  dataRdata := 0#32
  dataIndTiming := false
  illegalCsr := false
  csrMstatusMie := false
  irqPending := false
  irqs := ⟨false, false, false, 0#15⟩
  debugSingleStep := false
  debugEbreakm := false
  debugEbreaku := false
  triggerMatch := false
  privMode := .m
  csrMstatusTw := false
  irqNm := false
  debugReq := false
  rfWdataId := 0#32
  fetchAddrN := 0#32
  instrGnt := false
  instrRvalid := false
  instrRdata := 0#32
  instrErr := false
  instrPmpErr := false

namespace CoreTop

variable {σ : Type} (M : CoreModel σ) (s : CoreTop σ) (x : CoreTopIn)

/-- The outputs of the controller; they do not depend on the fetch port. -/
def ctrlOut : CtrlOut := (M.ctrl s.core).out (M.ctrlIn s.core x.toWbCoreIn)

/-- The inputs of the prefetch buffer. -/
def prefetchIn : PrefetchIn where
  req := (s.ctrlOut M x).instrReq
  branch := (s.ctrlOut M x).pcSet
  addr := x.fetchAddrN.extractLsb' 1 31 ++ 0#1
  ready := (M.ctrl s.core).idInReady (M.ctrlIn s.core x.toWbCoreIn)
  instrGnt := x.instrGnt
  instrRdata := x.instrRdata
  instrErr := x.instrErr
  instrPmpErr := x.instrPmpErr
  instrRvalid := x.instrRvalid

/-- The inputs of the core. -/
def coreIn : WbCoreIn :=
  x.toWbCoreIn.feed (s.prefetch.valid (s.prefetchIn M x)) (s.prefetch.out (s.prefetchIn M x))

/-- The request of the prefetch buffer, ahead of the PMP. -/
def instrReq : Bool := s.prefetch.validReq (s.prefetchIn M x)

/-- `core_busy_d`. -/
def coreBusyD : Bool :=
  (s.ctrlOut M x).ctrlBusy || s.prefetch.busy (s.prefetchIn M x) || (M.lsu s.core).busy

/-- `clock_en`. -/
def clockEn : Bool := s.coreBusyQ || x.debugReq || x.irqPending || x.irqNm

/-- `core_sleep_o`. -/
def coreSleep : Bool := !s.clockEn x

/-- One clock edge. The clock gate is commented out in the source. -/
def next : CoreTop σ where
  core := M.next s.core (s.coreIn M x)
  prefetch := s.prefetch.next (s.prefetchIn M x)
  coreBusyQ := s.coreBusyD M x
  dataOut := s.dataOut + x.dataGnt.toNat - x.dataRvalid.toNat
  instrOut := s.instrOut + x.instrGnt.toNat - x.instrRvalid.toNat

/-- After a reset. The addresses and data in the prefetch buffer have none. -/
def reset (core : σ) (pb : PrefetchBuffer) : CoreTop σ := ⟨core, pb.reset, false, 0, 0⟩

/-- Both buses keep to the protocol. -/
structure BusOk : Prop where
  data : M.DataOk s.core s.dataOut x.toWbCoreIn
  instrGnt : x.instrGnt = true → s.instrReq M x = true ∧ x.instrPmpErr = false
  instrRvalid : x.instrRvalid = true → s.instrOut ≠ 0

/-- So do both buses. -/
instance : Decidable (BusOk M s x) :=
  decidable_of_iff
    (M.DataOk s.core s.dataOut x.toWbCoreIn ∧
      (x.instrGnt = true → s.instrReq M x = true ∧ x.instrPmpErr = false) ∧
      (x.instrRvalid = true → s.instrOut ≠ 0))
    ⟨fun h => ⟨h.1, h.2.1, h.2.2⟩, fun h => ⟨h.data, h.instrGnt, h.instrRvalid⟩⟩

end CoreTop

end CocoIbex
