import CocoIbex.FetchTop
import CocoIbex.LsuRam
import CocoIbex.QuietHart
import CocoIbex.WholeExec

/-!
# The Top Level

`ibex_top` with `MEM_SECURE`: the core with its instruction ROM and its data RAM, and nothing
else. The ROM has a registered grant, the RAM grants at once and answers two cycles later. What
the core drives in a cycle depends on its registers and those of the RAM only, so the fetch port
and the grants are wired without a loop.

The parts are those that have been verified on their own: the whole hart, the fetch path and the
LSU on the secure RAM. `next` feeds each with the outputs of the others, and the lemmas on the
wires (`lines_coreIn`) say that a signal that is computed before the inputs are complete is the
one that the hart computes from all of them.

`Fetching` is what holds of the fetch unit in any run in which the program in the ROM stays as
it is: the word that it hands over next is the one at the address of the fetch.

## Main results

* `Fetching.next` — the step lemma;
* `undisturbed` — nothing disturbs the core but what the instructions do;
* `owes_next` — the RAM owes an answer in the cycle after each grant, which is what the protocol
  of the data bus asks for.
-/

namespace CocoIbex

/-- The core, the fetch path with the ROM, and the RAM. -/
structure IbexTop (n : ℕ) (m : Multiplier) (a b : ℕ) where
  hart : WholeHart n m
  fetch : FetchTop
  ram : Ram1pSecure a b

/-- The port that loads the ROM. -/
structure TopIn where
  instrWe : Bool
  instrWdata : BitVec 32

/-- A cycle in which the ROM is not written. -/
def TopIn.idle : TopIn := ⟨false, 0#32⟩

namespace IbexTop

variable {n : ℕ} {m : Multiplier} {a b : ℕ} (P : WholeParams) (t : IbexTop n m a b) (x : TopIn)

/-! ### The wires -/

/-- What the core sees of the constants and of the RAM. There are no interrupts and no debug
requests, and `boot_addr_i` and `hart_id_i` are zero. -/
def lines : WholeIn :=
  { WholeIn.idle with
    dataRvalid := t.ram.rvalid
    dataRdata := t.ram.rdataO }

/-- The outputs of the controller. -/
def ctrlOut : CtrlOut := t.hart.arch.obs.hart.ctrlOut P.toHartParams (t.hart.wired P t.lines)

/-- The inputs of the prefetch buffer. -/
def fetchIn : FetchTopIn where
  req := (t.ctrlOut P).instrReq
  branch := (t.ctrlOut P).pcSet
  addr := fetchAddr (t.hart.arch.obs.hart.fetchAddrN P.toHartParams (t.hart.wired P t.lines))
  ready := t.hart.arch.obs.hart.idInReady P.toHartParams (t.hart.wired P t.lines)
  instrWe := x.instrWe
  instrWdata := x.instrWdata

/-- `data_req`. -/
def dataReq : Bool := Core.dataReq P.cfg t.hart.core (t.hart.coreIn P t.lines)

/-- The inputs of the LSU. -/
def lsuIn : LsuIn :=
  { t.hart.arch.obs.lsuIn P.toHartParams (t.hart.wired P t.lines) with dataGnt := t.dataReq P }

/-- The inputs of the RAM. -/
def ramIn : RamIn where
  req := t.dataReq P
  we := (Core.main P.cfg t.hart.core).dataWe
  be := t.hart.core.lsu.dataBe (t.lsuIn P)
  addr := (t.lsuIn P).dataAddr
  wdata := (t.lsuIn P).dataWdata

/-- The inputs of the core. -/
def coreIn : WholeIn :=
  { t.lines with
    fetchValid := t.fetch.valid (t.fetchIn P x)
    fetchRdata := (t.fetch.out (t.fetchIn P x)).rdata
    fetchErr := (t.fetch.out (t.fetchIn P x)).err
    fetchErrPlus2 := (t.fetch.out (t.fetchIn P x)).errPlus2
    dataGnt := t.dataReq P }

/-- One clock edge. -/
def next : IbexTop n m a b where
  hart := t.hart.next P (t.coreIn P x)
  fetch := t.fetch.next (t.fetchIn P x)
  ram := t.ram.next (t.ramIn P)

/-- The instruction in ID leaves it. -/
def retires : Bool := Core.instrIdDone P.cfg t.hart.core (t.hart.coreIn P (t.coreIn P x))

variable {P t x}

/-! ### No loops -/

/-- What the fetch unit and the RAM answer in a cycle does not enter what the core asks of them:
the redirect, the address, the readiness and the access are those of the lines ahead of it. -/
theorem lines_coreIn :
    t.hart.arch.obs.hart.ctrlOut P.toHartParams (t.hart.wired P (t.coreIn P x)) = t.ctrlOut P ∧
      t.hart.arch.obs.hart.fetchAddrN P.toHartParams (t.hart.wired P (t.coreIn P x))
        = t.hart.arch.obs.hart.fetchAddrN P.toHartParams (t.hart.wired P t.lines) ∧
      t.hart.arch.obs.hart.idInReady P.toHartParams (t.hart.wired P (t.coreIn P x))
        = (t.fetchIn P x).ready ∧
      t.hart.arch.obs.lsuIn P.toHartParams (t.hart.wired P (t.coreIn P x)) = t.lsuIn P :=
  ⟨rfl, rfl, rfl, rfl⟩

/-- The request of the core does not depend on the answer of the RAM. -/
theorem dataReq_coreIn : Core.dataReq P.cfg t.hart.core (t.hart.coreIn P (t.coreIn P x))
    = t.dataReq P := by
  have hreq : ∀ y : WholeIn, Core.dataReq P.cfg t.hart.core (t.hart.coreIn P y)
      = (t.hart.core.lsu.dataReqO (t.hart.lsuReq P y) && !t.hart.dataPmpErr P) := fun y => by
    rw [Core.dataReq, Core.lsuStep, Lsu.step_dataReqO]
    rfl
  rw [dataReq, hreq, hreq]
  rfl

/-- Nothing disturbs the core. -/
theorem undisturbed : (t.hart.wired P (t.coreIn P x)).Undisturbed := ⟨rfl, rfl, rfl⟩

/-! ### The requests on the data bus -/

/-- The RAM owes an answer for each granted request that the hart counts. -/
def Owes (t : IbexTop n m a b) : Prop :=
  t.hart.core.outstanding = (OneHot.anyOf t.ram.ohInReg).toNat + t.ram.rvalid.toNat

/-- The RAM keeps to the protocol of the data bus. -/
theorem busOk (ho : Owes t) : WholeHart.BusOk P t.hart (t.coreIn P x) where
  gnt := fun hg => dataReq_coreIn.trans hg
  rvalid := by
    intro hr h0
    have hr' : t.ram.rvalid = true := hr
    rw [ho, hr'] at h0
    simp at h0

/-- The RAM owes an answer in the cycle after each grant. -/
theorem owes_next (ho : Owes t) : Owes (t.next P x) := by
  have hout : (t.next P x).hart.core.outstanding
      = t.hart.core.outstanding + (t.dataReq P).toNat - t.ram.rvalid.toNat := rfl
  have hv : (t.next P x).ram.rvalid = OneHot.anyOf t.ram.ohInReg := rfl
  have hreq : OneHot.anyOf (t.next P x).ram.ohInReg = t.dataReq P :=
    Ram1pSecure.anyOf_ohInReg_next _ _
  rw [Owes, hout, hv, hreq, ho]
  omega

/-! ### The fetch -/

/-- The fetch path stands at the address that the hart takes the next word for. -/
structure Fetching (rom : FetchMem) (t : IbexTop n m a b) : Prop where
  inv : ∃ f q, FetchTop.Inv t.fetch f q
  mem : t.fetch.rom.fetchMem = rom
  branched : t.hart.core.ctrl.ctrlFsm ≠ .reset → t.fetch.branched = true
  parsed : t.fetch.branched = true → t.fetch.parsed = t.hart.arch.obs.hart.fetchAddrQ

variable {rom : FetchMem}

/-- What the fetch path shows is the instruction at that address. -/
theorem Fetching.delivers (hf : Fetching rom t) (hb : t.fetch.branched = true)
    (hv : t.fetch.valid (t.fetchIn P x) = true) :
    Delivers rom t.hart.arch.obs.hart.fetchAddrQ (t.fetch.out (t.fetchIn P x)) := by
  obtain ⟨f, q, hinv⟩ := hf.inv
  have hd := FetchTop.delivers hinv hb hv
  rw [hf.mem, hf.parsed hb] at hd
  exact hd

/-- The ROM has no errors. -/
theorem Fetching.instrErr (hf : Fetching rom t) (a : BitVec 31) : rom.instrErr a = false := by
  rw [← hf.mem]
  simp [FetchMem.instrErr, Rom1p.fetchMem, FetchWord.bad]

/-- The half word that a target is fetched at. -/
theorem half_fetchAddr (w : BitVec 32) : (fetchAddr w).extractLsb' 1 31 = w.extractLsb' 1 31 :=
  BitVec.extractLsb'_append_eq_left

/-- **Step lemma.** The fetch unit keeps to the program in the ROM. -/
theorem Fetching.next (hf : Fetching rom t) (hx : x.instrWe = false) :
    Fetching rom (t.next P x) := by
  obtain ⟨f, q, hinv⟩ := hf.inv
  have haddr : (t.next P x).hart.arch.obs.hart.fetchAddrQ
      = if (t.ctrlOut P).pcSet then
          (t.hart.arch.obs.hart.fetchAddrN P.toHartParams
            (t.hart.wired P t.lines)).extractLsb' 1 31
        else if t.fetch.valid (t.fetchIn P x) && (t.fetchIn P x).ready then
          t.hart.arch.obs.hart.fetchAddrQ
            + if isCompressed (t.fetch.out (t.fetchIn P x)).rdata then 1#31 else 2#31
        else t.hart.arch.obs.hart.fetchAddrQ := rfl
  refine ⟨⟨_, _, FetchTop.inv_next hinv hx⟩, (FetchTop.fetchMem_next hx).trans hf.mem, ?_, ?_⟩
  · intro _
    have hbr : (t.next P x).fetch.branched = (t.fetch.branched || (t.ctrlOut P).pcSet) := rfl
    rw [hbr]
    cases hfsm : t.hart.core.ctrl.ctrlFsm with
    | reset =>
        have hset : (t.ctrlOut P).pcSet = true := by
          change (Ctrl.out t.hart.core.ctrl _).pcSet = true
          simp [Ctrl.out, hfsm]
        rw [hset, Bool.or_true]
    | _ => rw [hf.branched (by rw [hfsm]; rintro ⟨⟩), Bool.true_or]
  · intro hb
    have hmem : (t.next P x).fetch.rom.fetchMem = t.fetch.rom.fetchMem := FetchTop.fetchMem_next hx
    have hpar : (t.next P x).fetch.parsed = (t.next P x).fetch.rom.fetchMem.parseStep^[
        (t.next P x).fetch.accepted] (t.next P x).fetch.target := rfl
    have hacc : (t.next P x).fetch.accepted
        = if (t.ctrlOut P).pcSet then 0
          else t.fetch.accepted + (t.fetch.valid (t.fetchIn P x) && (t.fetchIn P x).ready).toNat :=
      rfl
    have htgt : (t.next P x).fetch.target
        = if (t.ctrlOut P).pcSet then (t.fetchIn P x).addr.extractLsb' 1 31
          else t.fetch.target := rfl
    rw [hpar, hacc, htgt, haddr, hmem]
    cases hset : (t.ctrlOut P).pcSet with
    | true => exact half_fetchAddr _
    | false =>
        have hb' : t.fetch.branched = true := by
          have hbr : (t.next P x).fetch.branched = (t.fetch.branched || (t.ctrlOut P).pcSet) := rfl
          rwa [hbr, hset, Bool.or_false] at hb
        have hold := hf.parsed hb'
        rw [FetchTop.parsed] at hold
        cases hv : t.fetch.valid (t.fetchIn P x) with
        | false => simpa using hold
        | true =>
            cases hr : (t.fetchIn P x).ready with
            | false => simpa using hold
            | true =>
                have hd := hf.delivers hb' hv
                have herr : (t.fetch.out (t.fetchIn P x)).err = false :=
                  hd.err.trans (hf.instrErr _)
                have hlen := hd.compressed herr
                have hc : isCompressed (t.fetch.out (t.fetchIn P x)).rdata
                    = rom.compressed t.hart.arch.obs.hart.fetchAddrQ := by
                  rw [← hlen]
                  exact (isCompressedHalf_lower _).symm
                rw [hf.mem] at hold ⊢
                simp only [Bool.false_eq_true, if_false, Bool.and_self, Bool.toNat_true, if_true,
                  Function.iterate_succ_apply', FetchMem.parseStep, hc]
                rw [hold]

end IbexTop

end CocoIbex
