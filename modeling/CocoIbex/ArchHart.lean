import CocoIbex.EbreakDebug
import CocoIbex.PerfCounters
import CocoIbex.WriteGating

/-!
# The Hart with its Counters and its Register File

The observed hart with the rest of what software sees: the counters of the CSRs, and the
register file behind the bypass of `ibex_wb_stage`. A register is written with the result of EX,
with the read data of the CSRs, or with the data of a load. The result of EX and the events that
are counted are inputs.

The hart inside keeps the CSRs and the controller, and knows nothing of registers; the layer
around it adds state and no behaviour. So every fact of the observed hart is at hand here, and
its invariant and the bus protocol are taken over as they stand (`Inv`, `BusOk`).

With `REGWRITE_SECURE` the data of a register write are masked with the write enable that ID has
for the register, and without it they are not; `rfNext` is the register file of both builds.

## Main results

* `inv_next` and `inv_run` — the invariant of the observed hart survives every run on a bus that
  keeps to its protocol;
* `rfNext_eq_write` — where the write mask is transparent for the word in ID, the masked
  register file stores what the other one stores;
* `file_next` — the CSRs and the counters step as the complete register block.
-/

namespace CocoIbex

/-- The parameters; `regwriteSecure` is set where `REGWRITE_SECURE` is defined. -/
structure ArchParams extends HartParams where
  mhpmCounterWidth : ℕ
  regwriteSecure : Bool
  deriving DecidableEq, Repr

/-- The parameters of the registers with the counters. -/
def ArchParams.perf (P : ArchParams) : PerfParams :=
  { P.toCsrParams with mhpmCounterWidth := P.mhpmCounterWidth }

/-- What the hart sees in one cycle; `perfRdata` is not used. -/
structure ArchIn extends HartIn where
  events : PerfEvents
  resultEx : BitVec 32
  deriving DecidableEq

/-- The registers. -/
structure ArchHart (n : ℕ) where
  obs : HartObs n
  perf : PerfCounters
  rf : RegisterFile

namespace ArchHart

variable {n : ℕ} (P : ArchParams) (h : ArchHart n) (x : ArchIn)

/-- After a reset, with `a` in the fetch unit. -/
def reset (n : ℕ) (a : BitVec 31) : ArchHart n := ⟨.reset n a, .reset, ⟨fun _ => 0#32, rfl⟩⟩

/-- The core of the hart. -/
def core : Core := h.obs.core

/-- The CSRs with the counters. -/
def file : CsrFile n := ⟨h.obs.csr, h.perf⟩

/-- The inputs of the hart with the read data of the counters. -/
def wired : HartIn :=
  { x.toHartIn with
    perfRdata := h.perf.rdata P.perf (h.obs.hart.csrPort P.toHartParams x.toHartIn).csrAddr }

/-- The inputs of the CSRs. -/
def csrIn : CsRegsIn := h.obs.hart.csrIn P.toHartParams (h.wired P x)

/-- `csr_rdata_o`. -/
def csrRdata : BitVec 32 := h.file.csrRdata P.perf (h.csrIn P x)

/-- The inputs of the ID-EX machine. -/
def idIn : IdIn := Core.idIn P.cfg h.core (h.obs.coreIn P.toHartParams (h.wired P x))

/-- A word is handed over to ID and will be valid there. -/
def deliver : Bool := h.obs.deliver P.toHartParams (h.wired P x)

/-! ### The register write -/

/-- `rf_we_id_o`. -/
def rfWeId : Bool := IdStage.rfWeId P.cfg h.core.idFsm (h.idIn P x)

/-- `rf_wdata_id_o`. -/
def rfWdataId : BitVec 32 :=
  match (Core.main P.cfg h.core).rfWdataSel with
  | .ex => x.resultEx
  | .csr => h.csrRdata P x

/-- `rf_we_lsu`. -/
def rfWeLsu : Bool := h.core.lsu.lsuRdataValid (h.obs.lsuIn P.toHartParams (h.wired P x))

/-- `rf_wdata_wb_o`, without a write-back stage. -/
def rfWdataWb : BitVec 32 :=
  if h.rfWeId P x then h.rfWdataId P x
  else h.core.lsu.lsuRdata (h.obs.lsuIn P.toHartParams (h.wired P x))

/-- `rf_we_wb_o`. -/
def rfWeWb : Bool := h.rfWeId P x || h.rfWeLsu P x

/-- The register file after the cycle. -/
def rfNext : RegisterFile :=
  let waddr := rfWaddr h.core.ifId.instrRdataId
  if P.regwriteSecure then
    h.rf.writeSecure h.core.ifId.rfWriteEnable (h.rfWeWb P x) waddr (h.rfWdataWb P x)
  else h.rf.write (h.rfWeWb P x) waddr (h.rfWdataWb P x)

/-- One clock edge. -/
def next : ArchHart n where
  obs := h.obs.next P.toHartParams (h.wired P x)
  perf := (h.file.next P.perf (h.csrIn P x) x.events).perf
  rf := h.rfNext P x

/-- The data bus keeps to its protocol. -/
def BusOk : Prop := h.obs.BusOk P.toHartParams (h.wired P x)

/-- The bus keeps to its protocol or not within one cycle. -/
instance : Decidable (BusOk P h x) := inferInstanceAs (Decidable (HartObs.BusOk _ _ _))

/-- The invariant of the observed hart. -/
def Inv : Prop := HartObs.Inv P.toHartParams h.obs

variable {P h x}

/-! ### The parts -/

/-- The CSRs and the counters step as the register block does. -/
theorem file_next : (h.next P x).file = h.file.next P.perf (h.csrIn P x) x.events := by
  rfl

/-- Where the masks are transparent for the word in ID, the register file stores what it stores
without masks. -/
theorem rfNext_eq_write (ht : P.regwriteSecure = true → WriteTransparent P.cfg h.core.ifId)
    (hl : h.rfWeLsu P x = true → (Core.main P.cfg h.core).dataReq = true ∧
      (Core.main P.cfg h.core).dataWe = false) :
    h.rfNext P x = h.rf.write (h.rfWeWb P x) (rfWaddr h.core.ifId.instrRdataId)
      (h.rfWdataWb P x) := by
  rw [rfNext]
  split_ifs with hs
  · cases hwe : h.rfWeWb P x with
    | false => rw [RegisterFile.writeSecure_of_not_we, RegisterFile.write_of_not_we]
    | true =>
        by_cases h0 : rfWaddr h.core.ifId.instrRdataId = 0#5
        · -- a write of x0 has no effect in either build
          rw [h0]
          refine RegisterFile.ext fun r => ?_
          have hno : RegisterFile.weADec true 0#5 r = false := by
            by_cases hr : r = 0#5 <;> simp [RegisterFile.weADec, hr, eq_comm]
          simp [RegisterFile.writeSecure, RegisterFile.write, hno]
        · refine ((ht hs h.core.idFsm (h.idIn P x) (h.rfWeLsu P x) ⟨rfl, rfl, rfl⟩ ?_ h0).2 _ _).1
          obtain hid | hlsu := Bool.or_eq_true_iff.mp hwe
          · exact Or.inl hid
          · exact Or.inr ⟨hlsu, hl hlsu⟩
  · rfl

/-- The invariant holds after a reset. -/
theorem inv_reset (P : ArchParams) (a : BitVec 31) : Inv P (reset n a) :=
  HartObs.inv_reset P.toHartParams a

/-- **Step lemma.** The invariant survives every cycle of a bus that keeps to its protocol. -/
theorem inv_next (hi : Inv P h) (hok : BusOk P h x) : Inv P (h.next P x) :=
  HartObs.inv_next hi hok

/-- Every run on a bus that keeps to its protocol meets the invariant. -/
theorem inv_run (a : BitVec 31) {ins : List ArchIn}
    (hok : Machine.Along (next P) (BusOk P) (reset n a) ins) :
    Inv P (Machine.run (next P) (reset n a) ins) :=
  Machine.run_induction (Inv P) (fun _ _ hi hx => inv_next hi hx) (inv_reset P a) hok

end ArchHart

end CocoIbex
