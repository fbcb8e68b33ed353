import CocoIbex.CsRegisters

/-!
# The Performance Counters

The counters of `ibex_cs_registers`, each an `ibex_counters`, with `mcountinhibit`. A cycle
loads one half of a counter with the data of the CSR instruction, or lets the counter count its
event. With them the register block is complete (`CsrFile`): the read data of a counter are no
input any more.

There are thirty-two of them in the source, of which the first three are `mcycle`, nothing, and
`minstret`, and of the others as many as the parameter says; each has a width, and its upper
bits read as zero. A counter that is not implemented is a constant zero and not a register. The
index comes from three places: the low bits of the address, the bit of `mcountinhibit`, and the
number of the event line.

## Main results

* `next_of_not_we` — without a write the address and the data do not matter;
* `mhpmcounter_of_eq` and `mhpmcounter_of_ne` — a write loads one half of one counter and leaves
  every other counter to count.
-/

namespace CocoIbex

/-! ### A counter -/

/-- `counter_load`: the written half, beside the old value of the other one. -/
def counterLoad (weh : Bool) (val : BitVec 32) (c : BitVec 64) : BitVec 64 :=
  if weh then val ++ c.extractLsb' 0 32 else c.extractLsb' 32 32 ++ val

/-- The flops of a counter of `width` bits; the bits above read as zero. -/
def counterFlops (width : ℕ) (d : BitVec 64) : BitVec 64 := (d.setWidth width).setWidth 64

/-- `counter_d`. -/
def counterD (width : ℕ) (we weh inc : Bool) (val : BitVec 32) (c : BitVec 64) : BitVec 64 :=
  counterFlops width
    (if we || weh then counterLoad weh val c else if inc then c + 1#64 else c)

/-! ### The counters -/

/-- The parameters of the register block with its counters. -/
structure PerfParams extends CsrParams where
  mhpmCounterWidth : ℕ
  deriving DecidableEq, Repr

/-- The event lines. -/
structure PerfEvents where
  instrRet : Bool
  instrRetCompressed : Bool
  isideWait : Bool
  jump : Bool
  branch : Bool
  branchTaken : Bool
  memLoad : Bool
  memStore : Bool
  dsideWait : Bool
  mulWait : Bool
  divWait : Bool
  deriving DecidableEq, Repr

/-- No event. -/
def PerfEvents.none : PerfEvents :=
  ⟨false, false, false, false, false, false, false, false, false, false, false⟩

/-- `mhpmcounter_incr`: the hardwired event of each counter. -/
def PerfEvents.incr (e : PerfEvents) (i : BitVec 5) : Bool :=
  match i.toNat with
  | 0 => true
  | 2 => e.instrRet
  | 3 => e.dsideWait
  | 4 => e.isideWait
  | 5 => e.memLoad
  | 6 => e.memStore
  | 7 => e.jump
  | 8 => e.branch
  | 9 => e.branchTaken
  | 10 => e.instrRetCompressed
  | 11 => e.mulWait
  | 12 => e.divWait
  | _ => false

/-- The registers of the counters. -/
structure PerfCounters where
  /-- the flops of `mcountinhibit`, for the counters that exist -/
  mcountinhibitQ : BitVec 32
  mhpmcounter : BitVec 5 → BitVec 64

namespace CsrNum

/-- `CSR_MCYCLE`, `CSR_MINSTRET` and `CSR_MHPMCOUNTER3` to `CSR_MHPMCOUNTER31`. -/
def isCounterLow (a : BitVec 12) : Bool := a == mcycle || (0xB02#12 ≤ a && a ≤ 0xB1F#12)

/-- The upper words of the counters. -/
def isCounterHigh (a : BitVec 12) : Bool := a == mcycleh || (0xB82#12 ≤ a && a ≤ 0xB9F#12)

/-- The words of the counters, `mcountinhibit` aside. -/
theorem isCounter_eq (a : BitVec 12) :
    isCounter a = (a == mcountinhibit || (isCounterLow a || isCounterHigh a)) := by
  simp only [isCounter, isCounterLow, isCounterHigh, Bool.or_assoc]

/-- `mhpmcounter_idx`. -/
def mhpmcounterIdx (a : BitVec 12) : BitVec 5 := a.extractLsb' 0 5

end CsrNum

namespace PerfCounters

variable (P : PerfParams) (c : PerfCounters) (e : PerfEvents)

/-- The counters after a reset. -/
def reset : PerfCounters := ⟨0#32, fun _ => 0#64⟩

/-- The counter is there. -/
def counterExists (i : BitVec 5) : Bool :=
  i.toNat == 0 || i.toNat == 2 || (3 ≤ i.toNat && i.toNat < 3 + P.mhpmCounterNum)

/-- `CounterWidth`. -/
def counterWidth (i : BitVec 5) : ℕ := if i.toNat < 3 then 64 else P.mhpmCounterWidth

/-- The bits of `mcountinhibit` that have a flop. -/
def inhibitMask : BitVec 32 := BitVec.ofNat 32 (2 ^ (P.mhpmCounterNum + 3) - 1)

/-- `mcountinhibit`: the bits of the counters that are not there read as one. -/
def mcountinhibit : BitVec 32 := ~~~inhibitMask P ||| c.mcountinhibitQ

/-- The counter `i` counts in this cycle. -/
def counterInc (i : BitVec 5) : Bool := e.incr i && !(c.mcountinhibit P).getLsbD i.toNat

/-- The read data of `mcountinhibit` and of the counters. -/
def rdata (a : BitVec 12) : BitVec 32 :=
  if a = CsrNum.mcountinhibit then c.mcountinhibit P
  else if CsrNum.isCounterHigh a then (c.mhpmcounter (CsrNum.mhpmcounterIdx a)).extractLsb' 32 32
  else (c.mhpmcounter (CsrNum.mhpmcounterIdx a)).extractLsb' 0 32

/-- One clock edge, with the data `w` for the address `a` when `we` is set. -/
def next (we : Bool) (a : BitVec 12) (w : BitVec 32) : PerfCounters where
  mcountinhibitQ :=
    if we && a == CsrNum.mcountinhibit then w &&& inhibitMask P &&& ~~~2#32
    else c.mcountinhibitQ
  mhpmcounter i :=
    if counterExists P i then
      counterD (counterWidth P i)
        (we && CsrNum.isCounterLow a && CsrNum.mhpmcounterIdx a == i)
        (we && CsrNum.isCounterHigh a && CsrNum.mhpmcounterIdx a == i)
        (c.counterInc P e i) w (c.mhpmcounter i)
    else 0#64

/-- A cycle without a write. -/
def count : PerfCounters := c.next P e false 0#12 0#32

variable {P c e}

/-- Without a write the address and the data do not matter. -/
theorem next_of_not_we (a : BitVec 12) (w : BitVec 32) : c.next P e false a w = c.count P e := by
  simp [count, next, counterD]

/-- A write leaves every counter it does not address to count. -/
theorem mhpmcounter_of_ne {a : BitVec 12} (w : BitVec 32) {i : BitVec 5}
    (h : (CsrNum.isCounterLow a || CsrNum.isCounterHigh a) = false ∨ CsrNum.mhpmcounterIdx a ≠ i) :
    (c.next P e true a w).mhpmcounter i = (c.count P e).mhpmcounter i := by
  obtain h | h := h
  · rw [Bool.or_eq_false_iff] at h
    simp [count, next, h.1, h.2, counterD]
  · simp [count, next, h, counterD]

/-- A write to one half of a counter loads it, and keeps the other half. -/
theorem mhpmcounter_of_eq {a : BitVec 12} (w : BitVec 32)
    (h : (CsrNum.isCounterLow a || CsrNum.isCounterHigh a) = true)
    (hi : counterExists P (CsrNum.mhpmcounterIdx a) = true) :
    (c.next P e true a w).mhpmcounter (CsrNum.mhpmcounterIdx a)
      = counterFlops (counterWidth P (CsrNum.mhpmcounterIdx a))
          (counterLoad (CsrNum.isCounterHigh a) w (c.mhpmcounter (CsrNum.mhpmcounterIdx a))) := by
  rw [Bool.or_eq_true] at h
  simp [next, hi, counterD, h]

end PerfCounters

/-! ### The whole register block -/

/-- The registers with the counters. -/
structure CsrFile (n : ℕ) where
  regs : CsRegs n
  perf : PerfCounters

namespace CsrFile

variable {n : ℕ} (P : PerfParams) (f : CsrFile n) (x : CsRegsIn) (e : PerfEvents)

/-- The registers after a reset. -/
def reset (n : ℕ) : CsrFile n := ⟨.reset n, .reset⟩

/-- The inputs with the read data of the counters. -/
def wired : CsRegsIn := { x with perfRdata := f.perf.rdata P x.csrAddr }

/-- `csr_rdata_o`. -/
def csrRdata : BitVec 32 := f.regs.csrRdata P.toCsrParams (f.wired P x)

/-- `illegal_csr_insn_o`; the read data of the counters do not enter it. -/
def illegalCsrInsn : Bool := f.regs.illegalCsrInsn P.toCsrParams x

/-- `csr_we_int`. -/
def csrWeInt : Bool := f.regs.csrWeInt P.toCsrParams x

/-- `csr_wdata_int`. -/
def csrWdataInt : BitVec 32 := f.regs.csrWdataInt P.toCsrParams (f.wired P x)

/-- One clock edge. -/
def next : CsrFile n where
  regs := f.regs.next P.toCsrParams (f.wired P x)
  perf := f.perf.next P e (f.csrWeInt P x) x.csrAddr (f.csrWdataInt P x)

end CsrFile

end CocoIbex
