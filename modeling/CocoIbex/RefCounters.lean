import CocoIbex.Bits
import CocoIbex.CsrStore

/-!
# The Counters as Software Sees Them

`RefCounters` has a number for each counter, which a write changes half by half and an event
increments, modulo the width of the counter. The counters of the register block read as these
numbers in every state (`counters_read_reference`), although they are of different widths and
indexed by the number of the counter, by a field of the address and by the bit of
`mcountinhibit`.

A counter is named by a number of five bits, as in the source, and the two words of it by the
addresses at which software finds them. In one cycle a counter is either written or counts: a
write wins over its event, and a write to a half keeps the other one. The reference has no upper
limit of its own but that of the width, and no word that is not implemented.

The step of the reference and that of the register block are fed with the same instructions and
the same events, and the relation between them is that the numbers are those that are read.

## Main results

* `counterAddr_spec` — the two words of a counter;
* `counters_read_reference` — in every run each counter reads as its number, and one that is not
  implemented as zero.
-/

namespace CocoIbex

/-! ### One counter -/

/-- The number of a counter of `width` bits after a cycle: a write of a half, the upper one if
`high` is set, keeps the other half, and otherwise the counter counts. -/
def refCount (width : ℕ) (write : Option (Bool × BitVec 32)) (inc : Bool) (v : ℕ) : ℕ :=
  match write with
  | some (high, w) =>
    (if high then w.toNat * 2 ^ 32 + v % 2 ^ 32 else v / 2 ^ 32 * 2 ^ 32 + w.toNat) % 2 ^ width
  | none => (v + inc.toNat) % 2 ^ width

/-- The number in the flops of a counter. -/
theorem counterFlops_toNat {width : ℕ} (hw : width ≤ 64) (d : BitVec 64) :
    (counterFlops width d).toNat = d.toNat % 2 ^ width := by
  rw [counterFlops, BitVec.toNat_setWidth, BitVec.toNat_setWidth]
  refine Nat.mod_eq_of_lt (Nat.lt_of_lt_of_le (Nat.mod_lt _ (Nat.two_pow_pos width)) ?_)
  exact Nat.pow_le_pow_right (by omega) hw

/-- The number that is loaded. -/
theorem counterLoad_toNat (weh : Bool) (w : BitVec 32) (c : BitVec 64) :
    (counterLoad weh w c).toNat
      = if weh then w.toNat * 2 ^ 32 + c.toNat % 2 ^ 32
        else c.toNat / 2 ^ 32 * 2 ^ 32 + w.toNat := by
  have hc := c.isLt
  cases weh with
  | true =>
      simp only [counterLoad, if_true, Bits.toNat_append_eq, BitVec.extractLsb'_toNat,
        Nat.shiftRight_zero]
  | false =>
      simp only [counterLoad, Bool.false_eq_true, if_false, Bits.toNat_append_eq,
        BitVec.extractLsb'_toNat, Nat.shiftRight_eq_div_pow]
      omega

/-- A counter follows its number. -/
theorem counterD_toNat {width : ℕ} (hw : width ≤ 64) (we weh inc : Bool) (w : BitVec 32)
    (c : BitVec 64) :
    (counterD width we weh inc w c).toNat
      = refCount width (if we || weh then some (weh, w) else none) inc c.toNat := by
  have hc := c.isLt
  rw [counterD, counterFlops_toNat hw]
  cases we || weh with
  | true =>
      simp only [if_true, refCount, counterLoad_toNat]
  | false =>
      have hdvd : 2 ^ width ∣ 2 ^ 64 := Nat.pow_dvd_pow 2 hw
      cases inc with
      | true =>
          simp only [Bool.false_eq_true, if_false, if_true, refCount, Bool.toNat_true,
            BitVec.toNat_add, BitVec.toNat_ofNat]
          exact Nat.mod_mod_of_dvd _ hdvd
      | false =>
          simp only [Bool.false_eq_true, if_false, refCount, Bool.toNat_false, Nat.add_zero]

/-! ### All counters -/

/-- The number of each counter, and `mcountinhibit` as it is read. -/
structure RefCounters where
  inhibit : BitVec 32
  value : BitVec 5 → ℕ

namespace RefCounters

variable (P : PerfParams) (r : RefCounters)

/-- All counters are zero and enabled after a reset. -/
def reset : RefCounters := ⟨CsrDoc.mcountinhibit P 0#32, fun _ => 0⟩

/-- A read of `mcountinhibit`, or of a word of a counter. -/
def read (a : BitVec 12) : BitVec 32 :=
  if a = CsrNum.mcountinhibit then r.inhibit
  else if CsrNum.isCounterHigh a then
    BitVec.ofNat 32 (r.value (CsrNum.mhpmcounterIdx a) / 2 ^ 32)
  else BitVec.ofNat 32 (r.value (CsrNum.mhpmcounterIdx a))

/-- The half of the counter `i` that has the address `a`, `true` for the upper one. -/
def half (a : BitVec 12) (i : BitVec 5) : Option Bool :=
  if CsrNum.mhpmcounterIdx a = i then
    if CsrNum.isCounterHigh a then some true
    else if CsrNum.isCounterLow a then some false
    else none
  else none

/-- The word that a write, set or clear stores, if `we` is set. -/
def written (we : Bool) (x : CsRegsIn) : Option (BitVec 32) :=
  if we then some (CsrDoc.operation x (r.read x.csrAddr)) else none

/-- The half of the counter `i` that is written, with its word. -/
def writes (we : Bool) (x : CsRegsIn) (i : BitVec 5) : Option (Bool × BitVec 32) :=
  (half x.csrAddr i).bind fun high => (r.written we x).map fun w => (high, w)

/-- A cycle with the events `e`; a legal write comes with `we` set. -/
def next (we : Bool) (x : CsRegsIn) (e : PerfEvents) : RefCounters where
  inhibit :=
    match r.written we x with
    | some w => if x.csrAddr = CsrNum.mcountinhibit then CsrDoc.mcountinhibit P w else r.inhibit
    | none => r.inhibit
  value i :=
    if PerfCounters.counterExists P i then
      refCount (PerfCounters.counterWidth P i) (r.writes we x i)
        (e.incr i && !r.inhibit.getLsbD i.toNat) (r.value i)
    else 0

/-- The numbers are those of the counters. -/
structure Agrees (c : PerfCounters) : Prop where
  inhibit : c.mcountinhibit P = r.inhibit
  value : ∀ i, (c.mhpmcounter i).toNat = r.value i

variable {P r}

/-- The reference has the reset values too. -/
theorem agrees_reset : (reset P).Agrees P .reset where
  inhibit := by simp [PerfCounters.mcountinhibit, PerfCounters.reset, reset, CsrDoc.mcountinhibit]
  value := fun _ => rfl

/-- The counters read as the numbers. -/
theorem Agrees.read_eq {c : PerfCounters} (h : r.Agrees P c) (a : BitVec 12) :
    c.rdata P a = r.read a := by
  rw [PerfCounters.rdata, read, h.inhibit]
  refine ite_congr rfl (fun _ => rfl) fun _ => ite_congr rfl (fun _ => ?_) fun _ => ?_
  · refine BitVec.eq_of_toNat_eq ?_
    rw [BitVec.extractLsb'_toNat, BitVec.toNat_ofNat, Nat.shiftRight_eq_div_pow, h.value]
  · refine BitVec.eq_of_toNat_eq ?_
    rw [BitVec.extractLsb'_toNat, BitVec.toNat_ofNat, Nat.shiftRight_zero, h.value]

/-- A cycle keeps the numbers those of the counters, where the written word is the one that the
operation makes of the read one. -/
theorem Agrees.next {c : PerfCounters} (hW : P.mhpmCounterWidth ≤ 64) (h : r.Agrees P c)
    {we : Bool} {x : CsRegsIn} {w : BitVec 32}
    (hw : we = true → (CsrNum.isCounter x.csrAddr) = true →
      w = CsrDoc.operation x (c.rdata P x.csrAddr)) (e : PerfEvents) :
    (r.next P we x e).Agrees P (c.next P e we x.csrAddr w) where
  inhibit := by
    cases we with
    | false => exact h.inhibit
    | true =>
        by_cases ha : x.csrAddr = CsrNum.mcountinhibit
        · have hw' := hw rfl (by rw [ha]; rfl)
          simp only [RefCounters.next, written, if_true, ha, PerfCounters.mcountinhibit,
            PerfCounters.next, Bool.true_and, beq_self_eq_true]
          rw [← ha, ← h.read_eq, ← hw', CsrDoc.mcountinhibit]
        · simpa [RefCounters.next, written, ha, PerfCounters.mcountinhibit, PerfCounters.next]
            using h.inhibit
  value i := by
    have hwidth : PerfCounters.counterWidth P i ≤ 64 := by
      rw [PerfCounters.counterWidth]
      split_ifs
      · exact le_rfl
      · exact hW
    have hwrite : r.writes we x i
        = if (we && CsrNum.isCounterLow x.csrAddr && CsrNum.mhpmcounterIdx x.csrAddr == i)
              || (we && CsrNum.isCounterHigh x.csrAddr && CsrNum.mhpmcounterIdx x.csrAddr == i) then
            some (we && CsrNum.isCounterHigh x.csrAddr && CsrNum.mhpmcounterIdx x.csrAddr == i, w)
          else none := by
      cases we with
      | false => simp [writes, written]
      | true =>
          by_cases hi : CsrNum.mhpmcounterIdx x.csrAddr = i
          · have hw' := hw rfl
            rw [CsrNum.isCounter_eq, h.read_eq] at hw'
            cases hlow : CsrNum.isCounterLow x.csrAddr <;>
              cases hhigh : CsrNum.isCounterHigh x.csrAddr <;>
              simp_all [writes, written, half]
          · simp [writes, half, hi]
    simp only [RefCounters.next, PerfCounters.next]
    split_ifs
    · rw [counterD_toNat hwidth, hwrite, PerfCounters.counterInc, h.inhibit, h.value]
    · rfl

end RefCounters

/-! ### The register block -/

namespace CsrFile

variable {n : ℕ} (P : PerfParams) (f : CsrFile n)

/-- The lower word of the counter `i`. -/
def counterLowAddr (i : BitVec 5) : BitVec 12 := 0b1011000#7 ++ i

/-- The upper word of the counter `i`. -/
def counterHighAddr (i : BitVec 5) : BitVec 12 := 0b1011100#7 ++ i

/-- The counter `i` as it is read, upper word first. -/
def counter (hid : BitVec 32) (i : BitVec 5) : BitVec 64 :=
  f.csrRdata P (reading hid (counterHighAddr i)) ++ f.csrRdata P (reading hid (counterLowAddr i))

/-- The register block beside the reference counters, which see the same legal writes and
events. -/
def nextWithRef (s : CsrFile n × RefCounters) (x : CsRegsIn × PerfEvents) :
    CsrFile n × RefCounters :=
  (s.1.next P x.1 x.2, s.2.next P (s.1.csrWeInt P x.1) x.1 x.2)

variable {P f}

/-- The addresses of the counters. -/
theorem range_of_isCounter {a : BitVec 12} (h : CsrNum.isCounter a = true) :
    a = CsrNum.mcountinhibit ∨ 0xB00 ≤ a.toNat := by
  simp only [CsrNum.isCounter, CsrNum.mcycle, CsrNum.mcycleh, Bool.or_eq_true, Bool.and_eq_true,
    beq_iff_eq, decide_eq_true_eq, BitVec.le_def, BitVec.toNat_ofNat] at h
  rcases h with (((h | rfl) | ⟨h, -⟩) | rfl) | ⟨h, -⟩
  · exact Or.inl h
  · exact Or.inr le_rfl
  · exact Or.inr (by omega)
  · exact Or.inr (by decide)
  · exact Or.inr (by omega)

/-- A word of a counter is the read data of the counters. -/
theorem csrRdata_of_isCounter {x : CsRegsIn} (h : CsrNum.isCounter x.csrAddr = true) :
    f.csrRdata P x = f.perf.rdata P x.csrAddr := by
  have hrange := range_of_isCounter h
  have hne {b : BitVec 12} (hb : CsrNum.isCounter b = false) : x.csrAddr ≠ b := by
    rintro rfl
    rw [h] at hb
    cases hb
  have hout {lo hi : BitVec 12} (hlo : 0x320 < lo.toNat) (hhi : hi.toNat < 0xB00) :
      ¬ (lo ≤ x.csrAddr ∧ x.csrAddr ≤ hi) := by
    rintro ⟨h1, h2⟩
    rw [BitVec.le_def] at h1 h2
    rcases hrange with hr | hr
    · rw [hr] at h1
      exact absurd h1 (Nat.not_le.mpr hlo)
    · omega
  have hcfg : ¬ (CsrNum.offPmpCfg ≤ x.csrAddr ∧ x.csrAddr ≤ 0x3A3#12) :=
    hout (by decide) (by decide)
  have haddr : ¬ (CsrNum.offPmpAddr ≤ x.csrAddr ∧ x.csrAddr ≤ 0x3BF#12) :=
    hout (by decide) (by decide)
  have hevent : CsrNum.isMhpmevent x.csrAddr = false := by
    rw [CsrNum.isMhpmevent, Bool.and_eq_false_iff, decide_eq_false_iff_not, decide_eq_false_iff_not,
      ← not_and_or]
    exact hout (by decide) (by decide)
  have hx : (f.wired P x).csrAddr = x.csrAddr := rfl
  simp only [csrRdata, CsRegs.csrRdata, hx, if_neg (hne (b := CsrNum.mhartid) rfl),
    if_neg (hne (b := CsrNum.mstatus) rfl), if_neg (hne (b := CsrNum.misa) rfl),
    if_neg (hne (b := CsrNum.mie) rfl), if_neg (hne (b := CsrNum.mscratch) rfl),
    if_neg (hne (b := CsrNum.mtvec) rfl), if_neg (hne (b := CsrNum.mepc) rfl),
    if_neg (hne (b := CsrNum.mcause) rfl), if_neg (hne (b := CsrNum.mtval) rfl),
    if_neg (hne (b := CsrNum.mip) rfl), if_neg hcfg, if_neg haddr,
    if_neg (hne (b := CsrNum.dcsr) rfl), if_neg (hne (b := CsrNum.dpc) rfl),
    if_neg (hne (b := CsrNum.dscratch0) rfl), if_neg (hne (b := CsrNum.dscratch1) rfl), hevent, h,
    Bool.false_eq_true, if_false, if_true]
  rfl

/-- The word that is written to a counter is that of the operation on the read one. -/
theorem csrWdataInt_of_isCounter {x : CsRegsIn} (h : CsrNum.isCounter x.csrAddr = true) :
    f.csrWdataInt P x = CsrDoc.operation x (f.perf.rdata P x.csrAddr) := by
  have hop : (f.wired P x).csrOp = x.csrOp := rfl
  have hr : f.regs.csrRdata P.toCsrParams (f.wired P x) = f.perf.rdata P x.csrAddr :=
    csrRdata_of_isCounter h
  rw [csrWdataInt, CsRegs.csrWdataInt, CsrDoc.operation, hop, hr]
  cases x.csrOp <;> rfl

/-- The two words of a counter that is not counter 1. -/
theorem counterAddr_spec : ∀ i : BitVec 5, i ≠ 1#5 →
    CsrNum.isCounterLow (counterLowAddr i) = true ∧
      CsrNum.isCounterHigh (counterLowAddr i) = false ∧
      CsrNum.isCounterHigh (counterHighAddr i) = true ∧
      counterLowAddr i ≠ CsrNum.mcountinhibit ∧ counterHighAddr i ≠ CsrNum.mcountinhibit ∧
      CsrNum.mhpmcounterIdx (counterLowAddr i) = i ∧
      CsrNum.mhpmcounterIdx (counterHighAddr i) = i := by
  decide

/-- There is no counter 1, and its addresses read as zero. -/
theorem counter_one (hid : BitVec 32) : f.counter P hid 1#5 = 0#64 := by
  have hlow : f.csrRdata P (reading hid (counterLowAddr 1#5)) = 0#32 := by
    simp +decide [csrRdata, CsRegs.csrRdata, reading, wired, counterLowAddr]
  have hhigh : f.csrRdata P (reading hid (counterHighAddr 1#5)) = 0#32 := by
    simp +decide [csrRdata, CsRegs.csrRdata, reading, wired, counterHighAddr]
  rw [counter, hlow, hhigh]
  rfl

/-- The two words of a counter are read together. -/
theorem counter_eq (hid : BitVec 32) {i : BitVec 5} (hi : i ≠ 1#5) :
    f.counter P hid i = f.perf.mhpmcounter i := by
  obtain ⟨hlow, hnot, hhigh, hne, hne', hidx, hidx'⟩ := counterAddr_spec i hi
  have hl : f.csrRdata P (reading hid (counterLowAddr i))
      = (f.perf.mhpmcounter i).extractLsb' 0 32 := by
    rw [csrRdata_of_isCounter (by simp [reading, CsrNum.isCounter_eq, hlow])]
    simp [reading, PerfCounters.rdata, hne, hnot, hidx]
  have hh : f.csrRdata P (reading hid (counterHighAddr i))
      = (f.perf.mhpmcounter i).extractLsb' 32 32 := by
    rw [csrRdata_of_isCounter (by simp [reading, CsrNum.isCounter_eq, hhigh])]
    simp [reading, PerfCounters.rdata, hne', hhigh, hidx']
  rw [counter, hl, hh]
  exact BitVec.extractLsb'_append_extractLsb'_eq_extractLsb' rfl |>.trans (by simp)

/-- A cycle of the register block keeps the reference counters. -/
theorem agrees_nextWithRef (hW : P.mhpmCounterWidth ≤ 64) {r : RefCounters}
    (h : r.Agrees P f.perf) (x : CsRegsIn × PerfEvents) :
    (nextWithRef P (f, r) x).2.Agrees P (nextWithRef P (f, r) x).1.perf :=
  h.next hW (fun _ ha => csrWdataInt_of_isCounter ha) x.2

/-- The reference counters beside a run; those that are not implemented are zero. -/
theorem agrees_run (hW : P.mhpmCounterWidth ≤ 64) (ins : List (CsRegsIn × PerfEvents)) :
    let s := Machine.run (nextWithRef P) (CsrFile.reset n, RefCounters.reset P) ins
    s.2.Agrees P s.1.perf ∧
      ∀ i, PerfCounters.counterExists P i = false → s.2.value i = 0 := by
  refine Machine.run_invariant (fun s : CsrFile n × RefCounters => s.2.Agrees P s.1.perf ∧
    ∀ i, PerfCounters.counterExists P i = false → s.2.value i = 0) ?_ ins
    ⟨RefCounters.agrees_reset, fun _ _ => rfl⟩
  rintro s x ⟨h, -⟩
  exact ⟨agrees_nextWithRef hW h x, fun i hi => if_neg (by simp [hi])⟩

/-- The register block takes no notice of the reference counters. -/
theorem run_nextWithRef (s : CsrFile n × RefCounters) (ins : List (CsRegsIn × PerfEvents)) :
    (Machine.run (nextWithRef P) s ins).1
      = Machine.run (fun f x => f.next P x.1 x.2) s.1 ins := by
  induction ins generalizing s with
  | nil => rfl
  | cons x ins ih => exact ih _

/-- A write that has no half of the counter `i` leaves it to count. -/
theorem mhpmcounter_next_of_half_eq_none (x : CsRegsIn) (e : PerfEvents) {i : BitVec 5}
    (h : RefCounters.half x.csrAddr i = none) :
    (f.next P x e).perf.mhpmcounter i = (f.count P e).perf.mhpmcounter i := by
  have hnext : (f.next P x e).perf
      = f.perf.next P e (f.csrWeInt P x) x.csrAddr (f.csrWdataInt P x) := rfl
  rw [hnext]
  cases f.csrWeInt P x with
  | false => rw [PerfCounters.next_of_not_we]; rfl
  | true =>
      refine PerfCounters.mhpmcounter_of_ne _ ?_
      by_cases hi : CsrNum.mhpmcounterIdx x.csrAddr = i
      · rw [RefCounters.half, if_pos hi] at h
        left
        cases hh : CsrNum.isCounterHigh x.csrAddr <;>
          cases hl : CsrNum.isCounterLow x.csrAddr <;> simp_all
      · exact Or.inr hi

/-- **64-bit counters.** In every run the two words of a counter read as the number of its
reference counter; counters that are not implemented read as zero; and whatever a CSR instruction
does, it leaves every counter whose address it does not hold to count. -/
theorem counters_read_reference (P : PerfParams) (hW : P.mhpmCounterWidth ≤ 64)
    (hid : BitVec 32) (ins : List (CsRegsIn × PerfEvents)) :
    let s := Machine.run (nextWithRef P) (CsrFile.reset n, RefCounters.reset P) ins
    s.1 = Machine.run (fun f x => f.next P x.1 x.2) (CsrFile.reset n) ins ∧
      (∀ i, (s.1.counter P hid i).toNat = s.2.value i) ∧
      (∀ i, PerfCounters.counterExists P i = false → s.1.counter P hid i = 0#64) ∧
      ∀ x e i, RefCounters.half x.csrAddr i = none →
        (s.1.next P x e).counter P hid i = (s.1.count P e).counter P hid i := by
  intro s
  obtain ⟨hagree, hzero⟩ := agrees_run (n := n) hW ins
  have hread (i : BitVec 5) : (s.1.counter P hid i).toNat = s.2.value i := by
    by_cases hi : i = 1#5
    · obtain rfl := hi
      rw [counter_one]
      exact (hzero 1#5 rfl).symm
    · rw [counter_eq hid hi]
      exact hagree.value i
  refine ⟨run_nextWithRef _ ins, hread, fun i hi => ?_, fun x e i hx => ?_⟩
  · have hval : (s.1.counter P hid i).toNat = 0 := (hread i).trans (hzero i hi)
    exact BitVec.eq_of_toNat_eq hval
  · by_cases hi : i = 1#5
    · rw [hi, counter_one, counter_one]
    · rw [counter_eq hid hi, counter_eq hid hi, mhpmcounter_next_of_half_eq_none x e hx]

/-- The lower half of a counter of 40 bits is filled, and an event carries over. -/
theorem counters_read_carry :
    let ins : List (CsRegsIn × PerfEvents) :=
      [(.write 0xB0A#12 0xFFFFFFFF#32, .none),
        (.idle, { PerfEvents.none with instrRetCompressed := true })]
    let f := Machine.run (fun f x => f.next smallParams x.1 x.2) (reset 4) ins
    f.counter smallParams 0#32 10#5 = 0x100000000#64 := by
  intro ins f
  have hread := counters_read_reference (n := 4) smallParams (by decide) 0#32 ins
  have hf : f = (Machine.run (nextWithRef smallParams) (reset 4, .reset smallParams) ins).1 :=
    hread.1.symm
  rw [hf]
  exact BitVec.eq_of_toNat_eq ((hread.2.1 10#5).trans (by decide))

end CsrFile

end CocoIbex
