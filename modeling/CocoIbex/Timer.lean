import CocoIbex.Bus

/-!
# The Timer

`timer`: a counter of the cycles, a value to compare it with, and an interrupt. The registers
are written in halves and by bytes while the counter goes on. The interrupt is pending from the
cycle in which the counter has reached the value until the value is written.

The timer is a device of the bus of the simple systems, which it answers in the next cycle
(`answer_next`). The comparison is made with the registers before the cycle, so the interrupt
comes one cycle behind the counter, and a write of the value clears it even if the counter is
still above. Both registers have 64 bits, and the counter wraps around.

Software writes the value in two halves, and between the two stores the value is a mixture. The
order that the specification recommends keeps it above the counter at any time: first the lower
half is set to all ones, then the upper half is written, then the lower one.

## Main results

* `interrupt_iff` — in every run the interrupt is pending if and only if the counter has been at
  or above the value in some cycle since the value was last written;
* `interrupt_at` — when it comes, while the timer is left alone;
* `newValue_quiet` — a new value that is set in this order raises no interrupt on the way.
-/

namespace CocoIbex

/-- The registers. -/
structure Timer where
  mtime : BitVec 64
  mtimecmp : BitVec 64
  interrupt : Bool
  rvalid : Bool
  rdata : BitVec 32
  err : Bool
  deriving DecidableEq

/-- A word with the bytes that a request writes. -/
def RamIn.merge (x : RamIn) (w : BitVec 32) : BitVec 32 :=
  wordOfBytes fun k => if x.be.getLsbD k then wordByte x.wdata k else wordByte w k

/-- A request with all byte enables writes its word. -/
theorem RamIn.merge_full {x : RamIn} (h : x.be = 0xF#4) (w : BitVec 32) : x.merge w = x.wdata := by
  refine word_ext fun k hk => ?_
  have hbit : (0xF#4).getLsbD k = true := by
    interval_cases k <;> rfl
  rw [RamIn.merge, wordByte_wordOfBytes _ hk, h, hbit, if_pos rfl]

namespace Timer

variable (s : Timer) (x : RamIn)

/-- The address of a register in the window of the timer. -/
def offset : BitVec 10 := x.addr.extractLsb' 0 10

/-- A register is written: `mtime_we` and the like. -/
def writes (o : BitVec 10) : Bool := x.req && x.we && offset x == o

/-- `mtimecmp_we` or `mtimecmph_we`. -/
def cmpWe : Bool := writes x 8#10 || writes x 12#10

/-- `mtime_we` or `mtimeh_we`. -/
def timeWe : Bool := writes x 0#10 || writes x 4#10

/-- `mtime_inc`. -/
def mtimeInc : BitVec 64 := s.mtime + 1#64

/-- `mtime_d`. -/
def mtimeD : BitVec 64 :=
  (if writes x 4#10 then x.merge (s.mtime.extractLsb' 32 32) else s.mtimeInc.extractLsb' 32 32)
    ++ (if writes x 0#10 then x.merge (s.mtime.extractLsb' 0 32) else s.mtimeInc.extractLsb' 0 32)

/-- `mtimecmp_d`. -/
def mtimecmpD : BitVec 64 :=
  (if writes x 12#10 then x.merge (s.mtimecmp.extractLsb' 32 32)
    else s.mtimecmp.extractLsb' 32 32)
    ++ (if writes x 8#10 then x.merge (s.mtimecmp.extractLsb' 0 32)
      else s.mtimecmp.extractLsb' 0 32)

/-- `interrupt_d`. -/
def interruptD : Bool := (decide (s.mtimecmp ≤ s.mtime) || s.interrupt) && !cmpWe x

/-- `rdata_d`. -/
def rdataD : BitVec 32 :=
  if offset x = 0#10 then s.mtime.extractLsb' 0 32
  else if offset x = 4#10 then s.mtime.extractLsb' 32 32
  else if offset x = 8#10 then s.mtimecmp.extractLsb' 0 32
  else if offset x = 12#10 then s.mtimecmp.extractLsb' 32 32
  else 0#32

/-- `error_d`. -/
def errorD : Bool :=
  !(offset x == 0#10 || offset x == 4#10 || offset x == 8#10 || offset x == 12#10)

/-- One clock edge. -/
def next : Timer where
  mtime := s.mtimeD x
  mtimecmp := if cmpWe x then s.mtimecmpD x else s.mtimecmp
  interrupt := s.interruptD x
  rvalid := x.req
  rdata := if x.req then s.rdataD x else s.rdata
  err := if x.req then errorD x else s.err

/-- The answer on the bus. -/
def answer : BusAnswer := ⟨s.rvalid, s.rdata, s.err⟩

/-- The timer keeps the rule of the devices of the bus: it answers each request in the next cycle,
and nothing else. -/
theorem answer_next {h d : ℕ} (c : DeviceMap d) (o : Bus.Obs h d) (x : Fin h → RamIn)
    (i : Fin d) : (s.next (o.bus.deviceIn c x i)).answer.rvalid = (o.next c x).asked i := rfl

variable {s x}

/-! ### Writes -/

/-- The halves of a double word put together. -/
theorem halves (v : BitVec 64) : (v.extractLsb' 32 32 ++ v.extractLsb' 0 32 : BitVec 64) = v :=
  (BitVec.extractLsb'_append_extractLsb'_eq_extractLsb' rfl).trans BitVec.extractLsb'_eq_self

/-- A request writes one register at most. -/
theorem writes_unique {o o' : BitVec 10} (h : writes x o = true) (hne : o' ≠ o) :
    writes x o' = false := by
  rw [writes, Bool.and_eq_true, beq_iff_eq] at h
  rw [writes, h.2, beq_eq_false_iff_ne.mpr (Ne.symm hne), Bool.and_false]

/-- The counter counts unless it is written. -/
theorem mtime_next (h : timeWe x = false) : (s.next x).mtime = s.mtime + 1#64 := by
  rw [timeWe, Bool.or_eq_false_iff] at h
  change s.mtimeD x = _
  rw [mtimeD, h.1, h.2, if_neg Bool.false_ne_true, if_neg Bool.false_ne_true, halves]
  rfl

/-- The value stays unless it is written. -/
theorem mtimecmp_next (h : cmpWe x = false) : (s.next x).mtimecmp = s.mtimecmp := by
  change (if cmpWe x then s.mtimecmpD x else s.mtimecmp) = _
  rw [h, if_neg Bool.false_ne_true]

/-- A write of the lower half of the value. -/
theorem mtimecmp_low (h : writes x 8#10 = true) (hb : x.be = 0xF#4) :
    (s.next x).mtimecmp = s.mtimecmp.extractLsb' 32 32 ++ x.wdata := by
  change (if cmpWe x then s.mtimecmpD x else s.mtimecmp) = _
  rw [cmpWe, h, Bool.true_or, if_pos rfl, mtimecmpD, writes_unique h (by decide), h,
    if_neg Bool.false_ne_true, if_pos rfl, RamIn.merge_full hb]

/-- A write of the upper half of the value. -/
theorem mtimecmp_high (h : writes x 12#10 = true) (hb : x.be = 0xF#4) :
    (s.next x).mtimecmp = x.wdata ++ s.mtimecmp.extractLsb' 0 32 := by
  change (if cmpWe x then s.mtimecmpD x else s.mtimecmp) = _
  have h8 : writes x 8#10 = false := writes_unique h (by decide)
  rw [cmpWe, h, Bool.or_true, if_pos rfl, mtimecmpD, h, h8, if_pos rfl, if_neg Bool.false_ne_true,
    RamIn.merge_full hb]

/-- A write of the value takes the interrupt back. -/
theorem interrupt_of_cmpWe (h : cmpWe x = true) : (s.next x).interrupt = false := by
  change s.interruptD x = false
  rw [interruptD, h, Bool.not_true, Bool.and_false]

/-! ### The interrupt -/

/-- **The interrupt.** In every run it is pending if and only if the counter has been at or
above the value in some cycle since the value was last written. -/
theorem interrupt_iff (s : Timer) (h0 : s.interrupt = false) (ins : List RamIn) :
    (Machine.run next s ins).interrupt = true ↔
      ∃ pre x post, ins = pre ++ x :: post ∧ (∀ y ∈ x :: post, cmpWe y = false) ∧
        (Machine.run next s pre).mtimecmp ≤ (Machine.run next s pre).mtime := by
  induction ins using List.reverseRecOn with
  | nil =>
      rw [Machine.run_nil, h0]
      constructor
      · intro h
        cases h
      · rintro ⟨pre, x, post, h, -⟩
        cases pre <;> cases h
  | append_singleton ins z ih =>
      rw [Machine.run_concat]
      have hstep : ((Machine.run next s ins).next z).interrupt = true ↔
          ((Machine.run next s ins).mtimecmp ≤ (Machine.run next s ins).mtime ∨
            (Machine.run next s ins).interrupt = true) ∧ cmpWe z = false := by
        change (Machine.run next s ins).interruptD z = true ↔ _
        rw [interruptD, Bool.and_eq_true, Bool.or_eq_true, decide_eq_true_eq, Bool.not_eq_true']
      rw [hstep, ih]
      constructor
      · rintro ⟨hle | ⟨pre, x, post, rfl, hno, hle⟩, hz⟩
        · exact ⟨ins, z, [], rfl, by simpa using hz, hle⟩
        · refine ⟨pre, x, post ++ [z], by simp, fun y hy => ?_, hle⟩
          rw [← List.cons_append, List.mem_append, List.mem_singleton] at hy
          obtain hy | rfl := hy
          · exact hno y hy
          · exact hz
      · rintro ⟨pre, x, post, heq, hno, hle⟩
        obtain rfl | ⟨post, w, rfl⟩ := List.eq_nil_or_concat post
        · obtain ⟨rfl, heq⟩ := List.append_inj' heq rfl
          obtain rfl : z = x := by simpa using heq
          exact ⟨Or.inl hle, hno z List.mem_cons_self⟩
        · rw [List.concat_eq_append] at heq hno
          rw [← List.cons_append, ← List.append_assoc] at heq
          obtain ⟨rfl, heq⟩ := List.append_inj' heq rfl
          obtain rfl : z = w := by simpa using heq
          exact ⟨Or.inr ⟨pre, x, post, rfl, fun y hy => hno y (by
              rw [← List.cons_append]
              exact List.mem_append_left _ hy), hle⟩,
            hno z (by simp)⟩

/-- A counter at four has passed the value zero. A write of the value five takes the interrupt
back, and one cycle later the counter has reached the new value. -/
theorem interrupt_iff_written :
    let s : Timer := ⟨4#64, 0#64, false, false, 0#32, false⟩
    let x : RamIn := ⟨true, true, 0xF#4, 0x30008#32, 5#32⟩
    let passed := fun ins => ∃ pre y post, ins = pre ++ y :: post ∧
      (∀ z ∈ y :: post, cmpWe z = false) ∧
        (Machine.run next s pre).mtimecmp ≤ (Machine.run next s pre).mtime
    passed [RamIn.none] ∧ ¬ passed [RamIn.none, x] ∧ passed [RamIn.none, x, RamIn.none] := by
  intro s x passed
  have hiff := interrupt_iff s rfl
  exact ⟨(hiff _).mp (by decide), (hiff _).not.mp (by decide), (hiff _).mp (by decide)⟩

/-- Without writes the counter counts the cycles. -/
theorem mtime_run {ins : List RamIn} (h : ∀ x ∈ ins, timeWe x = false) :
    (Machine.run next s ins).mtime = s.mtime + BitVec.ofNat 64 ins.length := by
  induction ins generalizing s with
  | nil => exact (BitVec.add_zero _).symm
  | cons x ins ih =>
      rw [Machine.run_cons, ih fun y hy => h y (List.mem_cons_of_mem x hy),
        mtime_next (h x List.mem_cons_self), List.length_cons, BitVec.add_assoc]
      congr 1
      apply BitVec.eq_of_toNat_eq
      rw [BitVec.toNat_add, BitVec.toNat_ofNat, BitVec.toNat_ofNat, BitVec.toNat_ofNat]
      omega

/-- The value stays in a run that does not write it. -/
theorem mtimecmp_run {ins : List RamIn} (h : ∀ x ∈ ins, cmpWe x = false) :
    (Machine.run next s ins).mtimecmp = s.mtimecmp := by
  induction ins generalizing s with
  | nil => rfl
  | cons x ins ih =>
      rw [Machine.run_cons, ih fun y hy => h y (List.mem_cons_of_mem x hy),
        mtimecmp_next (h x List.mem_cons_self)]

/-- **When the interrupt comes.** While software leaves the timer alone, the interrupt is there
`n` cycles after a write of the value if and only if the counter has passed the value, as long
as the counter does not wrap. -/
theorem interrupt_at {x : RamIn} (hx : cmpWe x = true) (hx' : timeWe x = false)
    {ins : List RamIn} (hins : ∀ y ∈ ins, cmpWe y = false ∧ timeWe y = false)
    (hwrap : s.mtime.toNat + ins.length + 1 < 2 ^ 64) :
    (Machine.run next s (x :: ins)).interrupt = true ↔
      ins ≠ [] ∧ (s.next x).mtimecmp.toNat ≤ s.mtime.toNat + ins.length := by
  have htime : (s.next x).mtime.toNat = s.mtime.toNat + 1 := by
    rw [mtime_next hx', BitVec.toNat_add, BitVec.toNat_ofNat]
    omega
  have hat : ∀ pre, (∃ post, ins = pre ++ post) →
      (Machine.run next (s.next x) pre).mtime.toNat = s.mtime.toNat + 1 + pre.length := by
    rintro pre ⟨post, rfl⟩
    rw [List.length_append] at hwrap
    rw [mtime_run fun y hy => (hins y (List.mem_append_left _ hy)).2, BitVec.toNat_add, htime,
      BitVec.toNat_ofNat]
    omega
  rw [Machine.run_cons, interrupt_iff _ (interrupt_of_cmpWe hx)]
  constructor
  · rintro ⟨pre, y, post, rfl, -, hle⟩
    refine ⟨by simp, ?_⟩
    rw [mtimecmp_run fun z hz => (hins z (List.mem_append_left _ hz)).1, BitVec.le_def,
      hat pre ⟨y :: post, rfl⟩] at hle
    rw [List.length_append, List.length_cons]
    omega
  · rintro ⟨hne, hle⟩
    obtain rfl | ⟨pre, y, rfl⟩ := List.eq_nil_or_concat ins
    · exact absurd rfl hne
    · rw [List.concat_eq_append] at hle hins hat ⊢
      refine ⟨pre, y, [], rfl, fun z hz => ?_, ?_⟩
      · obtain rfl := List.mem_singleton.mp hz
        exact (hins z (by simp)).1
      · rw [mtimecmp_run fun z hz => (hins z (List.mem_append_left _ hz)).1, BitVec.le_def,
          hat pre ⟨[y], rfl⟩]
        rw [List.length_append, List.length_singleton] at hle
        omega

/-! ### A new value -/

/-- While the counter stays below the value, nothing is pending. -/
theorem interrupt_quiet (h0 : s.interrupt = false) {ins : List RamIn}
    (hno : ∀ x ∈ ins, cmpWe x = false)
    (hlow : ∀ pre, pre <+: ins → (Machine.run next s pre).mtime < s.mtimecmp) :
    ∀ pre, pre <+: ins → (Machine.run next s pre).interrupt = false := by
  intro pre hpre
  rw [← Bool.not_eq_true, interrupt_iff s h0]
  rintro ⟨pre', x, post, rfl, -, hle⟩
  have hpre' : pre' <+: ins := (List.prefix_append _ _).trans hpre
  rw [mtimecmp_run fun y hy => hno y (hpre'.subset hy)] at hle
  have := hlow pre' hpre'
  rw [BitVec.lt_def] at this
  rw [BitVec.le_def] at hle
  omega

/-- The stores that set a new value without a spurious interrupt: the lower half is made all
ones, then the upper half is written, then the lower. -/
structure NewValue (hi lo : BitVec 32) (x₁ x₂ x₃ : RamIn) : Prop where
  first : writes x₁ 8#10 = true ∧ x₁.be = 0xF#4 ∧ x₁.wdata = 0xFFFFFFFF#32
  second : writes x₂ 12#10 = true ∧ x₂.be = 0xF#4 ∧ x₂.wdata = hi
  third : writes x₃ 8#10 = true ∧ x₃.be = 0xF#4 ∧ x₃.wdata = lo

/-- Two words put together, as a number. -/
theorem append_toNat (a b : BitVec 32) :
    (a ++ b : BitVec 64).toNat = a.toNat * 2 ^ 32 + b.toNat := by
  rw [BitVec.toNat_append, ← Nat.shiftLeft_add_eq_or_of_lt b.isLt, Nat.shiftLeft_eq]

/-- A value with ones in its lower half is not below one with the same upper half. -/
theorem le_ones (a b : BitVec 32) : (a ++ b : BitVec 64) ≤ a ++ 0xFFFFFFFF#32 := by
  have := b.isLt
  rw [BitVec.le_def, append_toNat, append_toNat]
  simp only [BitVec.toNat_ofNat]
  omega

/-- What is below a value is below every larger one. -/
theorem below_of_le {a b c : BitVec 64} (h : a < b) (h' : b ≤ c) : a < c := by
  rw [BitVec.lt_def] at h ⊢
  rw [BitVec.le_def] at h'
  omega

/-- **No spurious interrupt.** While software sets a new value in this way, with whatever other
accesses between its stores, and the counter reaches neither the old value ahead of the second
store nor the new one ahead of the third, no interrupt is pending at any time. -/
theorem newValue_quiet {hi lo : BitVec 32} {x₁ x₂ x₃ : RamIn} (hx : NewValue hi lo x₁ x₂ x₃)
    (s : Timer) {idle₁ idle₂ : List RamIn} (hno₁ : ∀ y ∈ idle₁, cmpWe y = false)
    (hno₂ : ∀ y ∈ idle₂, cmpWe y = false)
    (hold : ∀ pre, pre <+: idle₁ → (Machine.run next s (x₁ :: pre)).mtime < s.mtimecmp)
    (hnew : ∀ pre, pre <+: idle₂ →
      (Machine.run next s (x₁ :: idle₁ ++ x₂ :: pre)).mtime < hi ++ lo) :
    (∀ pre, pre <+: idle₁ → (Machine.run next s (x₁ :: pre)).interrupt = false) ∧
    (∀ pre, pre <+: idle₂ →
      (Machine.run next s (x₁ :: idle₁ ++ x₂ :: pre)).interrupt = false) ∧
    (Machine.run next s (x₁ :: idle₁ ++ x₂ :: idle₂ ++ [x₃])).interrupt = false ∧
    (Machine.run next s (x₁ :: idle₁ ++ x₂ :: idle₂ ++ [x₃])).mtimecmp = hi ++ lo := by
  obtain ⟨⟨hw₁, hb₁, hd₁⟩, ⟨hw₂, hb₂, hd₂⟩, ⟨hw₃, hb₃, hd₃⟩⟩ := hx
  have hc₁ : cmpWe x₁ = true := by rw [cmpWe, hw₁, Bool.true_or]
  have hc₂ : cmpWe x₂ = true := by rw [cmpWe, hw₂, Bool.or_true]
  have hc₃ : cmpWe x₃ = true := by rw [cmpWe, hw₃, Bool.true_or]
  -- the value of each phase
  have hcmp₁ : (s.next x₁).mtimecmp = s.mtimecmp.extractLsb' 32 32 ++ 0xFFFFFFFF#32 := by
    rw [mtimecmp_low hw₁ hb₁, hd₁]
  have hcmp₂ : ((Machine.run next s (x₁ :: idle₁)).next x₂).mtimecmp = hi ++ 0xFFFFFFFF#32 := by
    rw [mtimecmp_high hw₂ hb₂, hd₂, Machine.run_cons, mtimecmp_run hno₁, hcmp₁]
    exact congrArg _ BitVec.extractLsb'_append_eq_right
  have hle₁ : s.mtimecmp ≤ (s.next x₁).mtimecmp := by
    rw [hcmp₁]
    calc s.mtimecmp = s.mtimecmp.extractLsb' 32 32 ++ s.mtimecmp.extractLsb' 0 32 :=
          (halves _).symm
      _ ≤ _ := le_ones _ _
  have hrun₂ : ∀ pre, Machine.run next s (x₁ :: idle₁ ++ x₂ :: pre)
      = Machine.run next ((Machine.run next s (x₁ :: idle₁)).next x₂) pre := by
    intro pre
    rw [Machine.run_append, Machine.run_cons next (Machine.run next s (x₁ :: idle₁))]
  refine ⟨?_, fun pre hpre => ?_, ?_, ?_⟩
  · exact interrupt_quiet (interrupt_of_cmpWe hc₁) hno₁ fun pre hpre =>
      below_of_le (hold pre hpre) hle₁
  · rw [hrun₂]
    refine interrupt_quiet (interrupt_of_cmpWe hc₂) hno₂ (fun pre hpre => ?_) pre hpre
    rw [← hrun₂, hcmp₂]
    exact below_of_le (hnew pre hpre) (le_ones _ _)
  · rw [Machine.run_concat]
    exact interrupt_of_cmpWe hc₃
  · rw [Machine.run_concat, mtimecmp_low hw₃ hb₃, hd₃, hrun₂, mtimecmp_run hno₂, hcmp₂]
    exact congrArg (· ++ lo) BitVec.extractLsb'_append_eq_left

/-- A new value for a counter at three, with a read of the counter and an idle cycle between the
stores. -/
theorem newValue_quiet_three :
    let s : Timer := ⟨3#64, 100#64, false, false, 0#32, false⟩
    let x₁ : RamIn := ⟨true, true, 0xF#4, 0x30008#32, 0xFFFFFFFF#32⟩
    let x₂ : RamIn := ⟨true, true, 0xF#4, 0x3000C#32, 1#32⟩
    let x₃ : RamIn := ⟨true, true, 0xF#4, 0x30008#32, 9#32⟩
    let idle : List RamIn := [⟨true, false, 0xF#4, 0x30000#32, 0#32⟩, RamIn.none]
    (∀ pre, pre <+: idle → (Machine.run next s (x₁ :: pre)).interrupt = false) ∧
    (∀ pre, pre <+: idle →
      (Machine.run next s (x₁ :: idle ++ x₂ :: pre)).interrupt = false) ∧
    (Machine.run next s (x₁ :: idle ++ x₂ :: idle ++ [x₃])).interrupt = false ∧
    (Machine.run next s (x₁ :: idle ++ x₂ :: idle ++ [x₃])).mtimecmp = 1#32 ++ 9#32 := by
  intro s x₁ x₂ x₃ idle
  refine newValue_quiet ⟨by decide, by decide, by decide⟩ s (by decide) (by decide) ?_ ?_
  · intro pre hpre
    have hall : ∀ l ∈ idle.inits, (Machine.run next s (x₁ :: l)).mtime < s.mtimecmp := by decide
    exact hall pre ((List.mem_inits _ _).mpr hpre)
  · intro pre hpre
    have hall : ∀ l ∈ idle.inits,
        (Machine.run next s (x₁ :: idle ++ x₂ :: l)).mtime < 1#32 ++ 9#32 := by decide
    exact hall pre ((List.mem_inits _ _).mpr hpre)

end Timer

end CocoIbex
