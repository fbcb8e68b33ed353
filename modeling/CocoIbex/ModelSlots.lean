import CocoIbex.RegisterModel

/-!
# The Registers of the C++ Model

Every operation of the model is one masked write (`BaseRegister.processTransaction_eq`), which
goes over a configuration word byte by byte. `Slot` names the registers that the model has, with
their addresses and classes and with what the register block reads there.

The list of registers that the model builds depends on the parameters: the number of the regions
and of the counters. A proof by cases on the list would be a case for each register; by cases on
`Slot` there is one for each kind, and the number of the register stays a variable. The lock
masks are computed from the values that the model finds at other addresses, which the slots give
in the terms of the register block.

## Main results

* `processTransaction_eq` — write, set and clear are one masked write;
* `sanitiseByte_eq_pmpCfgFields` — the check of a written configuration byte leaves the fields
  that the register block stores;
* `half_counterLoad` — the two words of a counter.
-/

namespace CocoIbex

namespace BaseRegister

/-! ### Operations are masked writes -/

/-- The word that a transaction writes over the value `v`, as the register block forms it. -/
def operand (trans : RegisterTransaction) (v : BitVec 32) : BitVec 32 :=
  match trans.csrOp with
  | .read | .write => trans.csrWdata
  | .set => trans.csrWdata ||| v
  | .clear => ~~~trans.csrWdata &&& v

variable {r : BaseRegister} {m : List BaseRegister} {trans : RegisterTransaction}

/-- Write, set and clear are one masked write. -/
theorem processTransaction_eq (h : trans.csrOp ≠ .read) :
    r.processTransaction m trans
      = r.update (r.registerValue &&& r.getLockMask m
          ||| operand trans r.registerValue &&& ~~~r.getLockMask m) := by
  have hbits (v w k : BitVec 32) :
      v ||| w &&& ~~~k = v &&& k ||| (w ||| v) &&& ~~~k ∧
        v &&& (~~~w ||| k) = v &&& k ||| (~~~w &&& v) &&& ~~~k := by
    constructor <;>
    · refine BitVec.eq_of_getLsbD_eq fun i hi => ?_
      simp only [BitVec.getLsbD_or, BitVec.getLsbD_and, BitVec.getLsbD_not, hi, decide_true,
        Bool.true_and]
      cases v.getLsbD i <;> cases w.getLsbD i <;> cases k.getLsbD i <;> rfl
  rw [processTransaction, operand]
  cases hop : trans.csrOp with
  | read => exact absurd hop h
  | write => rfl
  | set => exact congrArg r.update (hbits _ _ _).1
  | clear => exact congrArg r.update (hbits _ _ _).2

/-- An operation keeps the address and the class. -/
theorem update_key (r : BaseRegister) (v : BitVec 32) :
    (r.update v).registerAddress = r.registerAddress ∧
      (r.update v).registerClass = r.registerClass := by
  rw [update]
  split <;> exact ⟨rfl, rfl⟩

/-- A transaction changes neither the address nor the class of a register. -/
theorem processTransaction_key (r : BaseRegister) (m : List BaseRegister)
    (trans : RegisterTransaction) :
    (r.processTransaction m trans).registerAddress = r.registerAddress ∧
      (r.processTransaction m trans).registerClass = r.registerClass := by
  by_cases h : trans.csrOp = .read
  · rw [processTransaction, h]
    exact ⟨rfl, rfl⟩
  · rw [processTransaction_eq h]
    exact update_key r _

/-! ### The configuration word, byte by byte -/

/-- Words with the same bytes are equal. -/
theorem eq_of_bytes {x y : BitVec 32}
    (h : ∀ j < 4, x.extractLsb' (j * 8) 8 = y.extractLsb' (j * 8) 8) : x = y := by
  refine BitVec.eq_of_getLsbD_eq fun i hi => ?_
  have hbit := congrArg (fun b : BitVec 8 => b.getLsbD (i % 8)) (h (i / 8) (by omega))
  simpa [BitVec.getLsbD_extractLsb', Nat.mod_lt, Nat.div_add_mod'] using hbit

/-- The mask and the reserved check of one byte. -/
def sanitiseByte (b : BitVec 8) : BitVec 8 :=
  if b &&& 0x9F#8 &&& 3#8 = 2#8 then b &&& 0x9F#8 &&& ~~~3#8 else b &&& 0x9F#8

/-- W = 1 and R = 0, by the bits. -/
theorem and_three_iff {w : ℕ} (hw : 2 ≤ w) (x : BitVec w) :
    x &&& 3#w = 2#w ↔ x.getLsbD 1 = true ∧ x.getLsbD 0 = false := by
  have h3 (i : ℕ) (hi : i < w) : (3#w).getLsbD i = decide (i < 2) := by
    rw [BitVec.getLsbD_ofNat, decide_eq_true hi, Bool.true_and]
    exact Nat.testBit_two_pow_sub_one 2 i
  have h2 (i : ℕ) (hi : i < w) : (2#w).getLsbD i = decide (i = 1) := by
    rw [BitVec.getLsbD_ofNat, decide_eq_true hi, Bool.true_and]
    have htwo := Nat.testBit_two_pow (n := 1) (m := i)
    simpa [eq_comm] using htwo
  constructor
  · intro h
    have hbit (i : ℕ) (hi : i < w) : (x.getLsbD i && decide (i < 2)) = decide (i = 1) := by
      rw [← h3 i hi, ← BitVec.getLsbD_and, h, h2 i hi]
    exact ⟨by simpa using hbit 1 (by omega), by simpa using hbit 0 (by omega)⟩
  · rintro ⟨h1, h0⟩
    refine BitVec.eq_of_getLsbD_eq fun i hi => ?_
    rw [BitVec.getLsbD_and, h3 i hi, h2 i hi]
    obtain rfl | rfl | hlarge : i = 0 ∨ i = 1 ∨ 2 ≤ i := by omega
    · simp [h0]
    · simp [h1]
    · simp [show ¬ i < 2 by omega, show i ≠ 1 by omega]

/-- A round of the reserved check goes over one byte. -/
theorem extractLsb'_reservedCheck (v : BitVec 32) {i j : ℕ} (hi : i < 4) (hj : j < 4) :
    (reservedCheck v i).extractLsb' (j * 8) 8
      = if i = j ∧ v.extractLsb' (j * 8) 8 &&& 3#8 = 2#8 then v.extractLsb' (j * 8) 8 &&& ~~~3#8
        else v.extractLsb' (j * 8) 8 := by
  have hcond : v >>> (8 * i) &&& 3#32 = 2#32 ↔ v.extractLsb' (i * 8) 8 &&& 3#8 = 2#8 := by
    rw [and_three_iff (by omega), and_three_iff (by omega)]
    simp [Nat.mul_comm]
  rw [reservedCheck]
  by_cases hij : i = j
  · obtain rfl := hij
    by_cases hc : v.extractLsb' (i * 8) 8 &&& 3#8 = 2#8
    · rw [if_pos (hcond.mpr hc), if_pos ⟨rfl, hc⟩]
      refine BitVec.eq_of_getLsbD_eq fun b hb => ?_
      simp only [BitVec.getLsbD_extractLsb', BitVec.getLsbD_and, BitVec.getLsbD_not]
      interval_cases i <;> interval_cases b <;> simp
    · rw [if_neg fun h => hc (hcond.mp h), if_neg fun h => hc h.2]
  · rw [if_neg fun h : i = j ∧ _ => hij h.1]
    split_ifs
    · refine BitVec.eq_of_getLsbD_eq fun b hb => ?_
      simp only [BitVec.getLsbD_extractLsb', BitVec.getLsbD_and, BitVec.getLsbD_not]
      interval_cases i <;> interval_cases j <;> first
        | exact absurd rfl hij
        | (interval_cases b <;> simp)
    · rfl

/-- The bytes of a word after a write. -/
theorem extractLsb'_sanitise (v : BitVec 32) {j : ℕ} (hj : j < 4) :
    (sanitise v).extractLsb' (j * 8) 8 = sanitiseByte (v.extractLsb' (j * 8) 8) := by
  have hraz : (v &&& 0x9F9F9F9F#32).extractLsb' (j * 8) 8 = v.extractLsb' (j * 8) 8 &&& 0x9F#8 := by
    rw [BitVec.extractLsb'_and]
    interval_cases j <;> rfl
  have hfold : sanitise v = reservedCheck (reservedCheck (reservedCheck (reservedCheck
      (v &&& 0x9F9F9F9F#32) 0) 1) 2) 3 := rfl
  rw [hfold, extractLsb'_reservedCheck _ (by omega) hj, extractLsb'_reservedCheck _ (by omega) hj,
    extractLsb'_reservedCheck _ (by omega) hj, extractLsb'_reservedCheck _ (by omega) hj, hraz,
    sanitiseByte]
  interval_cases j <;> simp

/-- A test of one bit. -/
theorem and_twoPow_ne_zero {w : ℕ} (x : BitVec w) {i : ℕ} (hi : i < w) :
    x &&& BitVec.twoPow w i ≠ 0#w ↔ x.getLsbD i = true := by
  rw [BitVec.and_twoPow]
  cases x.getLsbD i with
  | false => simp
  | true =>
      have hne : BitVec.twoPow w i ≠ 0#w := by
        intro h
        have hbit := congrArg (fun y => y.getLsbD i) h
        simp [hi] at hbit
      simpa using hne

/-- The lock mask of one byte. -/
theorem extractLsb'_pmpCfgLockMask (v : BitVec 32) {j : ℕ} (hj : j < 4) :
    (pmpCfgLockMask v).extractLsb' (j * 8) 8
      = if (v.extractLsb' (j * 8) 8).getLsbD 7 then 0xFF#8 else 0#8 := by
  have hbyte : (v.extractLsb' (j * 8) 8).getLsbD 7 = v.getLsbD (j * 8 + 7) := by
    simp
  have h0 : v &&& 0x80#32 ≠ 0#32 ↔ v.getLsbD 7 = true :=
    and_twoPow_ne_zero (i := 7) v (by omega)
  have h1 : v &&& 0x8000#32 ≠ 0#32 ↔ v.getLsbD 15 = true :=
    and_twoPow_ne_zero (i := 15) v (by omega)
  have h2 : v &&& 0x800000#32 ≠ 0#32 ↔ v.getLsbD 23 = true :=
    and_twoPow_ne_zero (i := 23) v (by omega)
  have h3 : v &&& 0x80000000#32 ≠ 0#32 ↔ v.getLsbD 31 = true :=
    and_twoPow_ne_zero (i := 31) v (by omega)
  rw [pmpCfgLockMask, hbyte]
  simp only [h0, h1, h2, h3]
  interval_cases j <;> simp only [Nat.reduceMul, Nat.reduceAdd] <;>
    cases v.getLsbD 7 <;> cases v.getLsbD 15 <;> cases v.getLsbD 23 <;> cases v.getLsbD 31 <;> rfl

/-- A locked byte stays, and an open one takes the operand. -/
theorem extractLsb'_masked (v w : BitVec 32) {j : ℕ} (hj : j < 4) :
    (v &&& pmpCfgLockMask v ||| w &&& ~~~pmpCfgLockMask v).extractLsb' (j * 8) 8
      = if (v.extractLsb' (j * 8) 8).getLsbD 7 then v.extractLsb' (j * 8) 8
        else w.extractLsb' (j * 8) 8 := by
  have hnot (x : BitVec 32) : (~~~x).extractLsb' (j * 8) 8 = ~~~x.extractLsb' (j * 8) 8 := by
    refine BitVec.eq_of_getLsbD_eq fun i hi => ?_
    simp [show j * 8 + i < 32 by omega, hi]
  have hones (b : BitVec 8) : b &&& 255#8 = b := BitVec.and_allOnes
  rw [BitVec.extractLsb'_or, BitVec.extractLsb'_and, BitVec.extractLsb'_and, hnot,
    extractLsb'_pmpCfgLockMask v hj]
  split_ifs
  · simp [hones]
  · simp [hones]

end BaseRegister

/-! ### Bytes of a configuration word -/

/-- The check of a written byte leaves the fields that the register block stores, where the
granularity is a word. -/
theorem sanitiseByte_eq_pmpCfgFields {P : PerfParams} (hG : P.pmpGranularity = 0) (b : BitVec 8) :
    BaseRegister.sanitiseByte b = CsrDoc.pmpCfgFields P b := by
  have hfields : CsrDoc.pmpCfgFields P b = oneBit (b.getLsbD 7) ++ 0#2 ++ b.extractLsb' 3 2
      ++ oneBit (b.getLsbD 2) ++ oneBit (b.getLsbD 1 && b.getLsbD 0) ++ oneBit (b.getLsbD 0) := by
    simp [CsrDoc.pmpCfgFields, hG]
  rw [hfields]
  clear hfields
  revert b
  decide

/-- A configuration that is not writable without being readable passes the check. -/
theorem PmpCfg.sanitiseByte_rdata {c : PmpCfg} (h : c.write = true → c.read = true) :
    BaseRegister.sanitiseByte c.rdata = c.rdata := by
  obtain ⟨l, m, e, w, r⟩ := c
  cases w <;> cases r <;> cases l <;> cases m <;> cases e <;> first
    | rfl
    | exact absurd (h rfl) Bool.false_ne_true

/-! ### What the model holds of the register block -/

/-- The registers of the model. -/
inductive Slot where
  | pmpCfg (k : Fin 4)
  | pmpAddr (k : Fin 16)
  | mcountinhibit
  /-- the event of a counter from 3 on -/
  | mhpmevent (i : BitVec 5)
  /-- a word of a counter other than 1, the upper one if `high` is set -/
  | counter (high : Bool) (i : BitVec 5)
  deriving DecidableEq

namespace Slot

variable (P : PerfParams) {n : ℕ} (f : CsrFile n)

/-- A word of a counter. -/
def half (high : Bool) (c : BitVec 64) : BitVec 32 :=
  if high then c.extractLsb' 32 32 else c.extractLsb' 0 32

/-- The address of the register. -/
def address : Slot → BitVec 12
  | pmpCfg k => CsrNum.offPmpCfg + BitVec.ofNat 12 k
  | pmpAddr k => CsrNum.offPmpAddr + BitVec.ofNat 12 k
  | mcountinhibit => CsrNum.mcountinhibit
  | mhpmevent i => 0b0011001#7 ++ i
  | counter high i => if high then CsrFile.counterHighAddr i else CsrFile.counterLowAddr i

/-- The class that the model gives the register. -/
def registerClass (n : ℕ) : Slot → RegisterClass
  | pmpCfg k => if P.pmpEnable ∧ k.val < n / 4 then .pmpCfg else .nonImp
  | pmpAddr k => if P.pmpEnable ∧ k.val < n then .pmpAddr else .nonImp
  | mcountinhibit =>
    .warl (RegisterModel.mcountinhibitMask P) (RegisterModel.mcountinhibitResval P)
  | mhpmevent i => RegisterModel.counterClass P i.toNat 0xFFFFFFFF#32 (1#32 <<< i.toNat)
  | counter high i =>
    if i.toNat < 3 then .base
    else RegisterModel.counterClass P i.toNat (half high (RegisterModel.mhpmcounterMask P)) 0#32

/-- What the register block reads there. -/
def rdata : Slot → BitVec 32
  | pmpCfg k => f.regs.pmpCfgWord P.toCsrParams k
  | pmpAddr k => f.regs.pmpAddrRdata P.toCsrParams k
  | mcountinhibit => f.perf.mcountinhibit P
  | mhpmevent i => CsRegs.mhpmevent P.toCsrParams i.toNat
  | counter high i => half high (f.perf.mhpmcounter i)

/-- The counters and events that the model has. -/
def Held : Slot → Prop
  | mhpmevent i => 3 ≤ i.toNat
  | counter _ i => i ≠ 1#5
  | _ => True

/-- Which registers exist can be told one by one. -/
instance : DecidablePred Held
  | pmpCfg _ | pmpAddr _ | mcountinhibit => inferInstanceAs (Decidable True)
  | mhpmevent i => inferInstanceAs (Decidable (3 ≤ i.toNat))
  | counter _ i => inferInstanceAs (Decidable (i ≠ 1#5))

/-- Every register of the model has a slot. -/
theorem exists_of_mem {P : PerfParams} {n : ℕ} {key : BitVec 12 × RegisterClass}
    (h : key ∈ RegisterModel.registerMap P n) :
    ∃ s : Slot, s.Held ∧ key = (s.address, s.registerClass P n) := by
  have hlt {i : ℕ} (hi : i < 3 + 29) : (BitVec.ofNat 5 i).toNat = i := by
    rw [BitVec.toNat_ofNat]
    omega
  have hne {i : ℕ} (hi : 3 ≤ i ∧ i < 3 + 29) : BitVec.ofNat 5 i ≠ 1#5 := by
    intro heq
    have hval := congrArg BitVec.toNat heq
    rw [hlt hi.2] at hval
    simp at hval
    omega
  have haddr {i : ℕ} (hi : 3 ≤ i ∧ i < 3 + 29) :
      0x320#12 + BitVec.ofNat 12 i = 0b0011001#7 ++ BitVec.ofNat 5 i ∧
      0xB00#12 + BitVec.ofNat 12 i = CsrFile.counterLowAddr (BitVec.ofNat 5 i) ∧
      0xB80#12 + BitVec.ofNat 12 i = CsrFile.counterHighAddr (BitVec.ofNat 5 i) := by
    obtain ⟨h3, h32⟩ := hi
    interval_cases i <;> exact ⟨rfl, rfl, rfl⟩
  simp only [RegisterModel.registerMap, List.mem_append, List.mem_map, List.mem_range,
    List.mem_range'_1, List.mem_cons, List.not_mem_nil, or_false] at h
  rcases h with ((((((⟨i, hi, rfl⟩ | ⟨i, hi, rfl⟩) | rfl) | ⟨i, hi, rfl⟩) | rfl | rfl) |
    ⟨i, hi, rfl⟩) | rfl | rfl) | ⟨i, hi, rfl⟩
  · exact ⟨.pmpCfg ⟨i, hi⟩, trivial, rfl⟩
  · exact ⟨.pmpAddr ⟨i, hi⟩, trivial, rfl⟩
  · exact ⟨.mcountinhibit, trivial, rfl⟩
  · refine ⟨.mhpmevent (BitVec.ofNat 5 i), by rw [Held, hlt hi.2]; exact hi.1, ?_⟩
    rw [address, registerClass, hlt hi.2, (haddr hi).1]
  · exact ⟨.counter false 0#5, (by decide : 0#5 ≠ 1#5), rfl⟩
  · exact ⟨.counter false 2#5, (by decide : 2#5 ≠ 1#5), rfl⟩
  · refine ⟨.counter false (BitVec.ofNat 5 i), hne hi, ?_⟩
    rw [address, registerClass, hlt hi.2, (haddr hi).2.1, if_neg (show ¬ i < 3 by omega)]
    rfl
  · exact ⟨.counter true 0#5, (by decide : 0#5 ≠ 1#5), rfl⟩
  · exact ⟨.counter true 2#5, (by decide : 2#5 ≠ 1#5), rfl⟩
  · refine ⟨.counter true (BitVec.ofNat 5 i), hne hi, ?_⟩
    rw [address, registerClass, hlt hi.2, (haddr hi).2.2, if_neg (show ¬ i < 3 by omega)]
    rfl

variable {P f} {s : Slot} {x : CsRegsIn}

/-- The read data of the event of a counter. -/
theorem csrRdata_mhpmevent {i : BitVec 5} (hi : 3 ≤ i.toNat)
    (ha : x.csrAddr = (mhpmevent i).address) :
    f.csrRdata P x = CsRegs.mhpmevent P.toCsrParams i.toNat := by
  have haddr : x.csrAddr.toNat = 0x320 + i.toNat := by
    rw [ha, address, Bits.toNat_append_eq]
    rfl
  have hlt := i.isLt
  have hne {b : BitVec 12} (hb : b.toNat < 0x323 ∨ 0x33F < b.toNat) : x.csrAddr ≠ b := by
    rintro rfl
    omega
  have hout (lo hi : BitVec 12) (hlo : 0x33F < lo.toNat) : ¬ (lo ≤ x.csrAddr ∧ x.csrAddr ≤ hi) := by
    rintro ⟨h1, -⟩
    rw [BitVec.le_def] at h1
    omega
  have hevent : CsrNum.isMhpmevent x.csrAddr = true := by
    have h1 : 0x323#12 ≤ x.csrAddr := by
      rw [BitVec.le_def, haddr, BitVec.toNat_ofNat]
      omega
    have h2 : x.csrAddr ≤ 0x33F#12 := by
      rw [BitVec.le_def, haddr, BitVec.toNat_ofNat]
      omega
    rw [CsrNum.isMhpmevent, decide_eq_true h1, decide_eq_true h2]
    rfl
  have hfield : x.csrAddr.extractLsb' 0 5 = i := by
    rw [ha]
    exact BitVec.extractLsb'_append_eq_right
  have hx : (f.wired P x).csrAddr = x.csrAddr := rfl
  simp only [CsrFile.csrRdata, CsRegs.csrRdata, hx, if_neg (hne (b := CsrNum.mhartid) (by decide)),
    if_neg (hne (b := CsrNum.mstatus) (by decide)), if_neg (hne (b := CsrNum.misa) (by decide)),
    if_neg (hne (b := CsrNum.mie) (by decide)), if_neg (hne (b := CsrNum.mscratch) (by decide)),
    if_neg (hne (b := CsrNum.mtvec) (by decide)), if_neg (hne (b := CsrNum.mepc) (by decide)),
    if_neg (hne (b := CsrNum.mcause) (by decide)), if_neg (hne (b := CsrNum.mtval) (by decide)),
    if_neg (hne (b := CsrNum.mip) (by decide)),
    if_neg (hout CsrNum.offPmpCfg 0x3A3#12 (by decide)),
    if_neg (hout CsrNum.offPmpAddr 0x3BF#12 (by decide)),
    if_neg (hne (b := CsrNum.dcsr) (by decide)), if_neg (hne (b := CsrNum.dpc) (by decide)),
    if_neg (hne (b := CsrNum.dscratch0) (by decide)),
    if_neg (hne (b := CsrNum.dscratch1) (by decide)), hevent, if_true, hfield]

/-- The read data of a slot. -/
theorem csrRdata_eq (hs : s.Held) (ha : x.csrAddr = s.address) : f.csrRdata P x = s.rdata P f := by
  cases s with
  | pmpCfg k =>
      obtain ⟨k, hk⟩ := k
      have ha' : x.csrAddr = CsrNum.offPmpCfg + BitVec.ofNat 12 k := ha
      interval_cases k <;>
        (simp +decide only [CsrFile.csrRdata, CsRegs.csrRdata, CsrFile.wired, ha', if_true,
          if_false]; rfl)
  | pmpAddr k => exact CsrFile.csrRdata_pmpAddr x k.isLt ha
  | mcountinhibit =>
      have ha' : x.csrAddr = CsrNum.mcountinhibit := ha
      rw [CsrFile.csrRdata_of_isCounter (by rw [ha']; rfl), PerfCounters.rdata, if_pos ha', rdata]
  | mhpmevent i => exact csrRdata_mhpmevent hs ha
  | counter high i =>
      obtain ⟨hlow, hnot, hhigh, hne, hne', hidx, hidx'⟩ := CsrFile.counterAddr_spec i hs
      cases high with
      | false =>
          have ha' : x.csrAddr = CsrFile.counterLowAddr i := ha
          rw [CsrFile.csrRdata_of_isCounter (by simp [ha', CsrNum.isCounter_eq, hlow]), ha']
          simp [PerfCounters.rdata, hne, hnot, hidx, rdata, half]
      | true =>
          have ha' : x.csrAddr = CsrFile.counterHighAddr i := ha
          rw [CsrFile.csrRdata_of_isCounter (by simp [ha', CsrNum.isCounter_eq, hhigh]), ha']
          simp [PerfCounters.rdata, hne', hhigh, hidx', rdata, half]

/-- The addresses of the model are legal in M-mode. -/
theorem address_legal (hs : s.Held) :
    CsRegs.isDebug s.address = false ∧ CsRegs.isTrigger s.address = false ∧
      (CsRegs.isMachine s.address || CsRegs.isPmp s.address || CsrNum.isMhpmevent s.address
        || CsrNum.isCounter s.address) = true ∧ s.address.extractLsb' 10 2 ≠ 0b11#2 := by
  cases s with
  | pmpCfg k => revert k; decide
  | pmpAddr k => revert k; decide
  | mcountinhibit => decide
  | mhpmevent i => revert i; decide
  | counter high i => revert high i; decide

/-- A write to such an address is legal in M-mode. -/
theorem csrWeInt_eq (hs : s.Held) (ha : x.csrAddr = s.address) (hm : f.regs.privLvl = .m) :
    f.csrWeInt P x = CsRegs.csrWreq x := by
  obtain ⟨hdebug, htrigger, himpl, hro⟩ := address_legal hs
  rw [← ha] at hdebug htrigger himpl hro
  have hcsr : CsRegs.illegalCsr P.toCsrParams x = false := by
    simp [CsRegs.illegalCsr, hdebug, htrigger, himpl]
  have hwrite : CsRegs.illegalCsrWrite x = false := by
    simp [CsRegs.illegalCsrWrite, hro]
  have hpriv : f.regs.illegalCsrPriv x = false := by
    have hlt := (x.csrAddr.extractLsb' 8 2).isLt
    rw [CsRegs.illegalCsrPriv, hm, decide_eq_false_iff_not, BitVec.lt_def, Nat.not_lt]
    exact Nat.le_of_lt_succ hlt
  simp [CsrFile.csrWeInt, CsRegs.csrWeInt, CsRegs.illegalCsrInsn, hcsr, hwrite, hpriv]

end Slot

/-! ### Counters -/

namespace RegisterModel

variable {P : PerfParams}

/-- The bits below a position. -/
theorem getLsbD_twoPow_sub_one {w k i : ℕ} (hi : i < w) :
    (1#w <<< k - 1#w).getLsbD i = decide (i < k) := by
  by_cases hk : k < w
  · have hval : (1#w <<< k - 1#w).toNat = 2 ^ k - 1 := by
      have hlt : 2 ^ k < 2 ^ w := Nat.pow_lt_pow_right (by omega) hk
      have hpos : 0 < 2 ^ k := Nat.two_pow_pos k
      have hone : 1 % 2 ^ w = 1 := Nat.mod_eq_of_lt (by omega)
      rw [BitVec.toNat_sub, BitVec.toNat_shiftLeft, BitVec.toNat_ofNat, hone, Nat.one_shiftLeft,
        Nat.mod_eq_of_lt hlt]
      have hsum : 2 ^ w - 1 + 2 ^ k = 2 ^ w + (2 ^ k - 1) := by omega
      rw [hsum, Nat.add_mod_left, Nat.mod_eq_of_lt (by omega)]
    rw [BitVec.getLsbD, hval, Nat.testBit_two_pow_sub_one]
  · have hzero : 1#w <<< k = 0#w := BitVec.shiftLeft_eq_zero (by omega)
    rw [hzero, BitVec.zero_sub, BitVec.neg_one_eq_allOnes, BitVec.getLsbD_allOnes,
      decide_eq_true hi, decide_eq_true (show i < k by omega)]

/-- The mask of the unused bits of a counter. -/
theorem getLsbD_mhpmcounterMask {i : ℕ} (hi : i < 64) :
    (mhpmcounterMask P).getLsbD i = !decide (i < P.mhpmCounterWidth) := by
  rw [mhpmcounterMask]
  split_ifs with hw
  · simp [show i < P.mhpmCounterWidth by omega]
  · rw [BitVec.getLsbD_not, decide_eq_true hi, Bool.true_and, getLsbD_twoPow_sub_one hi]

/-- The flops of a counter are the bits outside its mask. -/
theorem counterFlops_eq (c : BitVec 64) :
    counterFlops P.mhpmCounterWidth c = c &&& ~~~mhpmcounterMask P := by
  refine BitVec.eq_of_getLsbD_eq fun i hi => ?_
  rw [counterFlops, BitVec.getLsbD_setWidth, BitVec.getLsbD_setWidth, BitVec.getLsbD_and,
    BitVec.getLsbD_not, getLsbD_mhpmcounterMask hi, decide_eq_true hi]
  simp [Bool.and_comm]

/-- A counter of 64 bits is not cut. -/
theorem counterFlops_64 (c : BitVec 64) : counterFlops 64 c = c := by
  simp [counterFlops]

/-- `mcountinhibit` after a reset holds ones for the counters that are not there. -/
theorem mcountinhibitResval_eq : mcountinhibitResval P = ~~~PerfCounters.inhibitMask P := by
  refine BitVec.eq_of_getLsbD_eq fun i hi => ?_
  rw [mcountinhibitResval, PerfCounters.inhibitMask, BitVec.getLsbD_shiftLeft, BitVec.getLsbD_not,
    BitVec.getLsbD_not, BitVec.getLsbD_ofNat, Nat.testBit_two_pow_sub_one]
  by_cases h3 : i < 3
  · simp [h3, hi, show i < P.mhpmCounterNum + 3 by omega]
  · rw [getLsbD_twoPow_sub_one (by omega)]
    have hiff : i - 3 < P.mhpmCounterNum ↔ i < P.mhpmCounterNum + 3 := by omega
    simp [h3, hi, hiff, show i - 3 < 32 by omega]

end RegisterModel

namespace Slot

/-- The halves of a bitwise AND. -/
theorem half_and (high : Bool) (c d : BitVec 64) :
    half high (c &&& d) = half high c &&& half high d := by
  cases high
  · exact BitVec.extractLsb'_and ..
  · exact BitVec.extractLsb'_and ..

/-- The halves of a complement. -/
theorem half_not (high : Bool) (c : BitVec 64) : half high (~~~c) = ~~~half high c := by
  cases high <;>
  · refine BitVec.eq_of_getLsbD_eq fun i hi => ?_
    simp [half, hi, show i < 64 by omega, show 32 + i < 64 by omega]

/-- The written half of a counter, and the other one. -/
theorem half_counterLoad (high : Bool) (w : BitVec 32) (c : BitVec 64) :
    half high (counterLoad high w c) = w ∧
      half (!high) (counterLoad high w c) = half (!high) c := by
  cases high
  · exact ⟨BitVec.extractLsb'_append_eq_right, BitVec.extractLsb'_append_eq_left⟩
  · exact ⟨BitVec.extractLsb'_append_eq_left, BitVec.extractLsb'_append_eq_right⟩

end Slot

end CocoIbex
