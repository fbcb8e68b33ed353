import Mathlib.Tactic.IntervalCases
import CocoIbex.PerfCounters
import CocoIbex.Warl

/-!
# Read-Back of the Control and Status Registers

`CsrDoc` has the fields of the registers as `doc/cs_registers.rst` documents them, as a file of
words with rules. The register block implements this file but for two writes: one to `dcsr`,
which stores the fields `ebreaks`, `stepie` and `cause` as well, and one to an address register
below a region in TOR mode, which is dropped even if nothing is locked (`csr_readback_iff`).

The documented file is an instance of the general one of `Warl`: for each address a view of what
is stored, and a rule for what a write stores, which may depend on other registers. `Table`
relates the register block to it, address by address. A set or clear is built from the value
that the register block reads, so a field that reads as zero is cleared by it, and this is the
same on both sides. ## Main results

* `csr_readback_iff` — along any sequence of legal CSR instructions without a trap in between,
  the registers read back as documented if and only if no write is one of the two;
* `pmpCfgRdata_written` — a write to a `pmpcfg` register, one byte of it.
-/

namespace CocoIbex

/-! ### The documented fields -/

namespace CsrDoc

variable (P : PerfParams) (n : ℕ) (m : BitVec 12 → BitVec 32)

/-- A privilege level that is not supported stands for M-mode. -/
def priv (p : BitVec 2) : BitVec 2 := if p = 0b00#2 then 0b00#2 else 0b11#2

/-- `mstatus` keeps the interrupt enables, MPP, MPRV and TW; a reserved level in MPP becomes
machine mode. -/
def mstatus (w : BitVec 32) : BitVec 32 :=
  0#10 ++ oneBit (w.getLsbD 21) ++ 0#3 ++ oneBit (w.getLsbD 17) ++ 0#4
    ++ priv (w.extractLsb' 11 2) ++ 0#3 ++ oneBit (w.getLsbD 7) ++ 0#3 ++ oneBit (w.getLsbD 3)
    ++ 0#3

/-- `mie` keeps the enables of the interrupts that Ibex has. -/
def mie (w : BitVec 32) : BitVec 32 :=
  0#1 ++ w.extractLsb' 16 15 ++ 0#4 ++ oneBit (w.getLsbD 11) ++ 0#3 ++ oneBit (w.getLsbD 7)
    ++ 0#3 ++ oneBit (w.getLsbD 3) ++ 0#3

/-- The base is aligned to 256 bytes, and the mode is vectored. -/
def mtvec (w : BitVec 32) : BitVec 32 := w.extractLsb' 8 24 ++ 0#6 ++ 0b01#2

/-- `mepc` and `dpc`. -/
def epc (w : BitVec 32) : BitVec 32 := w.extractLsb' 1 31 ++ 0#1

/-- `mcause` keeps the interrupt bit and five bits of the cause. -/
def mcause (w : BitVec 32) : BitVec 32 := w.extractLsb' 31 1 ++ 0#26 ++ w.extractLsb' 0 5

/-- Of `dcsr`, `cause` is read-only, and every other field that is not listed is zero. -/
def dcsr (old w : BitVec 32) : BitVec 32 :=
  4#4 ++ 0#12 ++ oneBit (w.getLsbD 15) ++ 0#1 ++ 0#1 ++ oneBit (w.getLsbD 12) ++ 0#1 ++ 0#1
    ++ 0#1 ++ old.extractLsb' 6 3 ++ 0#1 ++ 0#1 ++ 0#1 ++ oneBit (w.getLsbD 2)
    ++ priv (w.extractLsb' 0 2)

/-- An instruction address match in M-mode and U-mode that enters debug mode. -/
def tdata1 (w : BitVec 32) : BitVec 32 :=
  2#4 ++ 1#1 ++ 0#6 ++ 0#1 ++ 0#1 ++ 0#1 ++ 0#2 ++ 1#4 ++ 0#1 ++ 0#4 ++ 1#1 ++ 0#1 ++ 0#1 ++ 1#1
    ++ oneBit (w.getLsbD 2) ++ 0#1 ++ 0#1

/-- `cpuctrl` keeps the settings of the features that the build has. -/
def cpuctrl (w : BitVec 32) : BitVec 32 :=
  0#30 ++ oneBit (P.dataIndTiming && w.getLsbD 1) ++ oneBit (P.icache && w.getLsbD 0)

/-- Of `mcountinhibit`, bit 1 is zero, and the bits of the counters that are not there are
one. -/
def mcountinhibit (w : BitVec 32) : BitVec 32 :=
  ~~~PerfCounters.inhibitMask P ||| (w &&& PerfCounters.inhibitMask P &&& ~~~2#32)

/-! ### The PMP registers -/

/-- The `k` low bits. -/
def low (k : ℕ) : BitVec 32 := BitVec.ofNat 32 (2 ^ k - 1)

/-- The region is implemented. -/
def pmpRegion (i : ℕ) : Bool := P.pmpEnable && i < n

/-- `pmp<i>cfg` in its register. -/
def pmpCfg (i : ℕ) : BitVec 8 :=
  (m (CsrNum.offPmpCfg + BitVec.ofNat 12 (i / 4))).extractLsb' (i % 4 * 8) 8

/-- The mode: OFF, TOR, NA4 or NAPOT. -/
def pmpMode (i : ℕ) : BitVec 2 := (pmpCfg m i).extractLsb' 3 2

/-- The lock bit of the configuration of a region. -/
def pmpLock (i : ℕ) : Bool := (pmpCfg m i).getLsbD 7

/-- The reserved write without read is neither, and NA4 is OFF where the granularity is
coarser than a word. -/
def pmpCfgFields (b : BitVec 8) : BitVec 8 :=
  let mode := b.extractLsb' 3 2
  oneBit (b.getLsbD 7) ++ 0#2
    ++ (if mode = 0b10#2 ∧ P.pmpGranularity ≠ 0 then 0b00#2 else mode)
    ++ oneBit (b.getLsbD 2) ++ oneBit (b.getLsbD 1 && b.getLsbD 0) ++ oneBit (b.getLsbD 0)

/-- What a write to its register makes of `pmp<i>cfg`: a locked region stays as it is. -/
def pmpCfgWrite (i : ℕ) (w : BitVec 32) : BitVec 8 :=
  if pmpRegion P n i then
    if pmpLock m i then pmpCfg m i else pmpCfgFields P (w.extractLsb' (i % 4 * 8) 8)
  else 0#8

/-- A write to `pmpaddr<i>`: the address of a locked region stays as it is, and so does the
lower end of a locked region in TOR mode. -/
def pmpAddrWrite (i : ℕ) (old w : BitVec 32) : BitVec 32 :=
  if pmpRegion P n i then
    if pmpLock m i || (pmpLock m (i + 1) && pmpMode m (i + 1) == 0b01#2) then old else w
  else 0#32

/-- `pmpaddr<i>` as it is read: the low bits are zero in the modes OFF and TOR, and one in
the mode NAPOT. -/
def pmpAddrRead (i : ℕ) (w : BitVec 32) : BitVec 32 :=
  let mode := pmpMode m i
  if mode = 0b00#2 ∨ mode = 0b01#2 then w &&& ~~~low P.pmpGranularity
  else if mode = 0b11#2 ∧ 2 ≤ P.pmpGranularity then w ||| low (P.pmpGranularity - 1)
  else w

/-! ### The rules -/

/-- The address is that of a `pmpcfg` register. -/
def isPmpCfg (a : BitVec 12) : Bool := CsrNum.offPmpCfg ≤ a && a ≤ 0x3A3#12

/-- The address is that of a `pmpaddr` register. -/
def isPmpAddr (a : BitVec 12) : Bool := CsrNum.offPmpAddr ≤ a && a ≤ 0x3BF#12

/-- A read. -/
def view (a : BitVec 12) : BitVec 32 :=
  if isPmpAddr a then pmpAddrRead P m (a - CsrNum.offPmpAddr).toNat (m a) else m a

/-- What a write of `w` to `a` stores there, in debug mode or not. What is not listed is not
written. -/
def legal (debug : Bool) (a : BitVec 12) (w : BitVec 32) : BitVec 32 :=
  if a = CsrNum.mstatus then mstatus w
  else if a = CsrNum.mie then mie w
  else if a = CsrNum.mscratch then w
  else if a = CsrNum.mtvec then mtvec w
  else if a = CsrNum.mepc then epc w
  else if a = CsrNum.mcause then mcause w
  else if a = CsrNum.mtval then w
  else if isPmpCfg a then
    let k := (a - CsrNum.offPmpCfg).toNat
    pmpCfgWrite P n m (4 * k + 3) w ++ pmpCfgWrite P n m (4 * k + 2) w
      ++ pmpCfgWrite P n m (4 * k + 1) w ++ pmpCfgWrite P n m (4 * k) w
  else if isPmpAddr a then pmpAddrWrite P n m (a - CsrNum.offPmpAddr).toNat (m a) w
  else if a = CsrNum.dcsr then dcsr (m a) w
  else if a = CsrNum.dpc then epc w
  else if a = CsrNum.dscratch0 then w
  else if a = CsrNum.dscratch1 then w
  else if a = CsrNum.mcountinhibit then mcountinhibit P w
  else if a = CsrNum.tdata1 ∧ debug ∧ P.dbgTriggerEn then tdata1 w
  else if a = CsrNum.tdata2 ∧ debug ∧ P.dbgTriggerEn then w
  else if a = CsrNum.cpuctrl then cpuctrl P w
  else m a

/-- The registers as documented. -/
def rules (debug : Bool) : Warl.Rules (BitVec 12) (BitVec 32) where
  view := view P
  legal := fun m => legal P n m debug

/-- The operation of a CSR instruction on the value read. -/
def operation (x : CsRegsIn) (r : BitVec 32) : BitVec 32 :=
  match x.csrOp with
  | .write | .read => x.csrWdata
  | .set => x.csrWdata ||| r
  | .clear => ~~~x.csrWdata &&& r

/-- A cycle of the documented registers. -/
def step (x : CsRegsIn × PerfEvents) : BitVec 12 → BitVec 32 :=
  if CsRegs.csrWreq x.1 then
    (rules P n x.1.debugMode).modify m x.1.csrAddr (operation x.1)
  else m

end CsrDoc

/-! ### The fields of the registers -/

/-- A level that is written is read back as the legal one that the rule gives. -/
theorem PrivLvl.legal_bits (p : BitVec 2) : (PrivLvl.ofBits p).legal.bits = CsrDoc.priv p := by
  revert p
  decide

/-- What `mstatus` stores of a word is read back as the rule says. -/
theorem Status.rdata_ofWdata (w : BitVec 32) : (Status.ofWdata w).rdata = CsrDoc.mstatus w := by
  simp only [Status.rdata, Status.ofWdata, PrivLvl.legal_bits]
  rfl

/-- What `mie` stores of a word is read back as the rule says. -/
theorem Irqs.rdata_ofWdata (w : BitVec 32) : (Irqs.ofWdata w).rdata = CsrDoc.mie w := rfl

/-- The cause of `dcsr` as it is read. -/
theorem Dcsr.cause_rdata (d : Dcsr) : d.rdata.extractLsb' 6 3 = d.cause := by
  refine BitVec.eq_of_getLsbD_eq fun i hi => ?_
  simp only [Dcsr.rdata, BitVec.getLsbD_extractLsb', BitVec.getLsbD_append]
  interval_cases i <;> rfl

/-- The documented `dcsr` in terms of the fields of the register. -/
theorem Dcsr.doc_eq (d : Dcsr) (w : BitVec 32) :
    CsrDoc.dcsr d.rdata w
      = { Dcsr.ofWdata w with ebreaks := false, stepie := false, cause := d.cause }.rdata := by
  simp only [CsrDoc.dcsr, Dcsr.cause_rdata, ← PrivLvl.legal_bits]
  rfl

/-- What a write to `dcsr` stores is as documented exactly when it leaves alone the fields
that are not to be written. -/
theorem Dcsr.rdata_ofWdata_iff {d : Dcsr} {w : BitVec 32} :
    (Dcsr.ofWdata w).rdata = CsrDoc.dcsr d.rdata w ↔
      w.getLsbD 13 = false ∧ w.getLsbD 11 = false ∧ w.extractLsb' 6 3 = d.cause := by
  constructor
  · intro h
    have hbit (i : ℕ) : (Dcsr.ofWdata w).rdata.getLsbD i = (CsrDoc.dcsr d.rdata w).getLsbD i := by
      rw [h]
    simp only [Dcsr.rdata, Dcsr.ofWdata, CsrDoc.dcsr, BitVec.getLsbD_append] at hbit
    have h13 := hbit 13
    have h11 := hbit 11
    have hcause := congrArg (BitVec.extractLsb' 6 3) h
    rw [Dcsr.doc_eq, Dcsr.cause_rdata, Dcsr.cause_rdata] at hcause
    exact ⟨by simpa [oneBit] using h13, by simpa [oneBit] using h11, hcause⟩
  · rintro ⟨h13, h11, hcause⟩
    rw [Dcsr.doc_eq, ← hcause]
    simp only [Dcsr.ofWdata, h13, h11]

/-- The lock bit and the mode of a configuration stand at their places in the byte that is read. -/
theorem PmpCfg.rdata_fields (c : PmpCfg) :
    c.rdata.getLsbD 7 = c.lock ∧ c.rdata.extractLsb' 3 2 = c.mode.bits := by
  obtain ⟨l, m, e, w, r⟩ := c
  cases l <;> cases m <;> cases e <;> cases w <;> cases r <;> exact ⟨rfl, rfl⟩

/-- The mode that is stored is the one that is written, but for NA4, which coarse regions do not
have. -/
theorem PmpCfg.mode_ofWdata (P : PerfParams) (w : BitVec 32) (lo : ℕ) :
    let mode := (w.extractLsb' lo 8).extractLsb' 3 2
    (PmpCfg.ofWdata P.pmpGranularity w lo).mode.bits
      = if mode = 0b10#2 ∧ P.pmpGranularity ≠ 0 then 0b00#2 else mode := by
  intro mode
  have hmode : mode = oneBit (w.getLsbD (lo + 4)) ++ oneBit (w.getLsbD (lo + 3)) := by
    refine BitVec.eq_of_getLsbD_eq fun i hi => ?_
    simp only [mode, oneBit, BitVec.getLsbD_extractLsb', BitVec.getLsbD_append]
    interval_cases i
    · simp
    · simp
  rw [hmode, PmpCfg.ofWdata]
  by_cases hg : P.pmpGranularity = 0 <;> cases w.getLsbD (lo + 4) <;> cases w.getLsbD (lo + 3) <;>
    simp [hg, oneBit, PmpCfgMode.bits]

/-- What a configuration stores of its byte is read back as the rule says. -/
theorem PmpCfg.rdata_ofWdata (P : PerfParams) (w : BitVec 32) (lo : ℕ) :
    (PmpCfg.ofWdata P.pmpGranularity w lo).rdata = CsrDoc.pmpCfgFields P (w.extractLsb' lo 8) := by
  rw [PmpCfg.rdata, PmpCfg.mode_ofWdata]
  simp [CsrDoc.pmpCfgFields, PmpCfg.ofWdata]

/-- The bytes of a word of four. -/
theorem extractLsb'_bytes (b₃ b₂ b₁ b₀ : BitVec 8) {j : ℕ} (hj : j < 4) :
    (b₃ ++ b₂ ++ b₁ ++ b₀ : BitVec 32).extractLsb' (j * 8) 8 = match j with
      | 0 => b₀ | 1 => b₁ | 2 => b₂ | _ => b₃ := by
  refine BitVec.eq_of_getLsbD_eq fun i hi => ?_
  simp only [BitVec.getLsbD_extractLsb', BitVec.getLsbD_append]
  interval_cases j <;> interval_cases i <;> rfl

/-! ### The registers that a write does not address -/

namespace CsRegs

variable {n : ℕ} {P : CsrParams} {s : CsRegs n} {x y : CsRegsIn}

/-- A region belongs to the configuration word of its index divided by four. -/
theorem pmpCfgAddr_eq {a : BitVec 12} (ha : CsrNum.offPmpCfg ≤ a ∧ a ≤ 0x3A3#12) {i : ℕ}
    (hi : i / 4 = (a - CsrNum.offPmpCfg).toNat) :
    CsrNum.offPmpCfg + BitVec.ofNat 12 i >>> 2 = a := by
  obtain ⟨h1, h2⟩ := ha
  apply BitVec.eq_of_toNat_eq
  have hoff : CsrNum.offPmpCfg.toNat = 0x3A0 := rfl
  rw [BitVec.le_def, hoff] at h1
  rw [BitVec.le_def] at h2
  rw [BitVec.toNat_sub, hoff] at hi
  rw [BitVec.toNat_add, BitVec.toNat_ushiftRight, BitVec.toNat_ofNat, Nat.shiftRight_eq_div_pow,
    hoff]
  have := a.isLt
  simp at h2
  omega

/-- The address registers of the PMP have consecutive addresses. -/
theorem pmpAddrAddr_eq {a : BitVec 12} :
    CsrNum.offPmpAddr + BitVec.ofNat 12 (a - CsrNum.offPmpAddr).toNat = a := by
  rw [BitVec.ofNat_toNat, BitVec.setWidth_eq, BitVec.add_comm, BitVec.sub_add_cancel]

/-- Without a trap and a return the registers are those that the CSR instruction leaves. -/
theorem next_eq_written (hc : x.csrSaveCause = false) (hd : x.csrRestoreDret = false)
    (hm : x.csrRestoreMret = false) : s.next P x = s.written P x := by
  simp [next, trapped, hc, hd, hm]

/-- A register that is not written keeps its value. -/
theorem pmpCfg_written_of_not_we {i : Fin n}
    (h : s.csrWe P x (CsrNum.offPmpCfg + BitVec.ofNat 12 i >>> 2) = false) :
    (s.written P x).pmpCfg i = s.pmpCfg i := by
  have hwe : s.pmpCfgWe P x i = false := by simp [pmpCfgWe, h]
  exact if_neg (by simp [hwe])

/-- A `pmpaddr` that is not addressed stays as it is. -/
theorem pmpAddr_written_of_not_we {i : Fin n}
    (h : s.csrWe P x (CsrNum.offPmpAddr + BitVec.ofNat 12 i) = false) :
    (s.written P x).pmpAddr i = s.pmpAddr i := by
  have hwe : s.pmpAddrWe P x i = false := by simp [pmpAddrWe, h]
  exact if_neg (by simp [hwe])

/-- A `pmpcfg` word that is not addressed stays as it is. -/
theorem pmpCfgWord_written_of_not_we {a : BitVec 12}
    (ha : CsrNum.offPmpCfg ≤ a ∧ a ≤ 0x3A3#12) (h : s.csrWe P x a = false) :
    (s.written P x).pmpCfgWord P (a - CsrNum.offPmpCfg).toNat
      = s.pmpCfgWord P (a - CsrNum.offPmpCfg).toNat := by
  have hbyte : ∀ i, i / 4 = (a - CsrNum.offPmpCfg).toNat →
      (s.written P x).pmpCfgRdata P i = s.pmpCfgRdata P i := by
    intro i hi
    refine dite_congr rfl (fun hr => ?_) fun _ => rfl
    rw [pmpCfg_written_of_not_we]
    simpa only [pmpCfgAddr_eq ha hi] using h
  simp only [pmpCfgWord]
  rw [hbyte _ (by omega), hbyte _ (by omega), hbyte _ (by omega), hbyte _ (by omega)]

/-- A CSR that is not written reads as before, the address registers of the PMP aside. -/
theorem csrRdata_written_of_not_we (hwe : s.csrWe P x y.csrAddr = false)
    (hp : ¬ (CsrNum.offPmpAddr ≤ y.csrAddr ∧ y.csrAddr ≤ 0x3BF#12)) (hb : x.csrMtvecInit = false) :
    (s.written P x).csrRdata P y = s.csrRdata P y := by
  have hno {a : BitVec 12} (ha : y.csrAddr = a) : s.csrWe P x a = false := ha ▸ hwe
  have keep {α : Type} {a : BitVec 12} (ha : y.csrAddr = a) (new old : α) :
      (if s.csrWe P x a then new else old) = old := if_neg (by simp [hno ha])
  -- one register after the other, in the order of the read multiplexer
  refine ite_congr rfl (fun _ => rfl) fun _ => ?_
  refine ite_congr rfl (fun ha => congrArg Status.rdata (keep ha _ _)) fun _ => ?_
  refine ite_congr rfl (fun _ => rfl) fun _ => ?_
  refine ite_congr rfl (fun ha => congrArg Irqs.rdata (keep ha _ _)) fun _ => ?_
  refine ite_congr rfl (fun ha => keep ha _ _) fun _ => ?_
  refine ite_congr rfl (fun ha => (keep ha _ _).trans (if_neg (by simp [hb]))) fun _ => ?_
  refine ite_congr rfl (fun ha => keep ha _ _) fun _ => ?_
  refine ite_congr rfl (fun ha => congrArg
    (fun c : BitVec 6 => c.extractLsb' 5 1 ++ 0#26 ++ c.extractLsb' 0 5) (keep ha _ _)) fun _ => ?_
  refine ite_congr rfl (fun ha => keep ha _ _) fun _ => ?_
  refine ite_congr rfl (fun _ => rfl) fun _ => ?_
  refine ite_congr rfl (fun ha => pmpCfgWord_written_of_not_we ha hwe) fun _ => ?_
  rw [if_neg hp, if_neg hp]
  refine ite_congr rfl (fun ha => congrArg Dcsr.rdata (keep ha _ _)) fun _ => ?_
  refine ite_congr rfl (fun ha => keep ha _ _) fun _ => ?_
  refine ite_congr rfl (fun ha => keep ha _ _) fun _ => ?_
  refine ite_congr rfl (fun ha => keep ha _ _) fun _ => ?_
  refine ite_congr rfl (fun _ => rfl) fun _ => ?_
  refine ite_congr rfl (fun _ => rfl) fun _ => ?_
  refine ite_congr rfl (fun ha => ?_) fun _ => ?_
  · simp [tmatchControlRdata, written, tmatchWe, hno ha]
  refine ite_congr rfl (fun ha => ?_) fun _ => ?_
  · simp [tmatchValueRdata, written, tmatchWe, hno ha]
  refine ite_congr rfl (fun ha => ?_) fun _ => rfl
  simp [dataIndTiming, icacheEnable, written, hno ha]

/-- A write that no register takes leaves all as they are. -/
theorem written_eq_self (hb : x.csrMtvecInit = false)
    (h : ∀ a ∈ [CsrNum.mstatus, CsrNum.mie, CsrNum.mscratch, CsrNum.mtvec, CsrNum.mepc,
      CsrNum.mcause, CsrNum.mtval, CsrNum.dcsr, CsrNum.dpc, CsrNum.dscratch0, CsrNum.dscratch1,
      CsrNum.cpuctrl], s.csrWe P x a = false)
    (hcfg : ∀ i, s.pmpCfgWe P x i = false) (haddr : ∀ i, s.pmpAddrWe P x i = false)
    (h1 : s.tmatchWe P x CsrNum.tdata1 = false) (h2 : s.tmatchWe P x CsrNum.tdata2 = false) :
    s.written P x = s := by
  simp only [List.forall_mem_cons] at h
  simp [written, h, hcfg, haddr, h1, h2, hb]

/-- What a read depends on. -/
theorem csrRdata_congr (ha : y.csrAddr = x.csrAddr) (hh : y.hartId = x.hartId)
    (hm : x.csrAddr ≠ CsrNum.mip)
    (hp : CsrNum.isCounter x.csrAddr = true → y.perfRdata = x.perfRdata) :
    s.csrRdata P y = s.csrRdata P x := by
  simp only [csrRdata, ha, hh, hm, if_false]
  by_cases hc : CsrNum.isCounter x.csrAddr = true
  · rw [hp hc]
  · simp only [hc, Bool.false_eq_true, if_false]

end CsRegs

/-! ### The register block as a file of words -/

namespace CsrFile

variable {n : ℕ} (P : PerfParams) (hid : BitVec 32) (f : CsrFile n)

/-- A CSR that only a CSR instruction or a trap changes: neither `mip` nor a counter. -/
def steady (a : BitVec 12) : Bool :=
  !(a == CsrNum.mip || CsrNum.isCounterLow a || CsrNum.isCounterHigh a)

/-- The inputs of a read of the CSR `a`. -/
def reading (a : BitVec 12) : CsRegsIn := { CsRegsIn.idle with hartId := hid, csrAddr := a }

/-- The flops of `pmpaddr<i>`. -/
def pmpAddrQ (i : ℕ) : BitVec 32 :=
  if h : P.pmpEnable ∧ i < n then f.regs.pmpAddr ⟨i, h.2⟩ else 0#32

/-- The word that a CSR stores: the one it reads as, but for the address of a PMP region. -/
def stored (a : BitVec 12) : BitVec 32 :=
  if !steady a then 0#32
  else if CsrDoc.isPmpAddr a then f.pmpAddrQ P (a - CsrNum.offPmpAddr).toNat
  else f.csrRdata P (reading hid a)

variable {P hid f}

/-! ### The PMP registers -/

/-- The stored map has the configuration words of the PMP at their addresses. -/
theorem stored_pmpCfg {k : ℕ} (hk : k < 4) :
    f.stored P hid (CsrNum.offPmpCfg + BitVec.ofNat 12 k) = f.regs.pmpCfgWord P.toCsrParams k := by
  interval_cases k <;>
    (simp +decide only [stored, csrRdata, CsRegs.csrRdata, reading, wired, if_true, if_false]; rfl)

/-- The stored map has the address registers of the PMP at their addresses, with all the bits they
store. -/
theorem stored_pmpAddr {k : ℕ} (hk : k < 16) :
    f.stored P hid (CsrNum.offPmpAddr + BitVec.ofNat 12 k) = f.pmpAddrQ P k := by
  interval_cases k <;> (simp +decide only [stored, if_true, if_false]; rfl)

/-- The byte of a region in the stored map is its configuration as it is read. -/
theorem pmpCfg_stored {i : ℕ} (hi : i < 16) :
    CsrDoc.pmpCfg (f.stored P hid) i = f.regs.pmpCfgRdata P.toCsrParams i := by
  have hk : i / 4 < 4 := by omega
  have hj : i % 4 < 4 := by omega
  rw [CsrDoc.pmpCfg, stored_pmpCfg hk, CsRegs.pmpCfgWord, extractLsb'_bytes _ _ _ _ hj]
  interval_cases i <;> rfl

/-- The configuration of an implemented region. -/
theorem pmpCfg_stored_of {i : ℕ} (hi : i < 16) (hr : P.pmpEnable = true ∧ i < n) :
    CsrDoc.pmpCfg (f.stored P hid) i = (f.regs.pmpCfg ⟨i, hr.2⟩).rdata := by
  rw [pmpCfg_stored hi, CsRegs.pmpCfgRdata, dif_pos hr]

/-- A region that is not implemented is not locked. -/
theorem pmpLock_stored_of_not {i : ℕ} (hi : i ≤ 16)
    (hr : ¬ (P.pmpEnable = true ∧ i < n)) : CsrDoc.pmpLock (f.stored P hid) i = false := by
  obtain hlt | rfl := hi.lt_or_eq
  · rw [CsrDoc.pmpLock, pmpCfg_stored hlt, CsRegs.pmpCfgRdata, dif_neg hr]
    rfl
  · simp +decide only [CsrDoc.pmpLock, CsrDoc.pmpCfg, stored, csrRdata, CsRegs.csrRdata, reading,
      wired, if_false]

/-- A write to a `pmpcfg` register, one byte of it. -/
theorem pmpCfgRdata_written (x : CsRegsIn) {i : ℕ} (hi : i < 16)
    (hwe : f.regs.csrWe P.toCsrParams x (CsrNum.offPmpCfg + BitVec.ofNat 12 (i / 4)) = true) :
    (f.regs.written P.toCsrParams x).pmpCfgRdata P.toCsrParams i
      = CsrDoc.pmpCfgWrite P n (f.stored P hid) i (f.regs.csrWdataInt P.toCsrParams x) := by
  have haddr : CsrNum.offPmpCfg + BitVec.ofNat 12 i >>> 2
      = CsrNum.offPmpCfg + BitVec.ofNat 12 (i / 4) := by
    interval_cases i <;> rfl
  by_cases hr : P.pmpEnable = true ∧ i < n
  · have hregion : CsrDoc.pmpRegion P n i = true := by simp [CsrDoc.pmpRegion, hr]
    obtain ⟨hlock, -⟩ := PmpCfg.rdata_fields (f.regs.pmpCfg ⟨i, hr.2⟩)
    have hcfgWe : f.regs.pmpCfgWe P.toCsrParams x ⟨i, hr.2⟩
        = !(f.regs.pmpCfg ⟨i, hr.2⟩).lock := by
      simp [CsRegs.pmpCfgWe, haddr, hwe, hr.1]
    have hw : (f.regs.written P.toCsrParams x).pmpCfg ⟨i, hr.2⟩
        = if f.regs.pmpCfgWe P.toCsrParams x ⟨i, hr.2⟩ then
            PmpCfg.ofWdata P.pmpGranularity (f.regs.csrWdataInt P.toCsrParams x) (i % 4 * 8)
          else f.regs.pmpCfg ⟨i, hr.2⟩ := rfl
    rw [CsRegs.pmpCfgRdata, dif_pos hr, hw, hcfgWe, CsrDoc.pmpCfgWrite, if_pos hregion,
      CsrDoc.pmpLock, pmpCfg_stored_of hi hr, hlock]
    cases (f.regs.pmpCfg ⟨i, hr.2⟩).lock with
    | true => rfl
    | false => exact PmpCfg.rdata_ofWdata P _ _
  · have hregion : ¬ CsrDoc.pmpRegion P n i = true := by simpa [CsrDoc.pmpRegion] using hr
    rw [CsRegs.pmpCfgRdata, dif_neg hr, CsrDoc.pmpCfgWrite, if_neg hregion]

/-- A write to the address of the region `i` that the lower end of an open region in TOR mode
drops. -/
def DropsAddr (P : PerfParams) (f : CsrFile n) (i : ℕ) : Prop :=
  ∃ h : i + 1 < n, P.pmpEnable = true ∧ (f.regs.pmpCfg ⟨i, by omega⟩).lock = false ∧
    (f.regs.pmpCfg ⟨i + 1, h⟩).lock = false ∧ (f.regs.pmpCfg ⟨i + 1, h⟩).mode = .tor

/-- A write to a `pmpaddr` register that is not dropped. -/
theorem pmpAddrQ_next (hn : n ≤ 16) (x : CsRegsIn) (e : PerfEvents) {i : ℕ} (hi : i < 16)
    (hregs : (f.next P x e).regs = f.regs.written P.toCsrParams (f.wired P x))
    (hwe : f.regs.csrWe P.toCsrParams (f.wired P x) (CsrNum.offPmpAddr + BitVec.ofNat 12 i) = true)
    (hno : ¬ DropsAddr P f i) :
    (f.next P x e).pmpAddrQ P i
      = CsrDoc.pmpAddrWrite P n (f.stored P hid) i (f.pmpAddrQ P i) (f.csrWdataInt P x) := by
  by_cases hr : P.pmpEnable = true ∧ i < n
  · have hregion : CsrDoc.pmpRegion P n i = true := by simp [CsrDoc.pmpRegion, hr]
    obtain ⟨hlock, -⟩ := PmpCfg.rdata_fields (f.regs.pmpCfg ⟨i, hr.2⟩)
    have hself : CsrDoc.pmpLock (f.stored P hid) i = (f.regs.pmpCfg ⟨i, hr.2⟩).lock := by
      rw [CsrDoc.pmpLock, pmpCfg_stored_of hi hr, hlock]
    have hold : f.pmpAddrQ P i = f.regs.pmpAddr ⟨i, hr.2⟩ := dif_pos hr
    have hw : (f.next P x e).pmpAddrQ P i
        = if f.regs.pmpAddrWe P.toCsrParams (f.wired P x) ⟨i, hr.2⟩ then f.csrWdataInt P x
          else f.pmpAddrQ P i := by
      rw [pmpAddrQ, dif_pos hr, hregs, hold]
      rfl
    rw [hw, CsrDoc.pmpAddrWrite, if_pos hregion, hself]
    by_cases hj : i + 1 < n
    · have hr' : P.pmpEnable = true ∧ i + 1 < n := ⟨hr.1, hj⟩
      obtain ⟨hlock', hmode'⟩ := PmpCfg.rdata_fields (f.regs.pmpCfg ⟨i + 1, hj⟩)
      have habove : CsrDoc.pmpLock (f.stored P hid) (i + 1) = (f.regs.pmpCfg ⟨i + 1, hj⟩).lock := by
        rw [CsrDoc.pmpLock, pmpCfg_stored_of (by omega) hr', hlock']
      have hmode : CsrDoc.pmpMode (f.stored P hid) (i + 1)
          = (f.regs.pmpCfg ⟨i + 1, hj⟩).mode.bits := by
        rw [CsrDoc.pmpMode, pmpCfg_stored_of (by omega) hr', hmode']
      have haddrWe : f.regs.pmpAddrWe P.toCsrParams (f.wired P x) ⟨i, hr.2⟩
          = (!(f.regs.pmpCfg ⟨i, hr.2⟩).lock && (f.regs.pmpCfg ⟨i + 1, hj⟩).mode != .tor) := by
        simp [CsRegs.pmpAddrWe, hwe, hr.1, show i < n - 1 by omega]
      rw [haddrWe, habove, hmode]
      cases hl : (f.regs.pmpCfg ⟨i, hr.2⟩).lock with
      | true => rfl
      | false =>
          cases hm : (f.regs.pmpCfg ⟨i + 1, hj⟩).mode <;>
            cases hl' : (f.regs.pmpCfg ⟨i + 1, hj⟩).lock <;> try rfl
          -- an open region in TOR mode above
          exact absurd ⟨hj, hr.1, hl, hl', hm⟩ hno
    · have hnone : CsrDoc.pmpLock (f.stored P hid) (i + 1) = false :=
        pmpLock_stored_of_not (by omega) fun h => hj h.2
      have haddrWe : f.regs.pmpAddrWe P.toCsrParams (f.wired P x) ⟨i, hr.2⟩
          = !(f.regs.pmpCfg ⟨i, hr.2⟩).lock := by
        simp [CsRegs.pmpAddrWe, hwe, hr.1, show ¬ i < n - 1 by omega]
      rw [haddrWe, hnone]
      cases (f.regs.pmpCfg ⟨i, hr.2⟩).lock <;> rfl
  · have hregion : ¬ CsrDoc.pmpRegion P n i = true := by simpa [CsrDoc.pmpRegion] using hr
    rw [pmpAddrQ, dif_neg hr, CsrDoc.pmpAddrWrite, if_neg hregion]

variable (hid) in
/-- A write that is dropped, and what it should have stored. -/
theorem pmpAddrQ_next_of_drops (hn : n ≤ 16) (x : CsRegsIn) (e : PerfEvents) {i : ℕ}
    (hregs : (f.next P x e).regs = f.regs.written P.toCsrParams (f.wired P x))
    (hd : DropsAddr P f i) (w : BitVec 32) :
    (f.next P x e).pmpAddrQ P i = f.pmpAddrQ P i ∧
      CsrDoc.pmpAddrWrite P n (f.stored P hid) i (f.pmpAddrQ P i) w = w := by
  obtain ⟨hj, hen, hl, hl', hm⟩ := hd
  have hr : P.pmpEnable = true ∧ i < n := ⟨hen, by omega⟩
  have hr' : P.pmpEnable = true ∧ i + 1 < n := ⟨hen, hj⟩
  have haddrWe : f.regs.pmpAddrWe P.toCsrParams (f.wired P x) ⟨i, hr.2⟩ = false := by
    simp [CsRegs.pmpAddrWe, show i < n - 1 by omega, hm]
  constructor
  · rw [pmpAddrQ, pmpAddrQ, dif_pos hr, dif_pos hr, hregs]
    exact if_neg (by simp [haddrWe])
  · have hself : CsrDoc.pmpLock (f.stored P hid) i = false := by
      rw [CsrDoc.pmpLock, pmpCfg_stored_of (by omega) hr, (PmpCfg.rdata_fields _).1, hl]
    have habove : CsrDoc.pmpLock (f.stored P hid) (i + 1) = false := by
      rw [CsrDoc.pmpLock, pmpCfg_stored_of (by omega) hr', (PmpCfg.rdata_fields _).1, hl']
    simp [CsrDoc.pmpAddrWrite, CsrDoc.pmpRegion, hr, hself, habove]

/-! ### Reads -/

/-- A `pmpaddr` register. -/
theorem exists_of_isPmpAddr {a : BitVec 12} (ha : CsrDoc.isPmpAddr a = true) :
    ∃ k < 16, a = CsrNum.offPmpAddr + BitVec.ofNat 12 k ∧ (a - CsrNum.offPmpAddr).toNat = k := by
  simp only [CsrDoc.isPmpAddr, Bool.and_eq_true, decide_eq_true_eq, BitVec.le_def] at ha
  refine ⟨_, ?_, CsRegs.pmpAddrAddr_eq.symm, rfl⟩
  have hoff : CsrNum.offPmpAddr.toNat = 0x3B0 := rfl
  have htop : (0x3BF#12).toNat = 0x3BF := rfl
  rw [BitVec.toNat_sub]
  omega

/-- A `pmpcfg` register. -/
theorem exists_of_isPmpCfg {a : BitVec 12} (ha : CsrDoc.isPmpCfg a = true) :
    ∃ k < 4, a = CsrNum.offPmpCfg + BitVec.ofNat 12 k ∧ (a - CsrNum.offPmpCfg).toNat = k := by
  simp only [CsrDoc.isPmpCfg, Bool.and_eq_true, decide_eq_true_eq, BitVec.le_def] at ha
  refine ⟨_, ?_, ?_, rfl⟩
  · have hoff : CsrNum.offPmpCfg.toNat = 0x3A0 := rfl
    have htop : (0x3A3#12).toNat = 0x3A3 := rfl
    rw [BitVec.toNat_sub]
    omega
  · rw [BitVec.ofNat_toNat, BitVec.setWidth_eq, BitVec.add_comm, BitVec.sub_add_cancel]

/-- A `pmpaddr` is read as its mode and the granularity have it. -/
theorem csrRdata_pmpAddr (x : CsRegsIn) {k : ℕ} (hk : k < 16)
    (ha : x.csrAddr = CsrNum.offPmpAddr + BitVec.ofNat 12 k) :
    f.csrRdata P x = f.regs.pmpAddrRdata P.toCsrParams k := by
  interval_cases k <;>
    (simp +decide only [csrRdata, CsRegs.csrRdata, wired, ha, if_true, if_false]; rfl)

/-- The address of a region is read as documented. -/
theorem pmpAddrRead_stored {k : ℕ} (hk : k < 16) :
    CsrDoc.pmpAddrRead P (f.stored P hid) k (f.pmpAddrQ P k)
      = f.regs.pmpAddrRdata P.toCsrParams k := by
  by_cases hr : P.pmpEnable = true ∧ k < n
  · have hmode : CsrDoc.pmpMode (f.stored P hid) k = (f.regs.pmpCfg ⟨k, hr.2⟩).mode.bits := by
      rw [CsrDoc.pmpMode, pmpCfg_stored_of hk hr, (PmpCfg.rdata_fields _).2]
    rw [CsrDoc.pmpAddrRead, hmode, pmpAddrQ, dif_pos hr, CsRegs.pmpAddrRdata, dif_pos hr]
    by_cases hg : P.pmpGranularity = 0
    · simp only [hg, CsrDoc.low]
      split_ifs
      · exact BitVec.and_allOnes
      · omega
      · rfl
    · cases (f.regs.pmpCfg ⟨k, hr.2⟩).mode <;> simp [hg, PmpCfgMode.bits, CsrDoc.low]
  · simp only [CsrDoc.pmpAddrRead, CsrDoc.pmpMode, pmpCfg_stored hk, CsRegs.pmpCfgRdata,
      CsRegs.pmpAddrRdata, pmpAddrQ, dif_neg hr]
    simp

/-- A read is that of the file of words. -/
theorem csrRdata_eq_view {x : CsRegsIn} (hx : x.hartId = hid) (hs : steady x.csrAddr = true) :
    f.csrRdata P x = CsrDoc.view P (f.stored P hid) x.csrAddr := by
  have hstored : f.stored P hid x.csrAddr
      = if CsrDoc.isPmpAddr x.csrAddr then
          f.pmpAddrQ P (x.csrAddr - CsrNum.offPmpAddr).toNat
        else f.csrRdata P (reading hid x.csrAddr) := by
    rw [stored, hs]
    rfl
  rw [CsrDoc.view, hstored]
  split_ifs with hp
  · obtain ⟨k, hk, ha, hsub⟩ := exists_of_isPmpAddr hp
    rw [hsub, pmpAddrRead_stored hk, csrRdata_pmpAddr x hk ha]
  · have hm : x.csrAddr ≠ CsrNum.mip := by
      intro h
      rw [steady, h] at hs
      cases hs
    exact (CsRegs.csrRdata_congr (x := f.wired P x) (y := f.wired P (reading hid x.csrAddr)) rfl
      hx.symm hm fun _ => rfl).symm

/-- The registers one by one. -/
structure Table (P : PerfParams) (hid : BitVec 32) (f : CsrFile n) : Prop where
  mstatus : f.stored P hid CsrNum.mstatus = f.regs.mstatus.rdata
  mie : f.stored P hid CsrNum.mie = f.regs.mie.rdata
  mscratch : f.stored P hid CsrNum.mscratch = f.regs.mscratch
  mtvec : f.stored P hid CsrNum.mtvec = f.regs.mtvec
  mepc : f.stored P hid CsrNum.mepc = f.regs.mepc
  mcause : f.stored P hid CsrNum.mcause
    = f.regs.mcause.extractLsb' 5 1 ++ 0#26 ++ f.regs.mcause.extractLsb' 0 5
  mtval : f.stored P hid CsrNum.mtval = f.regs.mtval
  dcsr : f.stored P hid CsrNum.dcsr = f.regs.dcsr.rdata
  dpc : f.stored P hid CsrNum.dpc = f.regs.depc
  dscratch0 : f.stored P hid CsrNum.dscratch0 = f.regs.dscratch0
  dscratch1 : f.stored P hid CsrNum.dscratch1 = f.regs.dscratch1
  mcountinhibit : f.stored P hid CsrNum.mcountinhibit = f.perf.mcountinhibit P
  tdata1 : f.stored P hid CsrNum.tdata1 = f.regs.tmatchControlRdata P.toCsrParams
  tdata2 : f.stored P hid CsrNum.tdata2 = f.regs.tmatchValueRdata P.toCsrParams
  cpuctrl : f.stored P hid CsrNum.cpuctrl = 0#30 ++ oneBit (f.regs.dataIndTiming P.toCsrParams)
        ++ oneBit (f.regs.icacheEnable P.toCsrParams)

/-- Every register is stored, read and written as its row of the table says. -/
theorem table (P : PerfParams) (hid : BitVec 32) (f : CsrFile n) : Table P hid f := by
  constructor <;>
    simp +decide only [stored, csrRdata, CsRegs.csrRdata, reading, wired, PerfCounters.rdata,
      if_true, if_false]

/-! ### Writes -/

/-- A cycle of software: a legal CSR instruction or none, and neither a trap nor a return. -/
structure Software (P : PerfParams) (hid : BitVec 32) (f : CsrFile n)
    (x : CsRegsIn × PerfEvents) : Prop where
  legal : f.illegalCsrInsn P x.1 = false
  hartId : x.1.hartId = hid
  mtvecInit : x.1.csrMtvecInit = false
  saveCause : x.1.csrSaveCause = false
  restoreDret : x.1.csrRestoreDret = false
  restoreMret : x.1.csrRestoreMret = false

/-- A cycle that writes nothing to `dcsr` that the documentation does not let it write, and
drops no write to a `pmpaddr` register. -/
structure Benign (P : PerfParams) (f : CsrFile n) (x : CsRegsIn × PerfEvents) : Prop where
  dcsr : CsRegs.csrWreq x.1 = true → x.1.csrAddr = CsrNum.dcsr →
    (f.csrWdataInt P x.1).getLsbD 13 = false ∧ (f.csrWdataInt P x.1).getLsbD 11 = false ∧
      (f.csrWdataInt P x.1).extractLsb' 6 3 = f.regs.dcsr.cause
  pmpAddr : CsRegs.csrWreq x.1 = true → ∀ i < 16,
    x.1.csrAddr = CsrNum.offPmpAddr + BitVec.ofNat 12 i →
      DropsAddr P f i → f.csrWdataInt P x.1 = f.pmpAddrQ P i

variable {x : CsRegsIn × PerfEvents}

/-- An access of software is a write where its operation asks for one. -/
theorem Software.csrWeInt (h : Software P hid f x) :
    f.csrWeInt P x.1 = CsRegs.csrWreq x.1 := by
  have hl : f.regs.illegalCsrInsn P.toCsrParams x.1 = false := h.legal
  simp [CsrFile.csrWeInt, CsRegs.csrWeInt, hl]

/-- The registers after such a cycle. -/
theorem Software.regs_next (h : Software P hid f x) :
    (f.next P x.1 x.2).regs = f.regs.written P.toCsrParams (f.wired P x.1) :=
  CsRegs.next_eq_written h.saveCause h.restoreDret h.restoreMret

/-- What is stored depends on the registers and on `mcountinhibit`. -/
theorem stored_congr {f' : CsrFile n} {b : BitVec 12} (hregs : f'.regs = f.regs)
    (hq : b = CsrNum.mcountinhibit → f'.perf.mcountinhibitQ = f.perf.mcountinhibitQ) :
    f'.stored P hid b = f.stored P hid b := by
  rw [stored, stored]
  split_ifs with hs hp
  · rfl
  · rw [pmpAddrQ, pmpAddrQ, hregs]
  · have hs' : steady b = true := by simpa using hs
    have hm : b ≠ CsrNum.mip := by
      rintro rfl
      cases hs'
    rw [csrRdata, csrRdata, hregs]
    refine CsRegs.csrRdata_congr (x := f.wired P (reading hid b)) rfl rfl hm fun hc => ?_
    have hb : b = CsrNum.mcountinhibit := by
      have hc' : CsrNum.isCounter b = true := hc
      simp only [steady, Bool.not_eq_true', Bool.or_eq_false_iff] at hs'
      simpa [CsrNum.isCounter_eq, hs'] using hc'
    change PerfCounters.rdata P f'.perf b = PerfCounters.rdata P f.perf b
    rw [PerfCounters.rdata, PerfCounters.rdata, if_pos hb, if_pos hb, PerfCounters.mcountinhibit,
      PerfCounters.mcountinhibit, hq hb]

/-- A CSR that is not written stores what it stored. -/
theorem stored_next_of_not_we (h : Software P hid f x) {b : BitVec 12}
    (hwe : f.regs.csrWe P.toCsrParams (f.wired P x.1) b = false) :
    (f.next P x.1 x.2).stored P hid b = f.stored P hid b := by
  have hq : b = CsrNum.mcountinhibit →
      (f.next P x.1 x.2).perf.mcountinhibitQ = f.perf.mcountinhibitQ := by
    rintro rfl
    exact if_neg fun hw => Bool.false_ne_true (hwe.symm.trans hw)
  rw [stored_congr (f := ⟨f.regs.written P.toCsrParams (f.wired P x.1), f.perf⟩) h.regs_next hq,
    stored, stored]
  split_ifs with hs hp
  · rfl
  · obtain ⟨k, hk, ha, hsub⟩ := exists_of_isPmpAddr hp
    rw [hsub, pmpAddrQ, pmpAddrQ]
    refine dite_congr rfl (fun hr => ?_) fun _ => rfl
    exact CsRegs.pmpAddr_written_of_not_we (by rw [← ha]; exact hwe)
  · have hp' : ¬ (CsrNum.offPmpAddr ≤ b ∧ b ≤ 0x3BF#12) := by simpa [CsrDoc.isPmpAddr] using hp
    exact CsRegs.csrRdata_written_of_not_we (y := f.wired P (reading hid b)) hwe hp' h.mtvecInit

/-- The registers of an implemented region. -/
theorem isPmpCfg_of_region {i : ℕ} (hi : i < 16) :
    CsrDoc.isPmpCfg (CsrNum.offPmpCfg + BitVec.ofNat 12 i >>> 2) = true := by
  interval_cases i <;> rfl

/-- The addresses of the sixteen regions are those of `pmpaddr` registers. -/
theorem isPmpAddr_of_region {i : ℕ} (hi : i < 16) :
    CsrDoc.isPmpAddr (CsrNum.offPmpAddr + BitVec.ofNat 12 i) = true := by
  interval_cases i <;> rfl

/-- The trigger registers are written in debug mode only. -/
theorem tmatchWe_eq_false {y : CsRegsIn} {a b : BitVec 12}
    (h : ¬ (a = b ∧ y.debugMode = true ∧ P.dbgTriggerEn = true))
    (hno : a ≠ b → f.regs.csrWe P.toCsrParams (f.wired P y) b = false) :
    f.regs.tmatchWe P.toCsrParams (f.wired P y) b = false := by
  by_cases hab : a = b
  · have hd : P.dbgTriggerEn = false ∨ (f.wired P y).debugMode = false := by
      by_contra hne
      rw [not_or, Bool.not_eq_false, Bool.not_eq_false] at hne
      exact h ⟨hab, hne.2, hne.1⟩
    obtain hd | hd := hd <;> simp [CsRegs.tmatchWe, hd]
  · rw [CsRegs.tmatchWe, hno hab, Bool.and_false]

/-- The CSR that is written stores what the documentation says. -/
theorem stored_next_self (hn : n ≤ 16) (h : Software P hid f x) (hok : Benign P f x)
    (hw : CsRegs.csrWreq x.1 = true) {a : BitVec 12} (ha : x.1.csrAddr = a) :
    (f.next P x.1 x.2).stored P hid a
      = CsrDoc.legal P n (f.stored P hid) x.1.debugMode a (f.csrWdataInt P x.1) := by
  have hregs := h.regs_next
  have hint : f.regs.csrWeInt P.toCsrParams (f.wired P x.1) = true := h.csrWeInt.trans hw
  have hwe : f.regs.csrWe P.toCsrParams (f.wired P x.1) a = true := by
    rw [CsRegs.csrWe, hint, Bool.true_and, beq_iff_eq]
    exact ha
  have take {α : Type} {b : BitVec 12} (hb : a = b) (new old : α) :
      (if f.regs.csrWe P.toCsrParams (f.wired P x.1) b then new else old) = new :=
    if_pos (hb ▸ hwe)
  set w := f.csrWdataInt P x.1 with hwdata
  have ht := table P hid (f.next P x.1 x.2)
  rw [CsrDoc.legal]
  by_cases h1 : a = CsrNum.mstatus
  · rw [if_pos h1, h1, ht.mstatus, hregs]
    exact (congrArg Status.rdata (take h1 _ _)).trans (Status.rdata_ofWdata w)
  rw [if_neg h1]
  by_cases h2 : a = CsrNum.mie
  · rw [if_pos h2, h2, ht.mie, hregs]
    exact (congrArg Irqs.rdata (take h2 _ _)).trans (Irqs.rdata_ofWdata w)
  rw [if_neg h2]
  by_cases h3 : a = CsrNum.mscratch
  · rw [if_pos h3, h3, ht.mscratch, hregs]
    exact take h3 _ _
  rw [if_neg h3]
  by_cases h4 : a = CsrNum.mtvec
  · rw [if_pos h4, h4, ht.mtvec, hregs]
    exact take h4 _ _
  rw [if_neg h4]
  by_cases h5 : a = CsrNum.mepc
  · rw [if_pos h5, h5, ht.mepc, hregs]
    exact take h5 _ _
  rw [if_neg h5]
  by_cases h6 : a = CsrNum.mcause
  · rw [if_pos h6, h6, ht.mcause, hregs]
    refine (congrArg (fun c : BitVec 6 => c.extractLsb' 5 1 ++ 0#26 ++ c.extractLsb' 0 5)
      (take h6 _ _)).trans ?_
    exact congrArg₂ (fun (i : BitVec 1) (c : BitVec 5) => i ++ 0#26 ++ c)
      BitVec.extractLsb'_append_eq_left BitVec.extractLsb'_append_eq_right
  rw [if_neg h6]
  by_cases h7 : a = CsrNum.mtval
  · rw [if_pos h7, h7, ht.mtval, hregs]
    exact take h7 _ _
  rw [if_neg h7]
  by_cases hcfg : CsrDoc.isPmpCfg a = true
  · obtain ⟨k, hk, hka, hsub⟩ := exists_of_isPmpCfg hcfg
    have hbyte : ∀ j < 4, (f.regs.written P.toCsrParams (f.wired P x.1)).pmpCfgRdata
        P.toCsrParams (4 * k + j) = CsrDoc.pmpCfgWrite P n (f.stored P hid) (4 * k + j) w := by
      intro j hj
      refine pmpCfgRdata_written (f.wired P x.1) (by omega) ?_
      rw [show (4 * k + j) / 4 = k by omega, ← hka]
      exact hwe
    rw [if_pos hcfg, hsub, hka, stored_pmpCfg hk, hregs, CsRegs.pmpCfgWord, hbyte 3 (by omega),
      hbyte 2 (by omega), hbyte 1 (by omega)]
    congr 1
    exact hbyte 0 (by omega)
  rw [if_neg hcfg]
  by_cases haddr : CsrDoc.isPmpAddr a = true
  · obtain ⟨k, hk, hka, hsub⟩ := exists_of_isPmpAddr haddr
    rw [if_pos haddr, hsub, hka, stored_pmpAddr hk, stored_pmpAddr hk]
    by_cases hd : DropsAddr P f k
    · obtain ⟨hnext, hdoc⟩ := pmpAddrQ_next_of_drops hid hn x.1 x.2 hregs hd w
      rw [hnext, hdoc]
      exact (hok.pmpAddr hw k hk (ha.trans hka) hd).symm
    · exact pmpAddrQ_next hn x.1 x.2 hk hregs (by rw [← hka]; exact hwe) hd
  rw [if_neg haddr]
  by_cases h8 : a = CsrNum.dcsr
  · rw [if_pos h8, h8, ht.dcsr, hregs, (table P hid f).dcsr]
    obtain ⟨hebreaks, hstepie, hcause⟩ := hok.dcsr hw (ha.trans h8)
    exact (congrArg Dcsr.rdata (take h8 _ _)).trans
      (Dcsr.rdata_ofWdata_iff.mpr ⟨hebreaks, hstepie, hcause⟩)
  rw [if_neg h8]
  by_cases h9 : a = CsrNum.dpc
  · rw [if_pos h9, h9, ht.dpc, hregs]
    exact take h9 _ _
  rw [if_neg h9]
  by_cases h10 : a = CsrNum.dscratch0
  · rw [if_pos h10, h10, ht.dscratch0, hregs]
    exact take h10 _ _
  rw [if_neg h10]
  by_cases h11 : a = CsrNum.dscratch1
  · rw [if_pos h11, h11, ht.dscratch1, hregs]
    exact take h11 _ _
  rw [if_neg h11]
  by_cases h12 : a = CsrNum.mcountinhibit
  · rw [if_pos h12, h12, ht.mcountinhibit, PerfCounters.mcountinhibit, CsrDoc.mcountinhibit]
    rw [h12] at hwe
    congr 1
    exact if_pos hwe
  rw [if_neg h12]
  by_cases h13 : a = CsrNum.tdata1 ∧ x.1.debugMode = true ∧ P.dbgTriggerEn = true
  · have hwe1 : f.regs.tmatchWe P.toCsrParams (f.wired P x.1) CsrNum.tdata1 = true := by
      have hd : (f.wired P x.1).debugMode = true := h13.2.1
      rw [← h13.1, CsRegs.tmatchWe, h13.2.2, hd, hwe]
      rfl
    rw [if_pos h13, h13.1, ht.tdata1, hregs, CsRegs.tmatchControlRdata, if_pos h13.2.2]
    congr 3
    exact congrArg oneBit (if_pos hwe1)
  rw [if_neg h13]
  by_cases h14 : a = CsrNum.tdata2 ∧ x.1.debugMode = true ∧ P.dbgTriggerEn = true
  · have hwe2 : f.regs.tmatchWe P.toCsrParams (f.wired P x.1) CsrNum.tdata2 = true := by
      have hd : (f.wired P x.1).debugMode = true := h14.2.1
      rw [← h14.1, CsRegs.tmatchWe, h14.2.2, hd, hwe]
      rfl
    rw [if_pos h14, h14.1, ht.tdata2, hregs, CsRegs.tmatchValueRdata, if_pos h14.2.2]
    exact if_pos hwe2
  rw [if_neg h14]
  by_cases h15 : a = CsrNum.cpuctrl
  · have hdit : (f.regs.written P.toCsrParams (f.wired P x.1)).dataIndTiming P.toCsrParams
        = (P.dataIndTiming && w.getLsbD 1) := by
      cases hp : P.dataIndTiming with
      | false => simp [CsRegs.dataIndTiming, hp]
      | true =>
          simp only [CsRegs.dataIndTiming, CsRegs.written, hp, if_true, take h15]
          rfl
    have hic : (f.regs.written P.toCsrParams (f.wired P x.1)).icacheEnable P.toCsrParams
        = (P.icache && w.getLsbD 0) := by
      cases hp : P.icache with
      | false => simp [CsRegs.icacheEnable, hp]
      | true =>
          simp only [CsRegs.icacheEnable, CsRegs.written, hp, if_true, take h15]
          rfl
    rw [if_pos h15, h15, ht.cpuctrl, hregs, hdit, hic, CsrDoc.cpuctrl]
  rw [if_neg h15]
  -- no register takes the write
  have hno {b : BitVec 12} (hb : a ≠ b) : f.regs.csrWe P.toCsrParams (f.wired P x.1) b = false := by
    rw [CsRegs.csrWe, hint, Bool.true_and, beq_eq_false_iff_ne]
    exact fun h => hb (ha.symm.trans h)
  have hself : f.regs.written P.toCsrParams (f.wired P x.1) = f.regs := by
    refine CsRegs.written_eq_self h.mtvecInit ?_ (fun i => ?_) (fun i => ?_) ?_ ?_
    · simp only [List.forall_mem_cons]
      exact ⟨hno h1, hno h2, hno h3, hno h4, hno h5, hno h6, hno h7, hno h8, hno h9, hno h10,
        hno h11, hno h15, List.forall_mem_nil _⟩
    · rw [CsRegs.pmpCfgWe, hno (fun heq => hcfg (heq ▸ isPmpCfg_of_region (by omega)))]
      simp
    · rw [CsRegs.pmpAddrWe, hno (fun heq => haddr (heq ▸ isPmpAddr_of_region (by omega)))]
      simp
    · exact tmatchWe_eq_false h13 hno
    · exact tmatchWe_eq_false h14 hno
  refine stored_congr (h.regs_next.trans hself) fun hb => absurd hb h12

/-! ### Runs -/

/-- Of the registers that no instruction writes, none has a rule. -/
theorem legal_of_not_steady (m : BitVec 12 → BitVec 32) (debug : Bool) {a : BitVec 12}
    (hs : steady a = false) (w : BitVec 32) : CsrDoc.legal P n m debug a w = m a := by
  have hne {b : BitVec 12} (hb : steady b = true) : a ≠ b := by
    rintro rfl
    rw [hs] at hb
    cases hb
  have hcfg : CsrDoc.isPmpCfg a = false := by
    rw [← Bool.not_eq_true]
    intro h
    obtain ⟨k, hk, rfl, -⟩ := exists_of_isPmpCfg h
    interval_cases k <;> cases hs
  have haddr : CsrDoc.isPmpAddr a = false := by
    rw [← Bool.not_eq_true]
    intro h
    obtain ⟨k, hk, rfl, -⟩ := exists_of_isPmpAddr h
    interval_cases k <;> cases hs
  simp [CsrDoc.legal, hcfg, haddr, hne (b := CsrNum.mstatus) rfl, hne (b := CsrNum.mie) rfl,
    hne (b := CsrNum.mscratch) rfl, hne (b := CsrNum.mtvec) rfl, hne (b := CsrNum.mepc) rfl,
    hne (b := CsrNum.mcause) rfl, hne (b := CsrNum.mtval) rfl, hne (b := CsrNum.dcsr) rfl,
    hne (b := CsrNum.dpc) rfl, hne (b := CsrNum.dscratch0) rfl, hne (b := CsrNum.dscratch1) rfl,
    hne (b := CsrNum.mcountinhibit) rfl, hne (b := CsrNum.tdata1) rfl,
    hne (b := CsrNum.tdata2) rfl, hne (b := CsrNum.cpuctrl) rfl]

/-- The two rules that not every write keeps to. -/
theorem legal_dcsr (m : BitVec 12 → BitVec 32) (debug : Bool) (w : BitVec 32) :
    CsrDoc.legal P n m debug CsrNum.dcsr w = CsrDoc.dcsr (m CsrNum.dcsr) w := by
  simp +decide only [CsrDoc.legal, if_true, if_false]

/-- The rule of a `pmpaddr` register in the table is the one of its region. -/
theorem legal_pmpAddr (m : BitVec 12 → BitVec 32) (debug : Bool) {i : ℕ} (hi : i < 16)
    (w : BitVec 32) :
    CsrDoc.legal P n m debug (CsrNum.offPmpAddr + BitVec.ofNat 12 i) w
      = CsrDoc.pmpAddrWrite P n m i (m (CsrNum.offPmpAddr + BitVec.ofNat 12 i)) w := by
  interval_cases i <;> (simp +decide only [CsrDoc.legal, if_true, if_false]; rfl)

/-- The word that an operation writes. -/
theorem legal_csrWdataInt (h : Software P hid f x) :
    CsrDoc.legal P n (f.stored P hid) x.1.debugMode x.1.csrAddr (f.csrWdataInt P x.1)
      = (CsrDoc.rules P n x.1.debugMode).legal (f.stored P hid) x.1.csrAddr
          (CsrDoc.operation x.1
            ((CsrDoc.rules P n x.1.debugMode).view (f.stored P hid) x.1.csrAddr)) := by
  cases hs : steady x.1.csrAddr with
  | false =>
      exact (legal_of_not_steady _ _ hs _).trans (legal_of_not_steady _ _ hs _).symm
  | true =>
      have hw : f.csrWdataInt P x.1 = CsrDoc.operation x.1 (f.csrRdata P x.1) := by
        have hop : (f.wired P x.1).csrOp = x.1.csrOp := rfl
        rw [csrWdataInt, CsRegs.csrWdataInt, CsrDoc.operation, hop]
        cases x.1.csrOp <;> rfl
      rw [hw, csrRdata_eq_view h.hartId hs]
      rfl

/-- A cycle keeps to the documentation exactly when it is benign. -/
theorem stored_next_iff (hn : n ≤ 16) (h : Software P hid f x) :
    (f.next P x.1 x.2).stored P hid = CsrDoc.step P n (f.stored P hid) x ↔ Benign P f x := by
  constructor
  · intro heq
    have hself (hw : CsRegs.csrWreq x.1 = true) :
        (f.next P x.1 x.2).stored P hid x.1.csrAddr
          = CsrDoc.legal P n (f.stored P hid) x.1.debugMode x.1.csrAddr (f.csrWdataInt P x.1) := by
      rw [heq, legal_csrWdataInt h, CsrDoc.step, if_pos hw, Warl.Rules.modify_self]
    refine ⟨fun hw ha => ?_, fun hw i hi ha hd => ?_⟩
    · have hwe : f.regs.csrWe P.toCsrParams (f.wired P x.1) CsrNum.dcsr = true := by
        have hint : f.regs.csrWeInt P.toCsrParams (f.wired P x.1) = true := h.csrWeInt.trans hw
        rw [CsRegs.csrWe, hint, Bool.true_and, beq_iff_eq]
        exact ha
      have hw' : (f.regs.written P.toCsrParams (f.wired P x.1)).dcsr
          = Dcsr.ofWdata (f.csrWdataInt P x.1) := if_pos hwe
      have hs := hself hw
      rw [ha, legal_dcsr, (table P hid _).dcsr, h.regs_next, hw', (table P hid f).dcsr] at hs
      exact Dcsr.rdata_ofWdata_iff.mp hs
    · obtain ⟨hnext, hdoc⟩ :=
        pmpAddrQ_next_of_drops hid hn x.1 x.2 h.regs_next hd (f.csrWdataInt P x.1)
      have hs := hself hw
      rw [ha, legal_pmpAddr _ _ hi, stored_pmpAddr hi, stored_pmpAddr hi, hnext, hdoc] at hs
      exact hs.symm
  · intro hok
    rw [CsrDoc.step]
    split_ifs with hw
    · refine Warl.Rules.eq_modify ?_ fun b hb => ?_
      · rw [← legal_csrWdataInt h]
        exact stored_next_self hn h hok hw rfl
      · refine stored_next_of_not_we h ?_
        rw [CsRegs.csrWe, Bool.and_eq_false_iff, beq_eq_false_iff_ne]
        exact Or.inr fun heq => hb heq.symm
    · funext b
      refine stored_next_of_not_we h ?_
      have hint : f.regs.csrWeInt P.toCsrParams (f.wired P x.1) = false :=
        h.csrWeInt.trans (by simpa using hw)
      rw [CsRegs.csrWe, hint, Bool.false_and]

/-- After the cycles `ins` every CSR stores the word that the documentation gives it, and a
read at any address but those of `mip` and of the counters shows the documented view of it. -/
structure ReadsBack (P : PerfParams) (hid : BitVec 32) (f : CsrFile n)
    (ins : List (CsRegsIn × PerfEvents)) : Prop where
  stored : (Machine.run (fun f x => f.next P x.1 x.2) f ins).stored P hid
    = Machine.run (CsrDoc.step P n) (f.stored P hid) ins
  read : ∀ x : CsRegsIn, x.hartId = hid → steady x.csrAddr = true →
    (Machine.run (fun f x => f.next P x.1 x.2) f ins).csrRdata P x
      = CsrDoc.view P (Machine.run (CsrDoc.step P n) (f.stored P hid) ins) x.csrAddr

/-- **Read-back.** Along any sequence of legal CSR instructions without a trap in between,
the CSRs read back as documented if and only if every write to `dcsr` leaves `ebreaks` and
`stepie` zero and `cause` as it is, and no write of another value to a `pmpaddr` register
meets an open region below an open region in TOR mode. -/
theorem csr_readback_iff (P : PerfParams) (hn : n ≤ 16) (hid : BitVec 32) (f : CsrFile n)
    (ins : List (CsRegsIn × PerfEvents))
    (hsw : Machine.Along (fun f x => f.next P x.1 x.2) (Software P hid) f ins) :
    (∀ pre, pre <+: ins → ReadsBack P hid f pre) ↔
      Machine.Along (fun f x => f.next P x.1 x.2) (Benign P) f ins := by
  rw [← Warl.stored_run_iff (fun _ _ h => stored_next_iff hn h) hsw]
  constructor
  · intro h pre hpre
    exact (h pre hpre).stored
  · intro h pre hpre
    refine ⟨h pre hpre, fun x hx hs => ?_⟩
    rw [csrRdata_eq_view hx hs, h pre hpre]

/-- A block with four PMP regions. -/
def smallParams : PerfParams :=
  { dbgTriggerEn := true
    dataIndTiming := true
    icache := false
    mhpmCounterNum := 10
    pmpEnable := true
    pmpGranularity := 0
    rv32e := false
    rv32m := true
    mhpmCounterWidth := 40 }

/-- A write of ones to `mstatus` reads back with the implemented bits. -/
theorem csr_readback_mstatus :
    let f := (reset 4).next smallParams (.write CsrNum.mstatus 0xFFFFFFFF#32) .none
    f.csrRdata smallParams (.write CsrNum.mstatus 0#32) = 0x00221888#32 := by
  intro f
  have h := csr_readback_iff smallParams (by decide : 4 ≤ 16) 0#32 (reset 4)
    [(.write CsrNum.mstatus 0xFFFFFFFF#32, .none)]
    ⟨⟨by decide, rfl, rfl, rfl, rfl, rfl⟩, trivial⟩
  have hok : Machine.Along (fun f x => f.next smallParams x.1 x.2) (Benign smallParams)
      (reset 4) [(.write CsrNum.mstatus 0xFFFFFFFF#32, .none)] := by
    refine ⟨⟨fun _ ha => absurd ha (by decide), fun _ i hi ha => ?_⟩, trivial⟩
    interval_cases i <;> exact absurd ha (by decide)
  have hread := (h.mpr hok _ List.prefix_rfl).read (.write CsrNum.mstatus 0#32) rfl rfl
  exact hread.trans (by decide)

/-- A cycle in debug mode that writes `w` to `a`. -/
def debugWrite (a : BitVec 12) (w : BitVec 32) : CsRegsIn × PerfEvents :=
  ({ CsRegsIn.write a w with debugMode := true }, .none)

/-- The fields `ebreaks`, `stepie` and `cause` of `dcsr` read back as they are written. -/
theorem dcsr_fields_written :
    let f := Machine.run (fun f x => f.next smallParams x.1 x.2) (reset 4)
      [debugWrite CsrNum.dcsr 0x400029C3#32]
    f.csrRdata smallParams (debugWrite CsrNum.dcsr 0#32).1 = 0x400029C3#32 ∧
      ¬ ReadsBack smallParams 0#32 (reset 4) [debugWrite CsrNum.dcsr 0x400029C3#32] ∧
      Machine.Along (fun f x => f.next smallParams x.1 x.2) (Software smallParams 0#32) (reset 4)
        [debugWrite CsrNum.dcsr 0x400029C3#32] := by
  intro f
  have hread : f.csrRdata smallParams (debugWrite CsrNum.dcsr 0#32).1 = 0x400029C3#32 := by
    decide
  refine ⟨hread, fun h => ?_, ⟨by decide, rfl, rfl, rfl, rfl, rfl⟩, trivial⟩
  have hdoc := h.read (debugWrite CsrNum.dcsr 0#32).1 rfl rfl
  have hview : CsrDoc.view smallParams (Machine.run (CsrDoc.step smallParams 4)
      ((reset 4).stored smallParams 0#32) [debugWrite CsrNum.dcsr 0x400029C3#32]) CsrNum.dcsr
      = 0x40000003#32 := by
    decide
  have hcontra := hread.symm.trans (hdoc.trans hview)
  revert hcontra
  decide

end CsrFile

end CocoIbex
