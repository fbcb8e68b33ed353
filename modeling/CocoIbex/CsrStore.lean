import CocoIbex.CsrWarl

/-!
# Writes of a CSR Instruction

In `ibex_cs_registers` every register compares the address of a CSR instruction with its own.
`CsrFile.store` has the same writes the other way round: for each address, the registers that it
stands for and what they take. A legal write is a `store` unless it is dropped by an open region
in TOR mode (`CsrFile.next_eq_store_iff`).

`store` is what a reader of the documentation expects, one case for each address; the address
map of the counters and of the PMP registers is in it, with the locks. The circuit has one write
enable for each register instead. To compare them is to say for each register at which addresses
it is enabled, which is done once for each kind of register.

`IllegalAccess` is the verdict on an access in the same terms: the address is not implemented,
its privilege level is above the current one, it is for debug mode only, or it is read-only and
written.

## Main results

* `pmpAddrWe_iff` — a write to a region is taken unless it is locked, or dropped;
* `next_eq_store_iff` — the exact condition under which a legal write is a `store`;
* `next_eq_count` — a cycle without a write counts and nothing else.
-/

namespace CocoIbex

namespace CsRegs

variable {n : ℕ} (P : CsrParams) (s : CsRegs n)

/-! ### Legal accesses -/

/-- The core has the CSR. -/
def implemented (a : BitVec 12) : Bool :=
  isMachine a || isPmp a || CsrNum.isMhpmevent a || CsrNum.isCounter a || isDebug a
    || (P.dbgTriggerEn && isTrigger a)

/-- The access to the CSR `a` is illegal: the core does not have it, it asks for a higher
privilege level, it is read-only and to be written, or it is one of debug mode. -/
def IllegalAccess (debugMode writes : Bool) (a : BitVec 12) : Prop :=
  implemented P a = false ∨ s.privLvl.bits < a.extractLsb' 8 2 ∨
    (a.extractLsb' 10 2 = 0b11#2 ∧ writes = true) ∨ (isDebug a = true ∧ debugMode = false)

/-- It is a test of the address and the privilege level. -/
instance (debugMode writes : Bool) (a : BitVec 12) :
    Decidable (s.IllegalAccess P debugMode writes a) :=
  inferInstanceAs (Decidable (_ ∨ _))

/-- The trigger registers have addresses of their own. -/
theorem of_isTrigger {a : BitVec 12} (h : isTrigger a = true) :
    isMachine a = false ∧ isPmp a = false ∧ CsrNum.isMhpmevent a = false ∧
      CsrNum.isCounter a = false := by
  simp only [isTrigger, Bool.or_eq_true, beq_iff_eq] at h
  obtain ((((rfl | rfl) | rfl) | rfl) | rfl) | rfl := h <;> decide

/-- No such register, or not in this mode. -/
theorem illegalCsr_iff {x : CsRegsIn} :
    illegalCsr P x = true ↔
      implemented P x.csrAddr = false ∨ (isDebug x.csrAddr = true ∧ x.debugMode = false) := by
  rw [illegalCsr, implemented]
  cases hd : isDebug x.csrAddr with
  | true => simp
  | false =>
      cases ht : isTrigger x.csrAddr with
      | true => simp [of_isTrigger ht]
      | false => simp

/-- The verdict on the access of a CSR instruction. -/
theorem illegalCsrInsn_iff {x : CsRegsIn} (ha : x.csrAccess = true) :
    s.illegalCsrInsn P x = true ↔ s.IllegalAccess P x.debugMode (csrWreq x) x.csrAddr := by
  have hpriv : s.illegalCsrPriv x = true ↔ s.privLvl.bits < x.csrAddr.extractLsb' 8 2 := by
    simp [illegalCsrPriv]
  have hwrite : illegalCsrWrite x = true ↔
      x.csrAddr.extractLsb' 10 2 = 0b11#2 ∧ csrWreq x = true := by
    simp [illegalCsrWrite]
  rw [illegalCsrInsn, ha, Bool.true_and, Bool.or_eq_true, Bool.or_eq_true, illegalCsr_iff, hpriv,
    hwrite, IllegalAccess]
  tauto

/-! ### The registers of an address -/

/-- The address of the region may not be written: the region is locked, or it is the lower
end of a locked region in TOR mode. -/
def pmpAddrLocked (i : Fin n) : Bool :=
  (s.pmpCfg i).lock ||
    if h : i.val + 1 < n then
      (s.pmpCfg ⟨i + 1, h⟩).lock && (s.pmpCfg ⟨i + 1, h⟩).mode == .tor
    else false

/-- A write of `w` to the CSR `a`. -/
def store (debugMode : Bool) (a : BitVec 12) (w : BitVec 32) : CsRegs n :=
  if CsrDoc.isPmpCfg a then
    { s with
      pmpCfg := fun i =>
        if P.pmpEnable ∧ i.val / 4 = (a - CsrNum.offPmpCfg).toNat ∧ (s.pmpCfg i).lock = false then
          PmpCfg.ofWdata P.pmpGranularity w (i % 4 * 8)
        else s.pmpCfg i }
  else if CsrDoc.isPmpAddr a then
    { s with
      pmpAddr := fun i =>
        if P.pmpEnable ∧ i.val = (a - CsrNum.offPmpAddr).toNat ∧ s.pmpAddrLocked i = false then w
        else s.pmpAddr i }
  else if a = CsrNum.mstatus then { s with mstatus := Status.ofWdata w }
  else if a = CsrNum.mie then { s with mie := Irqs.ofWdata w }
  else if a = CsrNum.mscratch then { s with mscratch := w }
  else if a = CsrNum.mepc then { s with mepc := w.extractLsb' 1 31 ++ 0#1 }
  else if a = CsrNum.mcause then { s with mcause := w.extractLsb' 31 1 ++ w.extractLsb' 0 5 }
  else if a = CsrNum.mtval then { s with mtval := w }
  else if a = CsrNum.mtvec then { s with mtvec := w.extractLsb' 8 24 ++ 0#6 ++ 0b01#2 }
  else if a = CsrNum.dcsr then { s with dcsr := Dcsr.ofWdata w }
  else if a = CsrNum.dpc then { s with depc := w.extractLsb' 1 31 ++ 0#1 }
  else if a = CsrNum.dscratch0 then { s with dscratch0 := w }
  else if a = CsrNum.dscratch1 then { s with dscratch1 := w }
  else if a = CsrNum.tdata1 then
    { s with tmatchControl := if P.dbgTriggerEn ∧ debugMode then w.getLsbD 2 else s.tmatchControl }
  else if a = CsrNum.tdata2 then
    { s with tmatchValue := if P.dbgTriggerEn ∧ debugMode then w else s.tmatchValue }
  else if a = CsrNum.cpuctrl then
    { s with
      dataIndTimingQ := if P.dataIndTiming then w.getLsbD 1 else s.dataIndTimingQ
      icacheEnableQ := if P.icache then w.getLsbD 0 else s.icacheEnableQ }
  else s

variable {P s} {x : CsRegsIn}

/-- A legal write goes to the registers of its address. -/
theorem csrWe_of_csrWeInt_true (hw : s.csrWeInt P x = true) (a : BitVec 12) :
    s.csrWe P x a = (x.csrAddr == a) := by
  rw [csrWe, hw, Bool.true_and]

/-- The configuration of a region is written at a `pmpcfg` address only. -/
theorem pmpCfgWe_of_not_isPmpCfg (hn : n ≤ 16) (h : CsrDoc.isPmpCfg x.csrAddr = false)
    (i : Fin n) : s.pmpCfgWe P x i = false := by
  have hne : x.csrAddr ≠ CsrNum.offPmpCfg + BitVec.ofNat 12 i >>> 2 := by
    intro heq
    rw [heq, CsrFile.isPmpCfg_of_region (by omega)] at h
    cases h
  simp [pmpCfgWe, csrWe, hne]

/-- The address of a region is written at a `pmpaddr` address only. -/
theorem pmpAddrWe_of_not_isPmpAddr (hn : n ≤ 16) (h : CsrDoc.isPmpAddr x.csrAddr = false)
    (i : Fin n) : s.pmpAddrWe P x i = false := by
  have hne : x.csrAddr ≠ CsrNum.offPmpAddr + BitVec.ofNat 12 i := by
    intro heq
    rw [heq, CsrFile.isPmpAddr_of_region (by omega)] at h
    cases h
  simp [pmpAddrWe, csrWe, hne]

/-- A write to an address that is not of the PMP. -/
theorem written_eq_store_of_not_pmp (hn : n ≤ 16) (hw : s.csrWeInt P x = true)
    (hb : x.csrMtvecInit = false) (hcfg : CsrDoc.isPmpCfg x.csrAddr = false)
    (haddr : CsrDoc.isPmpAddr x.csrAddr = false) :
    s.written P x = s.store P x.debugMode x.csrAddr (s.csrWdataInt P x) := by
  generalize hwdata : s.csrWdataInt P x = w
  simp only [written, store, tmatchWe, csrWe_of_csrWeInt_true hw, pmpCfgWe_of_not_isPmpCfg hn hcfg,
    pmpAddrWe_of_not_isPmpAddr hn haddr, hwdata, hb, hcfg, haddr]
  generalize x.csrAddr = a
  by_cases ha : a ∈ [CsrNum.mstatus, CsrNum.mie, CsrNum.mscratch, CsrNum.mepc, CsrNum.mcause,
      CsrNum.mtval, CsrNum.mtvec, CsrNum.dcsr, CsrNum.dpc, CsrNum.dscratch0, CsrNum.dscratch1,
      CsrNum.tdata1, CsrNum.tdata2, CsrNum.cpuctrl]
  · simp only [List.mem_cons, List.not_mem_nil, or_false] at ha
    obtain rfl | rfl | rfl | rfl | rfl | rfl | rfl | rfl | rfl | rfl | rfl | rfl | rfl | rfl := ha
    all_goals simp +decide
  · -- no register has this address
    simp only [List.mem_cons, List.not_mem_nil, or_false, not_or] at ha
    simp [ha]

/-- A write to four of the PMP configurations. -/
theorem written_eq_store_of_pmpCfg (hn : n ≤ 16) (hw : s.csrWeInt P x = true)
    (hb : x.csrMtvecInit = false) (hcfg : CsrDoc.isPmpCfg x.csrAddr = true) :
    s.written P x = s.store P x.debugMode x.csrAddr (s.csrWdataInt P x) := by
  obtain ⟨k, hk, ha, hsub⟩ := CsrFile.exists_of_isPmpCfg hcfg
  have hcfgWe (i : Fin n) : s.pmpCfgWe P x i = true ↔
      P.pmpEnable = true ∧ i.val / 4 = k ∧ (s.pmpCfg i).lock = false := by
    have hi : i.val < 16 := by omega
    have hreg : CsrNum.offPmpCfg + BitVec.ofNat 12 i >>> 2
        = CsrNum.offPmpCfg + BitVec.ofNat 12 (i / 4) := by
      generalize i.val = i at hi
      interval_cases i <;> rfl
    have heq : x.csrAddr = CsrNum.offPmpCfg + BitVec.ofNat 12 i >>> 2 ↔ i.val / 4 = k := by
      rw [ha, hreg, BitVec.add_right_inj, ← BitVec.toNat_inj, BitVec.toNat_ofNat,
        BitVec.toNat_ofNat]
      omega
    simp [pmpCfgWe, csrWe_of_csrWeInt_true hw, heq, and_assoc]
  have haddr : CsrDoc.isPmpAddr x.csrAddr = false := by
    rw [ha]
    interval_cases k <;> rfl
  generalize hwdata : s.csrWdataInt P x = w
  simp only [written, store, tmatchWe, csrWe_of_csrWeInt_true hw, hcfgWe,
    pmpAddrWe_of_not_isPmpAddr hn haddr, hwdata, hb, hcfg, hsub]
  rw [ha]
  interval_cases k <;> simp +decide

/-- A write to an address of the PMP changes that alone. -/
theorem written_of_pmpAddr (hn : n ≤ 16) (hw : s.csrWeInt P x = true)
    (hb : x.csrMtvecInit = false) (haddr : CsrDoc.isPmpAddr x.csrAddr = true) :
    s.written P x = { s with
      pmpAddr := fun i => if s.pmpAddrWe P x i then s.csrWdataInt P x else s.pmpAddr i } := by
  obtain ⟨k, hk, ha, -⟩ := CsrFile.exists_of_isPmpAddr haddr
  have hcfg : CsrDoc.isPmpCfg x.csrAddr = false := by
    rw [ha]
    interval_cases k <;> rfl
  simp only [written, tmatchWe, csrWe_of_csrWeInt_true hw, pmpCfgWe_of_not_isPmpCfg hn hcfg, hb]
  rw [ha]
  interval_cases k <;> simp +decide

end CsRegs

/-! ### The counters of an address -/

namespace PerfCounters

/-- A write of `w` to the CSR `a`: the counters that it does not load count. -/
def store (P : PerfParams) (c : PerfCounters) (e : PerfEvents) (a : BitVec 12) (w : BitVec 32) :
    PerfCounters :=
  if a = CsrNum.mcountinhibit then
    { c.count P e with mcountinhibitQ := w &&& inhibitMask P &&& ~~~2#32 }
  else if CsrNum.isCounterLow a || CsrNum.isCounterHigh a then
    { c.count P e with
      mhpmcounter := fun i =>
        if CsrNum.mhpmcounterIdx a = i ∧ counterExists P i then
          counterFlops (counterWidth P i)
            (counterLoad (CsrNum.isCounterHigh a) w (c.mhpmcounter i))
        else (c.count P e).mhpmcounter i }
  else c.count P e

variable {P : PerfParams} {c : PerfCounters} {e : PerfEvents}

/-- `mcountinhibit` is no counter. -/
theorem mcountinhibit_not_counter :
    (CsrNum.isCounterLow CsrNum.mcountinhibit || CsrNum.isCounterHigh CsrNum.mcountinhibit)
      = false := by
  decide

/-- A write to a counter loads it, and the others count. -/
theorem mhpmcounter_next {a : BitVec 12} (w : BitVec 32)
    (hc : (CsrNum.isCounterLow a || CsrNum.isCounterHigh a) = true) (i : BitVec 5) :
    (c.next P e true a w).mhpmcounter i
      = if CsrNum.mhpmcounterIdx a = i ∧ counterExists P i then
          counterFlops (counterWidth P i)
            (counterLoad (CsrNum.isCounterHigh a) w (c.mhpmcounter i))
        else (c.count P e).mhpmcounter i := by
  by_cases hself : CsrNum.mhpmcounterIdx a = i
  · obtain rfl := hself
    by_cases hex : counterExists P (CsrNum.mhpmcounterIdx a) = true
    · rw [if_pos ⟨rfl, hex⟩, mhpmcounter_of_eq w hc hex]
    · rw [if_neg fun h => hex h.2]
      exact (if_neg hex).trans (if_neg hex).symm
  · rw [if_neg fun h => hself h.1, mhpmcounter_of_ne w (Or.inr hself)]

/-- A write is a `store`. -/
theorem next_eq_store (a : BitVec 12) (w : BitVec 32) : c.next P e true a w = c.store P e a w := by
  have hmk : c.next P e true a w
      = ⟨(c.next P e true a w).mcountinhibitQ, (c.next P e true a w).mhpmcounter⟩ := rfl
  have hcount (h : (CsrNum.isCounterLow a || CsrNum.isCounterHigh a) = false) :
      (c.next P e true a w).mhpmcounter = (c.count P e).mhpmcounter :=
    funext fun _ => mhpmcounter_of_ne w (Or.inl h)
  have hkeep (h : a ≠ CsrNum.mcountinhibit) :
      (c.next P e true a w).mcountinhibitQ = c.mcountinhibitQ :=
    if_neg (by simp [h])
  rw [store]
  split_ifs with hi hc
  · obtain rfl := hi
    rw [hmk, hcount mcountinhibit_not_counter]
    rfl
  · rw [hmk, hkeep hi, funext (mhpmcounter_next w hc)]
    rfl
  · rw [hmk, hkeep hi, hcount (by simpa using hc)]
    rfl

end PerfCounters

namespace CsrFile

variable {n : ℕ} {P : PerfParams} {f : CsrFile n} {x : CsRegsIn}

/-- A write to the address of a region is taken unless it is locked, or dropped. -/
theorem pmpAddrWe_iff {i : Fin n}
    (hwe : f.regs.csrWe P.toCsrParams x (CsrNum.offPmpAddr + BitVec.ofNat 12 i) = true) :
    f.regs.pmpAddrWe P.toCsrParams x i = true ↔
      P.pmpEnable = true ∧ f.regs.pmpAddrLocked i = false ∧ ¬ DropsAddr P f i := by
  rw [CsRegs.pmpAddrWe, hwe, CsRegs.pmpAddrLocked]
  by_cases hj : i.val + 1 < n
  · have hdrops : DropsAddr P f i ↔ P.pmpEnable = true ∧ (f.regs.pmpCfg i).lock = false ∧
        (f.regs.pmpCfg ⟨i + 1, hj⟩).lock = false ∧ (f.regs.pmpCfg ⟨i + 1, hj⟩).mode = .tor := by
      constructor
      · intro h
        exact h.choose_spec
      · intro h
        exact ⟨hj, h⟩
    simp only [hdrops, hj, show i.val < n - 1 by omega, dif_pos]
    cases P.pmpEnable <;> cases (f.regs.pmpCfg i).lock <;>
      cases (f.regs.pmpCfg ⟨i + 1, hj⟩).lock <;> simp
  · have hdrops : ¬ DropsAddr P f i := fun h => hj h.choose
    simp [hdrops, hj, show ¬ i.val < n - 1 by omega]

/-- A region whose address is dropped is there, and not locked. -/
theorem DropsAddr.not_locked {i : Fin n} (h : DropsAddr P f i) :
    P.pmpEnable = true ∧ f.regs.pmpAddrLocked i = false := by
  obtain ⟨hj, hen, hlock, hlock', -⟩ := h
  exact ⟨hen, by simp [CsRegs.pmpAddrLocked, hlock, hlock']⟩

/-- A write to a `pmpaddr` register is a `store` unless another value is dropped. -/
theorem written_eq_store_iff_of_pmpAddr (hn : n ≤ 16)
    (hw : f.regs.csrWeInt P.toCsrParams x = true) (hb : x.csrMtvecInit = false)
    (haddr : CsrDoc.isPmpAddr x.csrAddr = true) :
    f.regs.written P.toCsrParams x
        = f.regs.store P.toCsrParams x.debugMode x.csrAddr (f.regs.csrWdataInt P.toCsrParams x) ↔
      ∀ i : Fin n, x.csrAddr = CsrNum.offPmpAddr + BitVec.ofNat 12 i → DropsAddr P f i →
        f.regs.csrWdataInt P.toCsrParams x = f.regs.pmpAddr i := by
  obtain ⟨k, hk, ha, hsub⟩ := exists_of_isPmpAddr haddr
  have hcfg : CsrDoc.isPmpCfg x.csrAddr = false := by
    rw [ha]
    interval_cases k <;> rfl
  have hself (i : Fin n) : x.csrAddr = CsrNum.offPmpAddr + BitVec.ofNat 12 i ↔ i.val = k := by
    rw [ha, BitVec.add_right_inj, ← BitVec.toNat_inj, BitVec.toNat_ofNat, BitVec.toNat_ofNat]
    omega
  generalize hwdata : f.regs.csrWdataInt P.toCsrParams x = w
  rw [CsRegs.written_of_pmpAddr hn hw hb haddr, CsRegs.store, hcfg, if_neg Bool.false_ne_true,
    if_pos haddr, hwdata, hsub, CsRegs.mk.injEq]
  simp only [true_and, and_true, funext_iff, hself]
  refine forall_congr' fun i => ?_
  by_cases hi : i.val = k
  · obtain rfl := hi
    have hwe : f.regs.csrWe P.toCsrParams x (CsrNum.offPmpAddr + BitVec.ofNat 12 i) = true := by
      rw [CsRegs.csrWe_of_csrWeInt_true hw, beq_iff_eq, hself]
    have hpa := pmpAddrWe_iff hwe
    by_cases hd : DropsAddr P f i
    · obtain ⟨hen, hopen⟩ := hd.not_locked
      have hno : f.regs.pmpAddrWe P.toCsrParams x i = false := by simp [← Bool.not_eq_true, hpa, hd]
      simp only [hno, hd, hen, hopen, Bool.false_eq_true, and_self, if_true, if_false, forall_const]
      exact eq_comm
    · have hyes : f.regs.pmpAddrWe P.toCsrParams x i = true ↔
          P.pmpEnable = true ∧ f.regs.pmpAddrLocked i = false := by
        simpa [hd] using hpa
      simp [hyes, hd]
  · have hwe : f.regs.pmpAddrWe P.toCsrParams x i = false := by
      simp [CsRegs.pmpAddrWe, CsRegs.csrWe_of_csrWeInt_true hw, hself, hi]
    simp [hwe, hi]

/-- A legal write is a `store`, unless a `pmpaddr` register drops another value. -/
theorem written_eq_store_iff (hn : n ≤ 16) (hw : f.regs.csrWeInt P.toCsrParams x = true)
    (hb : x.csrMtvecInit = false) :
    f.regs.written P.toCsrParams x
        = f.regs.store P.toCsrParams x.debugMode x.csrAddr (f.regs.csrWdataInt P.toCsrParams x) ↔
      ∀ i : Fin n, x.csrAddr = CsrNum.offPmpAddr + BitVec.ofNat 12 i → DropsAddr P f i →
        f.regs.csrWdataInt P.toCsrParams x = f.regs.pmpAddr i := by
  cases haddr : CsrDoc.isPmpAddr x.csrAddr with
  | true => exact written_eq_store_iff_of_pmpAddr hn hw hb haddr
  | false =>
      have hstore : f.regs.written P.toCsrParams x = f.regs.store P.toCsrParams x.debugMode
          x.csrAddr (f.regs.csrWdataInt P.toCsrParams x) := by
        cases hcfg : CsrDoc.isPmpCfg x.csrAddr with
        | true => exact CsRegs.written_eq_store_of_pmpCfg hn hw hb hcfg
        | false => exact CsRegs.written_eq_store_of_not_pmp hn hw hb hcfg haddr
      refine ⟨fun _ i hi => ?_, fun _ => hstore⟩
      rw [hi, isPmpAddr_of_region (by omega)] at haddr
      cases haddr

/-! ### The whole register block -/

variable (P f) in
/-- A cycle without a write: the counters count. -/
def count (e : PerfEvents) : CsrFile n := ⟨f.regs, f.perf.count P e⟩

variable (P f) in
/-- A write of `w` to the CSR `a`. -/
def store (e : PerfEvents) (debugMode : Bool) (a : BitVec 12) (w : BitVec 32) : CsrFile n :=
  ⟨f.regs.store P.toCsrParams debugMode a w, f.perf.store P e a w⟩

/-- Neither a trap nor a return, nor the boot. -/
structure Quiet (x : CsRegsIn) : Prop where
  mtvecInit : x.csrMtvecInit = false
  saveCause : x.csrSaveCause = false
  restoreDret : x.csrRestoreDret = false
  restoreMret : x.csrRestoreMret = false

/-- A cycle without a write of the CSR instruction. -/
theorem next_eq_count (e : PerfEvents) (hq : Quiet x) (hw : f.csrWeInt P x = false) :
    f.next P x e = f.count P e := by
  refine congrArg₂ CsrFile.mk ?_ ?_
  · exact CsRegs.next_eq_self (x := f.wired P x) hw hq.mtvecInit hq.saveCause hq.restoreDret
      hq.restoreMret
  · rw [hw]
    exact PerfCounters.next_of_not_we _ _

/-- A legal write is a `store`, unless a `pmpaddr` register drops another value. -/
theorem next_eq_store_iff (hn : n ≤ 16) (e : PerfEvents) (hq : Quiet x)
    (hw : f.csrWeInt P x = true) :
    f.next P x e = f.store P e x.debugMode x.csrAddr (f.csrWdataInt P x) ↔
      ∀ i : Fin n, x.csrAddr = CsrNum.offPmpAddr + BitVec.ofNat 12 i → DropsAddr P f i →
        f.csrWdataInt P x = f.regs.pmpAddr i := by
  have hregs : (f.next P x e).regs = f.regs.written P.toCsrParams (f.wired P x) :=
    CsRegs.next_eq_written hq.saveCause hq.restoreDret hq.restoreMret
  have hperf : (f.next P x e).perf = f.perf.store P e x.csrAddr (f.csrWdataInt P x) := by
    change f.perf.next P e (f.csrWeInt P x) x.csrAddr (f.csrWdataInt P x) = _
    rw [hw, PerfCounters.next_eq_store]
  have hfile : f.next P x e = ⟨f.regs.written P.toCsrParams (f.wired P x),
      f.perf.store P e x.csrAddr (f.csrWdataInt P x)⟩ := congrArg₂ CsrFile.mk hregs hperf
  rw [hfile, store, CsrFile.mk.injEq, and_iff_left rfl]
  exact written_eq_store_iff (x := f.wired P x) hn hw hq.mtvecInit

end CsrFile

end CocoIbex
