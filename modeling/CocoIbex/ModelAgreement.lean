import CocoIbex.ModelSlots

/-!
# The Register Block and its C++ Model

The register block decides for each field with a write enable of its own whether it takes the
written data; the model updates whole words under lock masks. `Follows` relates the two, and
every transaction keeps it (`Follows.step`), so that each read returns the same value
(`model_reads_agree`).

The model has a list of registers and looks the locks up in it, by address, while the register
block has vectors over the regions. `Follows` says of every register of the list that it holds
what is read at its address (`Slot.Held`), and of the addresses that the list has those of the
parameters. What the model does not have is left out of the comparison: it has no traps and
returns (`Calm`), and its counters do not count, so that the events are at rest.

The model is the one for a granularity of a word, and its PMP registers come four to a
configuration word; the number of regions is any multiple of four up to sixteen.

## Main results

* `Follows.step` — one transaction keeps the relation;
* `model_reads_agree` — in every run from reset every transaction with a register of the model
  returns the same value on both sides.
-/

namespace CocoIbex

/-! ### The register block between traps -/

namespace CsrFile

variable {n : ℕ} {P : PerfParams} {f : CsrFile n} {x : CsRegsIn}

/-- Neither a trap nor a return from one. -/
structure Calm (x : CsRegsIn) : Prop where
  saveCause : x.csrSaveCause = false
  restoreDret : x.csrRestoreDret = false
  restoreMret : x.csrRestoreMret = false

/-- What holds of the registers in M-mode, whatever is written. -/
structure Sound (P : PerfParams) (f : CsrFile n) : Prop where
  privLvl : f.regs.privLvl = .m
  pmpCfg : ∀ i, (f.regs.pmpCfg i).write = true → (f.regs.pmpCfg i).read = true
  inhibit : f.perf.mcountinhibitQ &&& RegisterModel.mcountinhibitMask P = 0#32
  flops : ∀ i, counterFlops (PerfCounters.counterWidth P i) (f.perf.mhpmcounter i)
    = f.perf.mhpmcounter i
  absent : ∀ i, PerfCounters.counterExists P i = false → f.perf.mhpmcounter i = 0#64

/-- The counters are as wide as they should be after reset. -/
theorem sound_reset : Sound P (reset n) where
  privLvl := rfl
  pmpCfg := fun _ h => absurd h Bool.false_ne_true
  inhibit := BitVec.zero_and
  flops := fun _ => by simp [counterFlops, reset, PerfCounters.reset]
  absent := fun _ _ => rfl

/-- To cut a counter twice is to cut it once. -/
theorem counterFlops_counterFlops (width : ℕ) (c : BitVec 64) :
    counterFlops width (counterFlops width c) = counterFlops width c := by
  refine BitVec.eq_of_getLsbD_eq fun i hi => ?_
  simp only [counterFlops, BitVec.getLsbD_setWidth, hi, decide_true, Bool.true_and]
  cases decide (i < width) <;> rfl

/-- The counters stay as wide as they should be. -/
theorem Sound.next (h : Sound P f) (hx : Calm x) (e : PerfEvents) : Sound P (f.next P x e) := by
  have hregs : (f.next P x e).regs = f.regs.written P.toCsrParams (f.wired P x) :=
    CsRegs.next_eq_written (x := f.wired P x) hx.saveCause hx.restoreDret hx.restoreMret
  refine ⟨?_, fun i => ?_, ?_, fun i => ?_, fun i hi => ?_⟩
  · rw [hregs]
    exact h.privLvl
  · rw [hregs]
    change (if f.regs.pmpCfgWe P.toCsrParams (f.wired P x) i then PmpCfg.ofWdata _ _ _
      else f.regs.pmpCfg i).write = true → (if _ then _ else _ : PmpCfg).read = true
    split_ifs
    · intro hw
      exact (Bool.and_eq_true_iff.mp hw).2
    · exact h.pmpCfg i
  · change (if _ then _ else f.perf.mcountinhibitQ) &&& _ = 0#32
    split_ifs
    · rw [RegisterModel.mcountinhibitMask, RegisterModel.mcountinhibitResval_eq]
      refine BitVec.eq_of_getLsbD_eq fun i hi => ?_
      simp only [BitVec.getLsbD_and, BitVec.getLsbD_or, BitVec.getLsbD_not, hi, decide_true,
        Bool.true_and, BitVec.getLsbD_zero]
      cases (PerfCounters.inhibitMask P).getLsbD i <;> cases (2#32).getLsbD i <;> simp
    · exact h.inhibit
  · change counterFlops _ (if _ then counterD _ _ _ _ _ _ else 0#64)
      = if _ then counterD _ _ _ _ _ _ else 0#64
    split_ifs
    · exact counterFlops_counterFlops ..
    · simp [counterFlops]
  · exact if_neg (by simp [hi])

end CsrFile

/-! ### One cycle -/

namespace Slot

variable {n : ℕ} {P : PerfParams} {f : CsrFile n} {s : Slot} {x : CsRegsIn}

/-- The register that counts in every cycle. -/
def isMcycle : Slot → Prop
  | counter _ i => i = 0#5
  | _ => False

/-- A counter other than `mcycle` stays without events. -/
theorem count_none {i : BitVec 5} (hf : f.Sound P) (hi : i ≠ 0#5) :
    (f.perf.count P .none).mhpmcounter i = f.perf.mhpmcounter i := by
  have hincr : PerfEvents.none.incr i = false := by
    revert hi
    revert i
    decide
  by_cases hex : PerfCounters.counterExists P i = true
  · simp only [PerfCounters.count, PerfCounters.next, hex, if_true, counterD,
      PerfCounters.counterInc, hincr]
    simpa using hf.flops i
  · rw [Bool.not_eq_true] at hex
    simp [PerfCounters.count, PerfCounters.next, hex, hf.absent i hex]

/-- The counter that the address of a slot stands for. -/
theorem counter_address {high : Bool} {i : BitVec 5} (hi : i ≠ 1#5) :
    CsrNum.mhpmcounterIdx (counter high i).address = i ∧
      CsrNum.isCounterHigh (counter high i).address = high ∧
      (CsrNum.isCounterLow (counter high i).address
        || CsrNum.isCounterHigh (counter high i).address) = true := by
  revert high i
  decide

/-- An address of a counter is that of one of its two slots. -/
theorem address_of_isCounter {a : BitVec 12}
    (h : (CsrNum.isCounterLow a || CsrNum.isCounterHigh a) = true) :
    a = (counter (CsrNum.isCounterHigh a) (CsrNum.mhpmcounterIdx a)).address := by
  have hidx : (CsrNum.mhpmcounterIdx a).toNat = a.toNat % 32 := by
    rw [CsrNum.mhpmcounterIdx, BitVec.extractLsb'_toNat, Nat.shiftRight_zero]
  have hlow : (CsrFile.counterLowAddr (CsrNum.mhpmcounterIdx a)).toNat = 0xB00 + a.toNat % 32 := by
    rw [CsrFile.counterLowAddr, Bits.toNat_append_eq, hidx]
    rfl
  have hhigh : (CsrFile.counterHighAddr (CsrNum.mhpmcounterIdx a)).toNat
      = 0xB80 + a.toNat % 32 := by
    rw [CsrFile.counterHighAddr, Bits.toNat_append_eq, hidx]
    rfl
  cases hc : CsrNum.isCounterHigh a with
  | true =>
      have hrange : 0xB80 ≤ a.toNat ∧ a.toNat ≤ 0xB9F := by
        simp only [CsrNum.isCounterHigh, CsrNum.mcycleh, Bool.or_eq_true, beq_iff_eq,
          Bool.and_eq_true, decide_eq_true_eq, BitVec.le_def, BitVec.toNat_ofNat] at hc
        rcases hc with rfl | ⟨h1, h2⟩
        · exact ⟨by decide, by decide⟩
        · omega
      exact BitVec.eq_of_toNat_eq (by rw [address, if_pos rfl, hhigh]; omega)
  | false =>
      rw [hc, Bool.or_false] at h
      have hrange : 0xB00 ≤ a.toNat ∧ a.toNat ≤ 0xB1F := by
        simp only [CsrNum.isCounterLow, CsrNum.mcycle, Bool.or_eq_true, beq_iff_eq,
          Bool.and_eq_true, decide_eq_true_eq, BitVec.le_def, BitVec.toNat_ofNat] at h
        rcases h with rfl | ⟨h1, h2⟩
        · exact ⟨by decide, by decide⟩
        · omega
      exact BitVec.eq_of_toNat_eq (by rw [address, if_neg Bool.false_ne_true, hlow]; omega)

/-- The bits of a counter that have no flop. -/
def unused (P : PerfParams) (i : BitVec 5) : BitVec 64 :=
  if i.toNat < 3 then 0#64 else RegisterModel.mhpmcounterMask P

/-- The flops of a counter are the bits that the model does not mask. -/
theorem counterFlops_width (i : BitVec 5) (c : BitVec 64) :
    counterFlops (PerfCounters.counterWidth P i) c = c &&& ~~~unused P i := by
  rw [PerfCounters.counterWidth, unused]
  split_ifs
  · rw [RegisterModel.counterFlops_64, BitVec.not_zero, BitVec.and_allOnes]
  · exact RegisterModel.counterFlops_eq c

/-- A write to a counter, seen from one of its words. -/
theorem half_mhpmcounter_next {high : Bool} {i : BitVec 5} (hf : f.Sound P) (hi : i ≠ 1#5)
    (h0 : i ≠ 0#5) (w : BitVec 32) :
    half high ((f.perf.next P .none (f.csrWeInt P x) x.csrAddr w).mhpmcounter i)
      = if f.csrWeInt P x = true ∧ x.csrAddr = (counter high i).address then
          if PerfCounters.counterExists P i then w &&& ~~~half high (unused P i) else 0#32
        else half high (f.perf.mhpmcounter i) := by
  have hzero : half high 0#64 = 0#32 := by
    cases high <;> rfl
  cases hwe : f.csrWeInt P x with
  | false =>
      rw [PerfCounters.next_of_not_we, count_none hf h0, if_neg fun h => Bool.false_ne_true h.1]
  | true =>
      obtain ⟨hidx, hhigh, hany⟩ := @counter_address high _ hi
      by_cases hex : PerfCounters.counterExists P i = true
      · by_cases hc : (CsrNum.isCounterLow x.csrAddr || CsrNum.isCounterHigh x.csrAddr) = true ∧
            CsrNum.mhpmcounterIdx x.csrAddr = i
        · obtain ⟨hc, rfl⟩ := hc
          have ha := address_of_isCounter hc
          rw [PerfCounters.mhpmcounter_of_eq w hc hex, counterFlops_width, half_and, half_not]
          by_cases hb : CsrNum.isCounterHigh x.csrAddr = high
          · rw [hb] at ha ⊢
            rw [(half_counterLoad high w _).1, if_pos ⟨rfl, ha⟩, if_pos hex]
          · have hne : x.csrAddr ≠ (counter high (CsrNum.mhpmcounterIdx x.csrAddr)).address := by
              intro heq
              rw [← heq] at hhigh
              exact hb hhigh
            have hkeep : half high (counterLoad (CsrNum.isCounterHigh x.csrAddr) w
                (f.perf.mhpmcounter (CsrNum.mhpmcounterIdx x.csrAddr)))
                = half high (f.perf.mhpmcounter (CsrNum.mhpmcounterIdx x.csrAddr)) := by
              rw [Bool.eq_not.mpr (Ne.symm hb)]
              exact (half_counterLoad _ w _).2
            rw [hkeep, if_neg fun h => hne h.2, ← half_not, ← half_and, ← counterFlops_width,
              hf.flops]
        · have hne : x.csrAddr ≠ (counter high i).address := by
            intro heq
            rw [heq] at hc
            exact hc ⟨hany, hidx⟩
          rw [not_and_or, Bool.not_eq_true] at hc
          rw [PerfCounters.mhpmcounter_of_ne w hc, count_none hf h0, if_neg fun h => hne h.2]
      · have hnext : (f.perf.next P .none true x.csrAddr w).mhpmcounter i = 0#64 := if_neg hex
        rw [hnext, hzero, if_neg hex, hf.absent i (by simpa using hex), hzero]
        split_ifs <;> rfl

/-! #### The PMP registers -/

/-- A byte of a configuration word. -/
theorem pmpCfgWord_byte (c : CsRegs n) (k : ℕ) {j : ℕ} (hj : j < 4) :
    (c.pmpCfgWord P.toCsrParams k).extractLsb' (j * 8) 8
      = c.pmpCfgRdata P.toCsrParams (4 * k + j) := by
  rw [CsRegs.pmpCfgWord, extractLsb'_bytes _ _ _ _ hj]
  interval_cases j <;> rfl

/-- The bytes of a configuration word that is written. -/
theorem pmpCfgRdata_next (hx : CsrFile.Calm x) {k j : ℕ} (hk : k < 4) (hj : j < 4)
    (hwe : f.csrWeInt P x = true) (ha : x.csrAddr = CsrNum.offPmpCfg + BitVec.ofNat 12 k)
    (hr : P.pmpEnable = true ∧ 4 * k + j < n) :
    (f.next P x .none).regs.pmpCfgRdata P.toCsrParams (4 * k + j)
      = if (f.regs.pmpCfgRdata P.toCsrParams (4 * k + j)).getLsbD 7 then
          f.regs.pmpCfgRdata P.toCsrParams (4 * k + j)
        else CsrDoc.pmpCfgFields P ((f.csrWdataInt P x).extractLsb' (j * 8) 8) := by
  have hregs : (f.next P x .none).regs = f.regs.written P.toCsrParams (f.wired P x) :=
    CsRegs.next_eq_written (x := f.wired P x) hx.saveCause hx.restoreDret hx.restoreMret
  have hi : 4 * k + j < 16 := by omega
  have hwe' : f.regs.csrWe P.toCsrParams (f.wired P x)
      (CsrNum.offPmpCfg + BitVec.ofNat 12 ((4 * k + j) / 4)) = true := by
    rw [show (4 * k + j) / 4 = k by omega, ← ha, CsRegs.csrWe, Bool.and_eq_true]
    exact ⟨hwe, beq_self_eq_true _⟩
  have hregion : CsrDoc.pmpRegion P n (4 * k + j) = true := by
    simp [CsrDoc.pmpRegion, hr]
  rw [hregs, @CsrFile.pmpCfgRdata_written _ P 0#32 f (f.wired P x) _ hi hwe', CsrDoc.pmpCfgWrite,
    if_pos hregion, CsrDoc.pmpLock, CsrFile.pmpCfg_stored hi,
    show (4 * k + j) % 4 = j by omega]
  rfl

/-- A configuration passes the reserved check. -/
theorem sanitiseByte_pmpCfgRdata (hf : f.Sound P) (i : ℕ) :
    BaseRegister.sanitiseByte (f.regs.pmpCfgRdata P.toCsrParams i)
      = f.regs.pmpCfgRdata P.toCsrParams i := by
  rw [CsRegs.pmpCfgRdata]
  split_ifs with hr
  · exact PmpCfg.sanitiseByte_rdata (hf.pmpCfg _)
  · rfl

/-- A write to a configuration word is the masked write of the model. -/
theorem pmpCfgWord_next (hG : P.pmpGranularity = 0) (hn : 4 ∣ n) (hf : f.Sound P)
    (hx : CsrFile.Calm x) (k : Fin 4) (hr : P.pmpEnable = true ∧ k.val < n / 4)
    (hwe : f.csrWeInt P x = true) (ha : x.csrAddr = (pmpCfg k).address) :
    let v := (pmpCfg k).rdata P f
    let lockMask := BaseRegister.pmpCfgLockMask v
    BaseRegister.sanitise (v &&& lockMask ||| f.csrWdataInt P x &&& ~~~lockMask)
      = (pmpCfg k).rdata P (f.next P x .none) := by
  intro v lockMask
  obtain ⟨k, hk⟩ := k
  refine BaseRegister.eq_of_bytes fun j hj => ?_
  have hkn : k < n / 4 := hr.2
  have hregion : P.pmpEnable = true ∧ 4 * k + j < n := ⟨hr.1, by omega⟩
  have hv : v.extractLsb' (j * 8) 8 = f.regs.pmpCfgRdata P.toCsrParams (4 * k + j) :=
    pmpCfgWord_byte f.regs k hj
  have hnew : ((pmpCfg ⟨k, hk⟩).rdata P (f.next P x .none)).extractLsb' (j * 8) 8
      = (f.next P x .none).regs.pmpCfgRdata P.toCsrParams (4 * k + j) :=
    pmpCfgWord_byte _ k hj
  rw [BaseRegister.extractLsb'_sanitise _ hj, BaseRegister.extractLsb'_masked _ _ hj, hv, hnew,
    pmpCfgRdata_next hx hk hj hwe ha hregion]
  split_ifs
  · exact sanitiseByte_pmpCfgRdata hf _
  · exact sanitiseByte_eq_pmpCfgFields hG _

/-- A configuration word that is not written. -/
theorem pmpCfgWord_next_of_not_we (hx : CsrFile.Calm x) (k : Fin 4)
    (hwe : ¬ (f.csrWeInt P x = true ∧ x.csrAddr = (pmpCfg k).address)) :
    (pmpCfg k).rdata P (f.next P x .none) = (pmpCfg k).rdata P f := by
  have hregs : (f.next P x .none).regs = f.regs.written P.toCsrParams (f.wired P x) :=
    CsRegs.next_eq_written (x := f.wired P x) hx.saveCause hx.restoreDret hx.restoreMret
  have hrange : CsrNum.offPmpCfg ≤ (pmpCfg k).address ∧ (pmpCfg k).address ≤ 0x3A3#12 ∧
      ((pmpCfg k).address - CsrNum.offPmpCfg).toNat = k.val := by
    clear hwe
    revert k
    decide
  have hwe' : f.regs.csrWe P.toCsrParams (f.wired P x) (pmpCfg k).address = false := by
    rw [← Bool.not_eq_true, CsRegs.csrWe, Bool.and_eq_true, beq_iff_eq]
    exact hwe
  have hkeep := CsRegs.pmpCfgWord_written_of_not_we ⟨hrange.1, hrange.2.1⟩ hwe'
  rw [hrange.2.2] at hkeep
  rw [rdata, rdata, hregs]
  exact hkeep

/-- The tests of `GetLockMask` on a configuration word. -/
theorem shiftRight_and_lock (v : BitVec 32) {lo : ℕ} :
    v >>> lo &&& 0x80#32 ≠ 0#32 ↔ (v.extractLsb' lo 8).getLsbD 7 = true := by
  have h : v >>> lo &&& 0x80#32 ≠ 0#32 ↔ (v >>> lo).getLsbD 7 = true :=
    BaseRegister.and_twoPow_ne_zero (i := 7) _ (by omega)
  rw [h, BitVec.getLsbD_ushiftRight, BitVec.getLsbD_extractLsb']
  simp

/-- The mask of the mode tells whether a region is of the TOR kind. -/
theorem shiftRight_and_mode (v : BitVec 32) {lo : ℕ} :
    v >>> lo &&& 0x18#32 = 0x8#32 ↔ (v.extractLsb' lo 8).extractLsb' 3 2 = 0b01#2 := by
  have hmask : v >>> lo &&& 0x18#32
      = (v >>> lo &&& BitVec.twoPow 32 3) ||| (v >>> lo &&& BitVec.twoPow 32 4) := by
    rw [← BitVec.and_or_distrib_left]
    rfl
  have hmode : (v.extractLsb' lo 8).extractLsb' 3 2
      = oneBit (v.getLsbD (lo + 4)) ++ oneBit (v.getLsbD (lo + 3)) := by
    refine BitVec.eq_of_getLsbD_eq fun i hi => ?_
    simp only [oneBit, BitVec.getLsbD_extractLsb', BitVec.getLsbD_append]
    interval_cases i <;> simp
  rw [hmask, hmode, BitVec.and_twoPow, BitVec.and_twoPow, BitVec.getLsbD_ushiftRight,
    BitVec.getLsbD_ushiftRight]
  cases v.getLsbD (lo + 3) <;> cases v.getLsbD (lo + 4) <;> decide

/-- The configuration words that `GetLockMask` finds. -/
def CfgValues (P : PerfParams) (f : CsrFile n) (m : List BaseRegister) : Prop :=
  (∀ k : Fin 4, BaseRegister.cfgValue m (pmpCfg k).address = (pmpCfg k).rdata P f) ∧
    BaseRegister.cfgValue m 0x3A4#12 = 0#32

variable {m : List BaseRegister}

/-- The byte of a region, wherever its configuration is. -/
theorem extractLsb'_cfgValue (hn : n ≤ 16) (hm : CfgValues P f m) {i : ℕ} (hi : i ≤ 16) :
    (BaseRegister.cfgValue m (0x3A0#12 + BitVec.ofNat 12 (i / 4))).extractLsb' (i % 4 * 8) 8
      = f.regs.pmpCfgRdata P.toCsrParams i := by
  obtain hlt | rfl := hi.lt_or_eq
  · have hword := hm.1 ⟨i / 4, by omega⟩
    rw [address] at hword
    have hoff : CsrNum.offPmpCfg = 0x3A0#12 := rfl
    rw [← hoff, hword]
    have hbyte := pmpCfgWord_byte (P := P) f.regs (i / 4) (j := i % 4) (by omega)
    rw [Nat.div_add_mod] at hbyte
    exact hbyte
  · have hnone : f.regs.pmpCfgRdata P.toCsrParams 16 = 0#8 :=
      dif_neg fun h => absurd h.2 (by omega)
    have hzero := hm.2
    rw [hnone, show 0x3A0#12 + BitVec.ofNat 12 (16 / 4) = 0x3A4#12 from rfl, hzero]
    rfl

/-- The lock mask of the address of a region is the write enable of the register block. -/
theorem pmpAddrLockMask_eq (hn : n ≤ 16) (hm : CfgValues P f m) (k : Fin 16)
    (hr : P.pmpEnable = true ∧ k.val < n) (hwe : f.csrWeInt P x = true)
    (ha : x.csrAddr = (pmpAddr k).address) :
    BaseRegister.pmpAddrLockMask m (pmpAddr k).address
      = if f.regs.pmpAddrWe P.toCsrParams (f.wired P x) ⟨k, hr.2⟩ then 0#32
        else 0xFFFFFFFF#32 := by
  have hregion : ((pmpAddr k).address &&& 0xF#12).toNat = k.val := by
    clear hwe ha hr
    revert k
    decide
  have hk := k.isLt
  have hwe' : f.regs.csrWe P.toCsrParams (f.wired P x)
      (CsrNum.offPmpAddr + BitVec.ofNat 12 k) = true := by
    rw [CsRegs.csrWe, Bool.and_eq_true, beq_iff_eq]
    exact ⟨hwe, ha⟩
  have hlock := extractLsb'_cfgValue hn hm (i := k) (by omega)
  have hnext := extractLsb'_cfgValue hn hm (i := k + 1) (by omega)
  simp only [BaseRegister.pmpAddrLockMask, hregion, shiftRight_and_lock, shiftRight_and_mode, hlock,
    hnext]
  have hself : f.regs.pmpCfgRdata P.toCsrParams k = (f.regs.pmpCfg ⟨k, hr.2⟩).rdata := dif_pos hr
  rw [hself, (PmpCfg.rdata_fields _).1]
  by_cases hlast : k.val < n - 1
  · have hr' : P.pmpEnable = true ∧ k.val + 1 < n := ⟨hr.1, by omega⟩
    have habove : f.regs.pmpCfgRdata P.toCsrParams (k + 1)
        = (f.regs.pmpCfg ⟨k + 1, hr'.2⟩).rdata := dif_pos hr'
    have haddrWe : f.regs.pmpAddrWe P.toCsrParams (f.wired P x) ⟨k, hr.2⟩
        = (!(f.regs.pmpCfg ⟨k, hr.2⟩).lock && (f.regs.pmpCfg ⟨k + 1, hr'.2⟩).mode != .tor) := by
      simp [CsRegs.pmpAddrWe, hwe', hr.1, hlast]
    rw [habove, (PmpCfg.rdata_fields _).2, haddrWe]
    cases (f.regs.pmpCfg ⟨k, hr.2⟩).lock <;> cases (f.regs.pmpCfg ⟨k + 1, hr'.2⟩).mode <;>
      simp [PmpCfgMode.bits]
  · have hnone : f.regs.pmpCfgRdata P.toCsrParams (k + 1) = 0#8 :=
      dif_neg fun h => absurd h.2 (by omega)
    have haddrWe : f.regs.pmpAddrWe P.toCsrParams (f.wired P x) ⟨k, hr.2⟩
        = !(f.regs.pmpCfg ⟨k, hr.2⟩).lock := by
      simp [CsRegs.pmpAddrWe, hwe', hr.1, hlast]
    rw [hnone, haddrWe]
    cases (f.regs.pmpCfg ⟨k, hr.2⟩).lock <;> simp

/-- The address of a region. -/
theorem pmpAddr_rdata (hG : P.pmpGranularity = 0) (k : Fin 16) :
    (pmpAddr k).rdata P f
      = if h : P.pmpEnable = true ∧ k.val < n then f.regs.pmpAddr ⟨k, h.2⟩ else 0#32 := by
  rw [rdata, CsRegs.pmpAddrRdata]
  split_ifs
  · rfl
  · rfl

/-- A write to the address of a region is the masked write of the model. -/
theorem pmpAddr_next (hG : P.pmpGranularity = 0) (hn : n ≤ 16) (hm : CfgValues P f m)
    (hx : CsrFile.Calm x) (k : Fin 16) (hr : P.pmpEnable = true ∧ k.val < n)
    (hwe : f.csrWeInt P x = true) (ha : x.csrAddr = (pmpAddr k).address) :
    let v := (pmpAddr k).rdata P f
    let lockMask := BaseRegister.pmpAddrLockMask m (pmpAddr k).address
    v &&& lockMask ||| f.csrWdataInt P x &&& ~~~lockMask
      = (pmpAddr k).rdata P (f.next P x .none) := by
  intro v lockMask
  have hregs : (f.next P x .none).regs = f.regs.written P.toCsrParams (f.wired P x) :=
    CsRegs.next_eq_written (x := f.wired P x) hx.saveCause hx.restoreDret hx.restoreMret
  have hones (w : BitVec 32) : w &&& 0xFFFFFFFF#32 = w := BitVec.and_allOnes
  have hv : v = f.regs.pmpAddr ⟨k, hr.2⟩ := (pmpAddr_rdata hG k).trans (dif_pos hr)
  have hnew : (pmpAddr k).rdata P (f.next P x .none)
      = if f.regs.pmpAddrWe P.toCsrParams (f.wired P x) ⟨k, hr.2⟩ then f.csrWdataInt P x
        else f.regs.pmpAddr ⟨k, hr.2⟩ := by
    rw [pmpAddr_rdata hG, dif_pos hr, hregs]
    rfl
  have hmask : lockMask = _ := pmpAddrLockMask_eq hn hm k hr hwe ha
  rw [hnew, hmask, hv]
  split_ifs
  · simp [hones]
  · simp [hones]

/-- The address of a region that is not written. -/
theorem pmpAddr_next_of_not_we (hG : P.pmpGranularity = 0) (hx : CsrFile.Calm x) (k : Fin 16)
    (hwe : ¬ (f.csrWeInt P x = true ∧ x.csrAddr = (pmpAddr k).address)) :
    (pmpAddr k).rdata P (f.next P x .none) = (pmpAddr k).rdata P f := by
  have hregs : (f.next P x .none).regs = f.regs.written P.toCsrParams (f.wired P x) :=
    CsRegs.next_eq_written (x := f.wired P x) hx.saveCause hx.restoreDret hx.restoreMret
  rw [pmpAddr_rdata hG, pmpAddr_rdata hG, hregs]
  refine dite_congr rfl (fun hr => ?_) fun _ => rfl
  refine CsRegs.pmpAddr_written_of_not_we ?_
  rw [← Bool.not_eq_true, CsRegs.csrWe, Bool.and_eq_true, beq_iff_eq]
  exact hwe

/-! #### The other registers -/

/-- A write to `mcountinhibit` is the masked write of the model. -/
theorem mcountinhibit_next (hf : f.Sound P) (hwe : f.csrWeInt P x = true)
    (ha : x.csrAddr = mcountinhibit.address) :
    let v := mcountinhibit.rdata P f
    let lockMask := RegisterModel.mcountinhibitMask P
    v &&& lockMask ||| f.csrWdataInt P x &&& ~~~lockMask
      = mcountinhibit.rdata P (f.next P x .none) := by
  intro v lockMask
  have hnew : mcountinhibit.rdata P (f.next P x .none)
      = ~~~PerfCounters.inhibitMask P
        ||| f.csrWdataInt P x &&& PerfCounters.inhibitMask P &&& ~~~2#32 := by
    have hq : (f.next P x .none).perf.mcountinhibitQ
        = f.csrWdataInt P x &&& PerfCounters.inhibitMask P &&& ~~~2#32 := by
      refine if_pos ?_
      rw [hwe, ha]
      rfl
    rw [rdata, PerfCounters.mcountinhibit, hq]
  have hv : v = ~~~PerfCounters.inhibitMask P ||| f.perf.mcountinhibitQ := rfl
  have hinhibit := hf.inhibit
  have hmask : lockMask = ~~~PerfCounters.inhibitMask P ||| 2#32 :=
    congrArg (· ||| 2#32) RegisterModel.mcountinhibitResval_eq
  rw [show RegisterModel.mcountinhibitMask P = lockMask from rfl, hmask] at hinhibit
  rw [hnew, hv, hmask]
  refine BitVec.eq_of_getLsbD_eq fun i hi => ?_
  have hbit := congrArg (fun b : BitVec 32 => b.getLsbD i) hinhibit
  simp only [BitVec.getLsbD_and, BitVec.getLsbD_or, BitVec.getLsbD_not, hi, decide_true,
    Bool.true_and, BitVec.getLsbD_zero] at hbit ⊢
  revert hbit
  cases (PerfCounters.inhibitMask P).getLsbD i <;> cases f.perf.mcountinhibitQ.getLsbD i <;>
    cases (f.csrWdataInt P x).getLsbD i <;> cases (2#32).getLsbD i <;> simp

/-- `mcountinhibit` when it is not written. -/
theorem mcountinhibit_next_of_not_we
    (hwe : ¬ (f.csrWeInt P x = true ∧ x.csrAddr = mcountinhibit.address)) :
    mcountinhibit.rdata P (f.next P x .none) = mcountinhibit.rdata P f := by
  have hq : (f.next P x .none).perf.mcountinhibitQ = f.perf.mcountinhibitQ := by
    refine if_neg ?_
    rw [Bool.and_eq_true, beq_iff_eq]
    exact hwe
  rw [rdata, rdata, PerfCounters.mcountinhibit, PerfCounters.mcountinhibit, hq]

/-- A register that is not written reads as before. -/
theorem rdata_next_of_not_we (hG : P.pmpGranularity = 0) (hf : f.Sound P) (hx : CsrFile.Calm x)
    (hs : s.Held) (hm : ¬ s.isMcycle)
    (hwe : ¬ (f.csrWeInt P x = true ∧ x.csrAddr = s.address)) :
    s.rdata P (f.next P x .none) = s.rdata P f := by
  cases s with
  | pmpCfg k => exact pmpCfgWord_next_of_not_we hx k hwe
  | pmpAddr k => exact pmpAddr_next_of_not_we hG hx k hwe
  | mcountinhibit => exact mcountinhibit_next_of_not_we hwe
  | mhpmevent i => rfl
  | counter high i => exact (half_mhpmcounter_next hf hs hm _).trans (if_neg hwe)

end Slot

namespace BaseRegister

variable {r : BaseRegister}

/-- A register of the model is read as it is, but for those that do not exist. -/
theorem registerRead_of_ne (h : r.registerClass ≠ .nonImp) : r.registerRead = r.registerValue := by
  rw [registerRead]
  split
  · contradiction
  · rfl

/-- What is read after a write, class by class. -/
theorem registerRead_update (r : BaseRegister) (v : BitVec 32) :
    (r.update v).registerRead = match r.registerClass with
      | .nonImp => 0#32
      | .pmpCfg => sanitise v
      | _ => v := by
  obtain ⟨a, c, v'⟩ := r
  cases c <;> rfl

end BaseRegister

namespace Slot

variable {n : ℕ} {P : PerfParams} {f : CsrFile n} {s : Slot} {x : CsRegsIn} {r : BaseRegister}
  {m : List BaseRegister}

/-- The configuration word of regions that are not there. -/
theorem pmpCfg_rdata_absent (hn : 4 ∣ n) (k : Fin 4) (hr : ¬ (P.pmpEnable = true ∧ k.val < n / 4)) :
    (pmpCfg k).rdata P f = 0#32 := by
  have hbyte (j : ℕ) : f.regs.pmpCfgRdata P.toCsrParams (4 * k + j) = 0#8 := by
    refine dif_neg fun h => hr ⟨h.1, ?_⟩
    have hlt := h.2
    omega
  have h0 := hbyte 0
  rw [Nat.add_zero] at h0
  rw [rdata, CsRegs.pmpCfgWord, hbyte, hbyte, hbyte, h0]
  rfl

/-- The masked write of the model reads as the register block after the write. -/
theorem registerRead_update_next (hG : P.pmpGranularity = 0) (hn : 4 ∣ n) (hn16 : n ≤ 16)
    (hf : f.Sound P) (hx : CsrFile.Calm x) (hm : CfgValues P f m) (hs : s.Held)
    (hmc : ¬ s.isMcycle) (hwe : f.csrWeInt P x = true) (ha : x.csrAddr = s.address)
    (hra : r.registerAddress = s.address) (hrc : r.registerClass = s.registerClass P n)
    (hread : r.registerRead = s.rdata P f) :
    (r.update (r.registerValue &&& r.getLockMask m
      ||| f.csrWdataInt P x &&& ~~~r.getLockMask m)).registerRead
      = s.rdata P (f.next P x .none) := by
  have hones : ~~~0xFFFFFFFF#32 = 0#32 := by decide
  rw [BaseRegister.registerRead_update]
  cases s with
  | pmpCfg k =>
      rw [registerClass] at hrc
      split_ifs at hrc with hr
      · rw [BaseRegister.registerRead_of_ne (by rw [hrc]; decide)] at hread
        rw [BaseRegister.getLockMask, hrc, hread]
        exact pmpCfgWord_next hG hn hf hx k hr hwe ha
      · rw [hrc, pmpCfg_rdata_absent hn k hr]
  | pmpAddr k =>
      rw [registerClass] at hrc
      split_ifs at hrc with hr
      · rw [BaseRegister.registerRead_of_ne (by rw [hrc]; decide)] at hread
        rw [BaseRegister.getLockMask, hrc, hread, hra]
        exact pmpAddr_next hG hn16 hm hx k hr hwe ha
      · rw [hrc, pmpAddr_rdata hG, dif_neg hr]
  | mcountinhibit =>
      rw [registerClass] at hrc
      rw [BaseRegister.registerRead_of_ne (by rw [hrc]; exact RegisterClass.noConfusion)] at hread
      rw [BaseRegister.getLockMask, hrc, hread]
      exact mcountinhibit_next hf hwe ha
  | mhpmevent i =>
      have hkeep : (mhpmevent i).rdata P (f.next P x .none) = (mhpmevent i).rdata P f := rfl
      rw [registerClass, RegisterModel.counterClass] at hrc
      split_ifs at hrc with hi
      · rw [BaseRegister.registerRead_of_ne (by rw [hrc]; exact RegisterClass.noConfusion)] at hread
        rw [BaseRegister.getLockMask, hrc, hkeep, ← hread, hones]
        simp only [BitVec.and_zero, BitVec.or_zero]
        exact BitVec.and_allOnes
      · rw [hrc, rdata, CsRegs.mhpmevent, if_neg (by omega)]
  | counter high i =>
      have hnew : (counter high i).rdata P (f.next P x .none)
          = if PerfCounters.counterExists P i then f.csrWdataInt P x &&& ~~~half high (unused P i)
            else 0#32 :=
        (half_mhpmcounter_next hf hs hmc _).trans (if_pos ⟨hwe, ha⟩)
      rw [hnew]
      rw [registerClass] at hrc
      split_ifs at hrc with hi
      · have hex : PerfCounters.counterExists P i = true := by
          have h0 : i ≠ 0#5 := hmc
          have h1 : i ≠ 1#5 := hs
          rw [Ne, ← BitVec.toNat_inj, BitVec.toNat_ofNat] at h0 h1
          simp only [PerfCounters.counterExists, Bool.or_eq_true, beq_iff_eq]
          omega
        have hunused : half high (unused P i) = 0#32 := by
          rw [unused, if_pos hi]
          cases high <;> rfl
        rw [if_pos hex, hunused, BaseRegister.getLockMask, hrc]
        simp
      · rw [RegisterModel.counterClass] at hrc
        split_ifs at hrc with hnum
        · have hex : PerfCounters.counterExists P i = true := by
            simp only [PerfCounters.counterExists, Bool.or_eq_true, Bool.and_eq_true, beq_iff_eq,
              decide_eq_true_eq]
            omega
          have hunused : unused P i = RegisterModel.mhpmcounterMask P := if_neg hi
          have hmask : r.registerValue &&& half high (RegisterModel.mhpmcounterMask P) = 0#32 := by
            rw [BaseRegister.registerRead_of_ne (by rw [hrc]; exact RegisterClass.noConfusion)]
              at hread
            have hzero (c k : BitVec 64) : c &&& ~~~k &&& k = 0#64 := by
              refine BitVec.eq_of_getLsbD_eq fun j hj => ?_
              simp
            rw [hread, rdata, ← half_and, ← hf.flops i, counterFlops_width, hunused, hzero]
            cases high <;> rfl
          rw [if_pos hex, hunused, BaseRegister.getLockMask, hrc]
          simp [hmask]
        · have hex : PerfCounters.counterExists P i = false := by
            rw [← Bool.not_eq_true]
            simp only [PerfCounters.counterExists, Bool.or_eq_true, Bool.and_eq_true, beq_iff_eq,
              decide_eq_true_eq]
            omega
          rw [hrc, hex]
          rfl

end Slot

/-! ### Runs -/

namespace RegisterModel

/-- The addresses of the registers. -/
def addresses : List ℕ :=
  List.range' 0x3A0 4 ++ List.range' 0x3B0 16 ++ [0x320] ++ List.range' 0x323 29
    ++ [0xB00, 0xB02] ++ List.range' 0xB03 29 ++ [0xB80, 0xB82] ++ List.range' 0xB83 29

/-- The map of the model has the registers at the addresses of the list. -/
theorem map_fst_registerMap (P : PerfParams) (n : ℕ) :
    (registerMap P n).map Prod.fst = addresses.map (BitVec.ofNat 12) := rfl

/-- No two registers share an address. -/
theorem nodup_addresses : (addresses.map (BitVec.ofNat 12)).Nodup := by
  have hlt : ∀ a ∈ addresses, a < 2 ^ 12 := by decide
  refine List.Nodup.map_on (fun a ha b hb h => ?_) (by decide)
  have hval := congrArg BitVec.toNat h
  rwa [BitVec.toNat_ofNat, BitVec.toNat_ofNat, Nat.mod_eq_of_lt (hlt a ha),
    Nat.mod_eq_of_lt (hlt b hb)] at hval

end RegisterModel

/-- The model reads as the register block, `mcycle` aside. -/
structure Follows {n : ℕ} (P : PerfParams) (f : CsrFile n) (m : List BaseRegister) : Prop where
  keys : RegisterModel.keys m = RegisterModel.registerMap P n
  read : ∀ r ∈ m, r.registerAddress ≠ CsrNum.mcycle → r.registerAddress ≠ CsrNum.mcycleh →
    r.registerRead = f.csrRdata P (CsrFile.reading 0#32 r.registerAddress)

namespace Follows

variable {n : ℕ} {P : PerfParams} {f : CsrFile n} {m : List BaseRegister} {r : BaseRegister}
  {x : CsRegsIn}

/-- The addresses in the model never change. -/
theorem addresses (h : Follows P f m) :
    m.map BaseRegister.registerAddress = RegisterModel.addresses.map (BitVec.ofNat 12) := by
  rw [← RegisterModel.map_fst_registerMap P n, ← h.keys, RegisterModel.keys, List.map_map]
  rfl

/-- No address is in the model twice. -/
theorem nodup (h : Follows P f m) : (m.map BaseRegister.registerAddress).Nodup := by
  rw [h.addresses]
  exact RegisterModel.nodup_addresses

/-- The slot of a register. -/
theorem exists_slot (h : Follows P f m) (hr : r ∈ m) :
    ∃ s : Slot, s.Held ∧ r.registerAddress = s.address ∧
      r.registerClass = s.registerClass P n := by
  have hkey : (r.registerAddress, r.registerClass) ∈ RegisterModel.registerMap P n := by
    rw [← h.keys]
    exact List.mem_map_of_mem hr
  obtain ⟨s, hs, heq⟩ := Slot.exists_of_mem hkey
  exact ⟨s, hs, congrArg Prod.fst heq, congrArg Prod.snd heq⟩

/-- A register of the model at an address. -/
theorem exists_of_address (h : Follows P f m) {a : ℕ} (ha : a ∈ RegisterModel.addresses) :
    ∃ r ∈ m, r.registerAddress = BitVec.ofNat 12 a := by
  have hmem : BitVec.ofNat 12 a ∈ m.map BaseRegister.registerAddress := by
    rw [h.addresses]
    exact List.mem_map_of_mem ha
  exact List.mem_map.mp hmem

/-- The configuration words of the model. -/
theorem cfgValues (h : Follows P f m) : Slot.CfgValues P f m := by
  constructor
  · intro k
    have hk := k.isLt
    obtain ⟨r, hr, ha⟩ := h.exists_of_address (a := 0x3A0 + k) (by
      simp only [RegisterModel.addresses, List.mem_append, List.mem_range'_1]
      omega)
    have haddr : r.registerAddress = (Slot.pmpCfg k).address := by
      rw [ha, BitVec.ofNat_add]
      rfl
    have hne : (Slot.pmpCfg k).address ≠ CsrNum.mcycle ∧
        (Slot.pmpCfg k).address ≠ CsrNum.mcycleh := by
      clear ha haddr
      revert k
      decide
    rw [← haddr] at hne
    have hread := h.read r hr hne.1 hne.2
    rw [← haddr, RegisterModel.cfgValue_of_mem h.nodup hr, hread]
    exact Slot.csrRdata_eq (s := .pmpCfg k) trivial haddr
  · refine RegisterModel.cfgValue_of_not_mem fun q hq heq => ?_
    have hmem : q.registerAddress ∈ RegisterModel.addresses.map (BitVec.ofNat 12) := by
      rw [← h.addresses]
      exact List.mem_map_of_mem hq
    rw [heq] at hmem
    revert hmem
    decide

/-- The registers are those of the register block. -/
theorem read_slot (h : Follows P f m) (hr : r ∈ m) (hne : r.registerAddress ≠ CsrNum.mcycle)
    (hne' : r.registerAddress ≠ CsrNum.mcycleh) {s : Slot} (hs : s.Held)
    (ha : r.registerAddress = s.address) : r.registerRead = s.rdata P f ∧ ¬ s.isMcycle := by
  refine ⟨(h.read r hr hne hne').trans (Slot.csrRdata_eq hs ha), ?_⟩
  rw [ha] at hne hne'
  cases s with
  | counter high i =>
      rintro rfl
      cases high
      · exact hne rfl
      · exact hne' rfl
  | _ => exact id

/-- What a register reads after a reset. -/
theorem registerRead_reset (hG : P.pmpGranularity = 0) (s : Slot) :
    (BaseRegister.registerReset ⟨s.address, s.registerClass P n, 0#32⟩).registerRead
      = s.rdata P (CsrFile.reset n) := by
  cases s with
  | pmpCfg k =>
      have hbyte (i : ℕ) : (CsrFile.reset n).regs.pmpCfgRdata P.toCsrParams i = 0#8 := by
        have hopen : PmpCfg.rdata ⟨false, .off, false, false, false⟩ = 0#8 := by decide
        rw [CsRegs.pmpCfgRdata]
        split_ifs
        · exact hopen
        · rfl
      rw [Slot.rdata, CsRegs.pmpCfgWord, hbyte, hbyte, hbyte, hbyte, Slot.registerClass]
      split_ifs <;> rfl
  | pmpAddr k =>
      rw [Slot.pmpAddr_rdata hG, Slot.registerClass]
      split_ifs <;> rfl
  | mcountinhibit =>
      have hq : (CsrFile.reset n).perf.mcountinhibitQ = 0#32 := rfl
      rw [Slot.rdata, PerfCounters.mcountinhibit, hq, BitVec.or_zero,
        ← RegisterModel.mcountinhibitResval_eq]
      rfl
  | mhpmevent i =>
      rw [Slot.rdata, CsRegs.mhpmevent, Slot.registerClass, RegisterModel.counterClass,
        Nat.add_comm P.mhpmCounterNum]
      split_ifs <;> rfl
  | counter high i =>
      have hzero : (Slot.counter high i).rdata P (CsrFile.reset n) = 0#32 := by
        change Slot.half high 0#64 = 0#32
        cases high <;> rfl
      rw [hzero, Slot.registerClass, RegisterModel.counterClass]
      split_ifs <;> rfl

/-- The model and the registers agree after reset. -/
theorem reset (hG : P.pmpGranularity = 0) :
    Follows P (CsrFile.reset n) (RegisterModel.reset P n) where
  keys := by
    rw [RegisterModel.keys, RegisterModel.reset, List.map_map]
    refine (List.map_congr_left fun key _ => ?_).trans (List.map_id _)
    obtain ⟨a, c⟩ := key
    cases c <;> rfl
  read := by
    intro r hr _ _
    obtain ⟨key, hkey, rfl⟩ := List.mem_map.mp hr
    obtain ⟨s, hs, rfl⟩ := Slot.exists_of_mem hkey
    have haddr : (BaseRegister.registerReset ⟨s.address, s.registerClass P n, 0#32⟩).registerAddress
        = s.address := by
      rw [BaseRegister.registerReset]
      split <;> rfl
    exact (registerRead_reset hG s).trans (Slot.csrRdata_eq hs haddr).symm

/-- The transaction of a CSR instruction. -/
def transaction (x : CsRegsIn) : RegisterTransaction := ⟨x.csrOp, x.csrAddr, x.csrWdata⟩

/-- The model after a cycle. -/
def modelNext (m : List BaseRegister) (x : CsRegsIn) : List BaseRegister :=
  if x.csrAccess then (RegisterModel.newTransaction m (transaction x)).1 else m

/-- A register that the cycle does not write. -/
theorem read_next_of_not_we (hG : P.pmpGranularity = 0) (hf : f.Sound P) (hx : CsrFile.Calm x)
    (h : Follows P f m) (hr : r ∈ m) (hne : r.registerAddress ≠ CsrNum.mcycle)
    (hne' : r.registerAddress ≠ CsrNum.mcycleh)
    (hwe : ¬ (f.csrWeInt P x = true ∧ x.csrAddr = r.registerAddress)) :
    r.registerRead
      = (f.next P x .none).csrRdata P (CsrFile.reading 0#32 r.registerAddress) := by
  obtain ⟨s, hs, ha, -⟩ := h.exists_slot hr
  obtain ⟨hread, hmc⟩ := h.read_slot hr hne hne' hs ha
  rw [hread, Slot.csrRdata_eq hs ha]
  rw [ha] at hwe
  exact (Slot.rdata_next_of_not_we hG hf hx hs hmc hwe).symm

/-- The register that the cycle writes. -/
theorem read_next_of_we (hG : P.pmpGranularity = 0) (hn : 4 ∣ n) (hn16 : n ≤ 16) (hf : f.Sound P)
    (hx : CsrFile.Calm x) (h : Follows P f m) (hr : r ∈ m)
    (hne : r.registerAddress ≠ CsrNum.mcycle) (hne' : r.registerAddress ≠ CsrNum.mcycleh)
    (hwe : f.csrWeInt P x = true) (ha : x.csrAddr = r.registerAddress) :
    (r.processTransaction m (transaction x)).registerRead
      = (f.next P x .none).csrRdata P (CsrFile.reading 0#32 r.registerAddress) := by
  obtain ⟨s, hs, hra, hrc⟩ := h.exists_slot hr
  obtain ⟨hread, hmc⟩ := h.read_slot hr hne hne' hs hra
  have hop : (transaction x).csrOp ≠ .read := by
    intro hop
    have hop' : x.csrOp = .read := hop
    have hreq : CsRegs.csrWreq x = true := (Bool.and_eq_true_iff.mp hwe).1
    simp [CsRegs.csrWreq, hop'] at hreq
  have hnext := Slot.registerRead_update_next hG hn hn16 hf hx h.cfgValues hs hmc hwe
    (ha.trans hra) hra hrc hread
  rw [BaseRegister.processTransaction_eq hop]
  rw [Slot.csrRdata_eq hs hra, ← hnext]
  by_cases hc : r.registerClass = .nonImp
  · rw [BaseRegister.registerRead_update, BaseRegister.registerRead_update, hc]
  · have hw : BaseRegister.operand (transaction x) r.registerValue = f.csrWdataInt P x := by
      have hrdata : f.regs.csrRdata P.toCsrParams (f.wired P x) = r.registerValue := by
        rw [← BaseRegister.registerRead_of_ne hc, hread]
        exact Slot.csrRdata_eq hs (ha.trans hra)
      have hxop : (f.wired P x).csrOp = x.csrOp := rfl
      rw [CsrFile.csrWdataInt, CsRegs.csrWdataInt, BaseRegister.operand, hxop, hrdata]
      cases hx : x.csrOp <;> simp [transaction, hx] <;> rfl
    rw [hw]

/-- A cycle keeps the model beside the register block. -/
theorem step (hG : P.pmpGranularity = 0) (hn : 4 ∣ n) (hn16 : n ≤ 16) (hf : f.Sound P)
    (hx : CsrFile.Calm x) (hop : x.csrOpEn = x.csrAccess) (h : Follows P f m) :
    Follows P (f.next P x .none) (modelNext m x) := by
  have hno (hreq : CsRegs.csrWreq x = false) : Follows P (f.next P x .none) m := by
    refine ⟨h.keys, fun r hr hne hne' => h.read_next_of_not_we hG hf hx hr hne hne' fun hwe => ?_⟩
    have hreq' : CsRegs.csrWreq x = true := (Bool.and_eq_true_iff.mp hwe.1).1
    rw [hreq] at hreq'
    cases hreq'
  rw [modelNext]
  by_cases hacc : x.csrAccess = true
  · rw [if_pos hacc]
    by_cases hmem : ∃ r ∈ m, r.registerAddress = x.csrAddr
    · obtain ⟨r, hr, ha⟩ := hmem
      obtain ⟨pre, post, heq, hnew, hother⟩ :=
        @RegisterModel.newTransaction_of_mem (transaction x) _ _ h.nodup hr ha
      have hkey := BaseRegister.processTransaction_key r m (transaction x)
      rw [hnew]
      refine ⟨?_, ?_⟩
      · have hkeys : RegisterModel.keys (pre ++ r.processTransaction m (transaction x) :: post)
            = RegisterModel.keys (pre ++ r :: post) := by
          simp only [RegisterModel.keys, List.map_append, List.map_cons, hkey]
        rw [hkeys, ← heq]
        exact h.keys
      · intro q hq hne hne'
        rw [List.mem_append, List.mem_cons] at hq
        by_cases hself : q = r.processTransaction m (transaction x)
        · obtain rfl := hself
          rw [hkey.1] at hne hne' ⊢
          by_cases hwe : f.csrWeInt P x = true
          · exact h.read_next_of_we hG hn hn16 hf hx hr hne hne' hwe ha.symm
          · -- a read
            obtain ⟨s, hs, hra, -⟩ := h.exists_slot hr
            have hreq : CsRegs.csrWreq x = false := by
              rw [← Slot.csrWeInt_eq hs (ha.symm.trans hra) hf.privLvl, ← Bool.not_eq_true]
              exact hwe
            have hread : (transaction x).csrOp = .read := by
              rw [CsRegs.csrWreq, hop, hacc, Bool.true_and] at hreq
              change x.csrOp = .read
              cases hc : x.csrOp <;> rw [hc] at hreq <;> first | rfl | cases hreq
            rw [BaseRegister.processTransaction, hread]
            exact h.read_next_of_not_we hG hf hx hr hne hne' fun hw => hwe hw.1
        · have hq' : q ∈ pre ++ post := by
            rw [List.mem_append]
            tauto
          have hmem' : q ∈ m := by
            rw [heq, List.mem_append, List.mem_cons]
            tauto
          exact h.read_next_of_not_we hG hf hx hmem' hne hne' fun hwe => hother q hq' hwe.2.symm
    · have hskip : (RegisterModel.newTransaction m (transaction x)).1 = m := by
        have hnone : ∀ r ∈ m, r.matchAddr (transaction x).csrAddr = false := by
          intro r hr
          rw [BaseRegister.matchAddr, beq_eq_false_iff_ne]
          exact fun heq => hmem ⟨r, hr, heq.symm⟩
        rw [RegisterModel.newTransaction, RegisterModel.processFrom_of_ne [] hnone]
        rfl
      rw [hskip]
      refine ⟨h.keys, fun r hr hne hne' => h.read_next_of_not_we hG hf hx hr hne hne' fun hwe => ?_⟩
      exact hmem ⟨r, hr, hwe.2.symm⟩
  · rw [if_neg hacc]
    refine hno ?_
    rw [CsRegs.csrWreq, hop, (Bool.not_eq_true _).mp hacc, Bool.false_and]

end Follows

/-- Both after a cycle. -/
def nextWithModel {n : ℕ} (P : PerfParams) (s : CsrFile n × List BaseRegister) (x : CsRegsIn) :
    CsrFile n × List BaseRegister :=
  (s.1.next P x .none, Follows.modelNext s.2 x)

/-- In a transaction with a register of the model other than `mcycle` the read data is what the
model returns. -/
def ReadsAgree {n : ℕ} (P : PerfParams) (s : CsrFile n × List BaseRegister) (x : CsRegsIn) : Prop :=
  x.csrAccess = true → x.csrAddr ∈ (RegisterModel.registerMap P n).map Prod.fst →
    x.csrAddr ≠ CsrNum.mcycle → x.csrAddr ≠ CsrNum.mcycleh →
      (RegisterModel.newTransaction s.2 (Follows.transaction x)).2 = [s.1.csrRdata P x]

/-- A transaction between states that agree. -/
theorem Follows.readsAgree {n : ℕ} {P : PerfParams} {f : CsrFile n} {m : List BaseRegister}
    (h : Follows P f m) (x : CsRegsIn) : ReadsAgree P (f, m) x := by
  intro _ hmem hne hne'
  obtain ⟨a, ha, heq⟩ : ∃ a ∈ RegisterModel.addresses, BitVec.ofNat 12 a = x.csrAddr := by
    rw [RegisterModel.map_fst_registerMap] at hmem
    exact List.mem_map.mp hmem
  obtain ⟨r, hr, hra⟩ := h.exists_of_address ha
  rw [heq] at hra
  obtain ⟨pre, post, -, hnew, -⟩ :=
    @RegisterModel.newTransaction_of_mem (transaction x) _ _ h.nodup hr hra
  obtain ⟨s, hs, hsa, -⟩ := h.exists_slot hr
  have hread : r.registerRead = f.csrRdata P x := by
    rw [h.read r hr (hra ▸ hne) (hra ▸ hne'), Slot.csrRdata_eq (x := x) hs (hra.symm.trans hsa)]
    exact Slot.csrRdata_eq hs hsa
  rw [hnew, hread]

/-- Runs from states that agree. -/
theorem Follows.along {n : ℕ} {P : PerfParams} (hG : P.pmpGranularity = 0) (hn : 4 ∣ n)
    (hn16 : n ≤ 16) {f : CsrFile n} {m : List BaseRegister} (hf : f.Sound P) (h : Follows P f m)
    (ins : List CsRegsIn) (hins : ∀ x ∈ ins, CsrFile.Calm x ∧ x.csrOpEn = x.csrAccess) :
    Machine.Along (nextWithModel P) (ReadsAgree P) (f, m) ins := by
  induction ins generalizing f m with
  | nil => trivial
  | cons x ins ih =>
      rw [List.forall_mem_cons] at hins
      obtain ⟨⟨hx, hop⟩, hrest⟩ := hins
      refine ⟨h.readsAgree x, ?_⟩
      exact ih (hf.next hx .none) (h.step hG hn hn16 hf hx hop) hrest

/-- **The register block and its model agree.** In every run from reset without traps, with
the events at rest, every transaction with a register of the model reads what the model returns,
whatever was written before, to these registers or to others. -/
theorem model_reads_agree {n : ℕ} (P : PerfParams) (hG : P.pmpGranularity = 0) (hn : 4 ∣ n)
    (hn16 : n ≤ 16) (ins : List CsRegsIn)
    (hins : ∀ x ∈ ins, CsrFile.Calm x ∧ x.csrOpEn = x.csrAccess) :
    Machine.Along (nextWithModel P) (ReadsAgree P) (CsrFile.reset n, RegisterModel.reset P n)
      ins :=
  (Follows.reset hG).along hG hn hn16 CsrFile.sound_reset ins hins

/-- Region 0 is locked with a reserved combination of rights, and region 1 put in TOR mode. -/
theorem model_reads_agree_locked :
    Machine.Along (nextWithModel CsrFile.smallParams) (ReadsAgree CsrFile.smallParams)
      (CsrFile.reset 4, RegisterModel.reset CsrFile.smallParams 4)
      [.write CsrNum.offPmpCfg 0x00000F9A#32, .write CsrNum.offPmpAddr 0x20#32,
        { CsRegsIn.write CsrNum.offPmpCfg 0x60000080#32 with csrOp := .clear },
        { CsRegsIn.write CsrNum.offPmpCfg 0#32 with csrOp := .read }] := by
  refine model_reads_agree CsrFile.smallParams rfl (by decide) (by decide) _ ?_
  simp only [List.forall_mem_cons]
  exact ⟨⟨⟨rfl, rfl, rfl⟩, rfl⟩, ⟨⟨rfl, rfl, rfl⟩, rfl⟩, ⟨⟨rfl, rfl, rfl⟩, rfl⟩,
    ⟨⟨rfl, rfl, rfl⟩, rfl⟩, List.forall_mem_nil _⟩

end CocoIbex
