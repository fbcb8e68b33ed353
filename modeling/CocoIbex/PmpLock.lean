import CocoIbex.CsRegisters
import CocoIbex.Pmp

/-!
# The Lock of a PMP Region

A locked region keeps its configuration and its address until the next reset, and with TOR
matching also the address of the region below, which is its lower end. The write enables of the
registers are evaluated on the old registers, so a write that locks a region still takes effect
and no later one does. `pmp_lock_permanent` says so of every run, and `locked_matchBoth` what it
is for: the region decides the same accesses for good.

`Pinned` is the invariant of a region that has been locked at some time: its registers have the
values that they had then. A cycle with any write, trap or return keeps it, since no write
enable of the region is set, and traps and returns do not touch the PMP.

## Main results

* `next_pmpAddr` — an address changes by its write enable only;
* `pmp_lock_permanent` — behind the state in which a region is locked, nothing of it changes;
* `locked_matchBoth` — so it matches the same addresses in all later states.
-/

namespace CocoIbex.CsRegs

variable {n : ℕ} {P : CsrParams} {s : CsRegs n} {x : CsRegsIn} {i j : Fin n}

/-! ### One cycle -/

/-- A configuration changes by its write enable only. -/
theorem next_pmpCfg (P : CsrParams) (s : CsRegs n) (x : CsRegsIn) (i : Fin n) :
    (s.next P x).pmpCfg i
      = if s.pmpCfgWe P x i then
          PmpCfg.ofWdata P.pmpGranularity (s.csrWdataInt P x) (i % 4 * 8)
        else s.pmpCfg i := by
  rw [next, (trapped_pmp s x _).1]
  rfl

/-- An address changes by its write enable only. -/
theorem next_pmpAddr (P : CsrParams) (s : CsRegs n) (x : CsRegsIn) (i : Fin n) :
    (s.next P x).pmpAddr i = if s.pmpAddrWe P x i then s.csrWdataInt P x else s.pmpAddr i := by
  rw [next, (trapped_pmp s x _).2]
  rfl

/-- A locked configuration is not written. -/
theorem pmpCfg_of_lock (h : (s.pmpCfg i).lock = true) :
    (s.next P x).pmpCfg i = s.pmpCfg i := by
  have hwe : s.pmpCfgWe P x i = false := by simp [pmpCfgWe, h]
  rw [next_pmpCfg, hwe, if_neg Bool.false_ne_true]

/-- The address of a locked region is not written. -/
theorem pmpAddr_of_lock (h : (s.pmpCfg i).lock = true) :
    (s.next P x).pmpAddr i = s.pmpAddr i := by
  have hwe : s.pmpAddrWe P x i = false := by simp [pmpAddrWe, h]
  rw [next_pmpAddr, hwe, if_neg Bool.false_ne_true]

/-- The address below a region in TOR mode is not written, whether or not the region is
locked. -/
theorem pmpAddr_of_tor (hij : j.val + 1 = i.val) (h : (s.pmpCfg i).mode = .tor) :
    (s.next P x).pmpAddr j = s.pmpAddr j := by
  have hlt : j.val < n - 1 := by have := i.isLt; omega
  have hmode : (s.pmpCfg ⟨j.val + 1, by omega⟩).mode = .tor := by
    rw [← h]
    exact congrArg (fun k => (s.pmpCfg k).mode) (Fin.ext hij)
  have hwe : s.pmpAddrWe P x j = false := by simp [pmpAddrWe, hlt, hmode]
  rw [next_pmpAddr, hwe, if_neg Bool.false_ne_true]

/-! ### Runs -/

/-- The region `i` is as it was locked in `s₀`: its configuration, its address and, in TOR
mode, the address below. -/
structure Pinned (s₀ : CsRegs n) (i : Fin n) (s : CsRegs n) : Prop where
  cfg : s.pmpCfg i = s₀.pmpCfg i
  addr : s.pmpAddr i = s₀.pmpAddr i
  below : (s₀.pmpCfg i).mode = .tor → ∀ j : Fin n, j.val + 1 = i.val →
    s.pmpAddr j = s₀.pmpAddr j

/-- One cycle keeps a locked region as it is. -/
theorem pinned_next {s₀ : CsRegs n} (hlock : (s₀.pmpCfg i).lock = true) (h : Pinned s₀ i s) :
    Pinned s₀ i (s.next P x) := by
  have hs : (s.pmpCfg i).lock = true := by rw [h.cfg, hlock]
  refine ⟨(pmpCfg_of_lock hs).trans h.cfg, (pmpAddr_of_lock hs).trans h.addr, ?_⟩
  intro htor j hj
  have hmode : (s.pmpCfg i).mode = .tor := by rw [h.cfg, htor]
  exact (pmpAddr_of_tor hj hmode).trans (h.below htor j hj)

/-- A region that is locked in a state stays as it is in every run from there. -/
theorem pinned_run {s₀ : CsRegs n} (hlock : (s₀.pmpCfg i).lock = true) (ins : List CsRegsIn) :
    Pinned s₀ i (Machine.run (next P) s₀ ins) :=
  Machine.run_invariant (Pinned s₀ i) (fun _ _ => pinned_next hlock) ins
    ⟨rfl, rfl, fun _ _ _ => rfl⟩

/-- **PMP lock.** Once a region is locked in a state reached from reset, its configuration
and address have their values in every later state, and in TOR mode so does the address of
the region below. -/
theorem pmp_lock_permanent (P : CsrParams) (pre ins : List CsRegsIn) (i : Fin n)
    (hlock : ((Machine.run (next P) (reset n) pre).pmpCfg i).lock = true) :
    let s := Machine.run (next P) (reset n) pre
    let t := Machine.run (next P) (reset n) (pre ++ ins)
    t.pmpCfg i = s.pmpCfg i ∧ t.pmpAddr i = s.pmpAddr i ∧
      ((s.pmpCfg i).mode = .tor → ∀ j : Fin n, j.val + 1 = i.val →
        t.pmpAddr j = s.pmpAddr j) := by
  have h := pinned_run (P := P) hlock ins
  rw [← Machine.run_append] at h
  exact ⟨h.cfg, h.addr, h.below⟩

/-- Region 1 of two, locked in TOR mode over the addresses up to `0x100`; the later writes
to its configuration and to both addresses do nothing. -/
theorem pmp_lock_permanent_tor :
    let P : CsrParams := ⟨false, false, false, 10, true, 0, false, true⟩
    let pre : List CsRegsIn := [.write 0x3B1#12 0x40#32, .write 0x3A0#12 0x8900#32]
    let ins : List CsRegsIn :=
      [.write 0x3A0#12 0#32, .write 0x3B1#12 0x50#32, .write 0x3B0#12 0x20#32]
    let t := Machine.run (next P) (reset 2) (pre ++ ins)
    t.pmpCfg 1 = ⟨true, .tor, false, false, true⟩ ∧ t.pmpAddr 1 = 0x40#32 ∧
      t.pmpAddr 0 = 0#32 := by
  intro P pre ins t
  obtain ⟨hcfg, haddr, hbelow⟩ := pmp_lock_permanent P pre ins (1 : Fin 2) (by decide +kernel)
  refine ⟨hcfg.trans (by decide +kernel), haddr.trans (by decide +kernel), ?_⟩
  exact (hbelow (by decide +kernel) 0 rfl).trans (by decide +kernel)

/-! ### The accesses that a locked region decides -/

/-- The registers as the PMP sees them. -/
def pmpRegions (s : CsRegs n) : Pmp.Regions n := ⟨s.pmpCfg, s.pmpAddr⟩

/-- A region as it was locked starts where it started. -/
theorem startAddr_of_pinned {s₀ : CsRegs n} (h : Pinned s₀ i s) :
    s.pmpRegions.startAddr i = s₀.pmpRegions.startAddr i := by
  have hself : s.pmpRegions.csrPmpAddr i = s₀.pmpRegions.csrPmpAddr i := by
    simp only [Pmp.Regions.csrPmpAddr, pmpRegions, h.addr]
  have hcfg : s.pmpRegions.cfg i = s₀.pmpRegions.cfg i := h.cfg
  simp only [Pmp.Regions.startAddr, hcfg, hself]
  split_ifs with htor hzero
  · rfl
  · have hb := h.below htor ⟨i.val - 1, by omega⟩ (by simp only; omega)
    simp only [Pmp.Regions.csrPmpAddr, pmpRegions, hb]
  · rfl

/-- A locked region matches the same addresses for good. -/
theorem locked_matchBoth {s₀ : CsRegs n} (G : ℕ) (a : BitVec 34)
    (hlock : (s₀.pmpCfg i).lock = true) (ins : List CsRegsIn) :
    (Machine.run (next P) s₀ ins).pmpRegions.matchBoth G i a
      = s₀.pmpRegions.matchBoth G i a := by
  have h := pinned_run (P := P) hlock ins
  have hstart := startAddr_of_pinned h
  have hself : (Machine.run (next P) s₀ ins).pmpRegions.csrPmpAddr i
      = s₀.pmpRegions.csrPmpAddr i := by
    simp only [Pmp.Regions.csrPmpAddr, pmpRegions, h.addr]
  have hcfg : (Machine.run (next P) s₀ ins).pmpRegions.cfg i = s₀.pmpRegions.cfg i := h.cfg
  simp only [Pmp.Regions.matchBoth, Pmp.Regions.matchLow, Pmp.Regions.matchHigh,
    Pmp.Regions.addrMask, hstart, hself, hcfg]

end CocoIbex.CsRegs
