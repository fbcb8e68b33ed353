import CocoIbex.CsrStore
import CocoIbex.PmpLock

/-!
# Writes to the Address of a PMP Region

By the privileged specification a write to `pmpaddr<i>` is ignored in two cases: region `i` is
locked, or region `i + 1` is locked and in TOR mode. `pmp_addr_we` looks at the mode of region
`i + 1` but not at its lock, and so ignores a third kind of write (`pmpaddr_write_iff`).

The rule is stated of the registers at the time of the write (`TakesAddr`), so the result is one
about every legal access in every run from a reset. A write that would store what is there
already is ignored without a difference, and so the exact condition is on the region above
alone, and on the value (`MeetsOpenTor`).

## Main results

* `pmpaddr_write_iff` — every legal write, set or clear of the address of a region is taken as
  the specification says, unless the region above is open and in TOR mode and the value a new
  one.
-/

namespace CocoIbex.CsrFile

variable {n : ℕ} (P : PerfParams) (f : CsrFile n) (x : CsRegsIn × PerfEvents)

/-- A legal write, set or clear of `pmpaddr<i>`, where the region `i` is implemented. -/
def WritesAddr (i : Fin n) : Prop :=
  P.pmpEnable = true ∧
    f.regs.csrWe P.toCsrParams x.1 (CsrNum.offPmpAddr + BitVec.ofNat 12 i) = true

/-- A `pmpaddr` register that is written takes the new value, unless it is locked. -/
def TakesAddr : Prop :=
  ∀ i : Fin n, f.WritesAddr P x i →
    (f.next P x.1 x.2).regs.pmpAddr i
      = if f.regs.pmpAddrLocked i then f.regs.pmpAddr i else f.csrWdataInt P x.1

/-- A write of another value to a `pmpaddr` register meets an open region below an open
region in TOR mode. -/
def MeetsOpenTor : Prop :=
  ∃ i : Fin n, f.WritesAddr P x i ∧ DropsAddr P f i ∧ f.csrWdataInt P x.1 ≠ f.regs.pmpAddr i

variable {P f x}

/-- What a write to the address of a region leaves there. -/
theorem pmpAddr_next_of_writesAddr {i : Fin n} (hw : f.WritesAddr P x i) :
    (f.next P x.1 x.2).regs.pmpAddr i = f.csrWdataInt P x.1 ∧
        f.regs.pmpAddrLocked i = false ∧ ¬ DropsAddr P f i ∨
      (f.next P x.1 x.2).regs.pmpAddr i = f.regs.pmpAddr i ∧
        (f.regs.pmpAddrLocked i = true ∨ DropsAddr P f i) := by
  obtain ⟨hen, hwe⟩ := hw
  have hnext : (f.next P x.1 x.2).regs.pmpAddr i
      = if f.regs.pmpAddrWe P.toCsrParams (f.wired P x.1) i then f.csrWdataInt P x.1
        else f.regs.pmpAddr i := CsRegs.next_pmpAddr ..
  have hiff := pmpAddrWe_iff (x := f.wired P x.1) hwe
  rw [hnext]
  by_cases hopen : f.regs.pmpAddrLocked i = false ∧ ¬ DropsAddr P f i
  · rw [if_pos (hiff.mpr ⟨hen, hopen⟩)]
    exact Or.inl ⟨rfl, hopen⟩
  · rw [if_neg fun h => hopen (hiff.mp h).2]
    refine Or.inr ⟨rfl, ?_⟩
    rw [not_and_or, Bool.not_eq_false, not_not] at hopen
    exact hopen

/-- Every write is taken or locked unless one meets an open region in TOR mode. -/
theorem takesAddr_iff : f.TakesAddr P x ↔ ¬ f.MeetsOpenTor P x := by
  constructor
  · rintro h ⟨i, hw, hd, hne⟩
    have htake := h i hw
    rw [hd.not_locked.2, if_neg Bool.false_ne_true] at htake
    obtain ⟨-, -, hno⟩ | ⟨hkeep, -⟩ := pmpAddr_next_of_writesAddr hw
    · exact hno hd
    · exact hne (htake.symm.trans hkeep)
  · intro h i hw
    obtain ⟨htake, hopen, -⟩ | ⟨hkeep, hlock | hd⟩ := pmpAddr_next_of_writesAddr hw
    · rw [htake, hopen, if_neg Bool.false_ne_true]
    · rw [hkeep, hlock, if_pos rfl]
    · rw [hkeep, hd.not_locked.2, if_neg Bool.false_ne_true]
      by_contra hne
      exact h ⟨i, hw, hd, Ne.symm hne⟩

/-- **Writes to `pmpaddr`.** In a run from reset every legal write, set or clear of the address
of a region is taken unless the region is locked, or is the lower end of a locked region in TOR
mode, if and only if no write of another value meets an open region below an open region in
TOR mode. -/
theorem pmpaddr_write_iff (P : PerfParams) (ins : List (CsRegsIn × PerfEvents)) :
    Machine.Along (fun f x => f.next P x.1 x.2) (TakesAddr P) (reset n) ins ↔
      Machine.Along (fun f x => f.next P x.1 x.2) (fun f x => ¬ f.MeetsOpenTor P x) (reset n) ins :=
  Machine.along_congr (fun _ => True) (fun _ _ _ => trivial)
    (fun _ _ _ => takesAddr_iff) trivial ins

/-- Region 1 is put in TOR mode and not locked, then the address of region 0 is written. -/
def belowOpenTor : List (CsRegsIn × PerfEvents) :=
  [(.write CsrNum.offPmpCfg 0x0800#32, .none), (.write CsrNum.offPmpAddr 0x20#32, .none)]

/-- The address of region 0 stays zero although nothing is locked. -/
theorem belowOpenTor_ignored :
    let f := Machine.run (fun f x => f.next smallParams x.1 x.2) (reset 4) belowOpenTor
    f.regs.pmpAddr 0 = 0#32 ∧ (∀ i, (f.regs.pmpCfg i).lock = false) ∧
      ¬ Machine.Along (fun f x => f.next smallParams x.1 x.2) (TakesAddr smallParams) (reset 4)
        belowOpenTor := by
  refine ⟨by decide, by decide, fun h => ?_⟩
  have htake := h.2.1 0 ⟨rfl, by decide⟩
  revert htake
  decide

end CocoIbex.CsrFile
