import CocoIbex.SingleStep

/-!
# Well-Formed Control and Status Registers

Some fields of the CSRs do not take every value: the privilege levels are M or U, the vector
table is aligned and vectored, the addresses of instructions are even, a PMP region is writable
only where it is readable, and the fields of `dcsr` that are not implemented are hardwired.
Software is held to this by what each register stores of a write. Trap entries, returns and
debug entries copy the fields among each other, so that the values stay legal in every order of
them.

`WellFormed` is the list of these rules, one field of the structure for each. The addresses need
one thing from outside, that a trap saves an even PC (`EvenPc`). The register block does not
check that; for the runs of the hart it is proved, from the fetch address register, which drops
the lowest bit of every target.

## Main results

* `WellFormed.next` — the step lemma, for any write, trap, return and debug entry;
* `CsRegs.wellFormed_run` — after any run of the registers the values are legal, and with the
  hart in front of them the addresses are even without further assumption.
-/

namespace CocoIbex

/-- The two privilege levels that are implemented. -/
def PrivLvl.Supported (p : PrivLvl) : Prop := p = .m ∨ p = .u

/-- There are two levels to compare with. -/
instance (p : PrivLvl) : Decidable p.Supported := inferInstanceAs (Decidable (_ ∨ _))

/-- `dcsr` with its fixed fields and a supported level. -/
structure Dcsr.WellFormed (d : Dcsr) : Prop where
  xdebugver : d.xdebugver = 4#4
  zero2 : d.zero2 = 0#12
  zero1 : d.zero1 = false
  zero0 : d.zero0 = false
  stopcount : d.stopcount = false
  stoptime : d.stoptime = false
  mprven : d.mprven = false
  nmip : d.nmip = false
  prv : d.prv.Supported

/-- A debug entry sets two fields. -/
theorem Dcsr.WellFormed.enter {d : Dcsr} (h : d.WellFormed) {p : PrivLvl} (hp : p.Supported)
    (c : BitVec 3) : Dcsr.WellFormed { d with prv := p, cause := c } :=
  { h with prv := hp }

/-- A PMP configuration that is readable where it is writable, and is not NA4 where the
granularity is coarser than a word. -/
structure PmpCfg.WellFormed (G : ℕ) (c : PmpCfg) : Prop where
  write : c.write = true → c.read = true
  mode : 0 < G → c.mode ≠ .na4

/-- `mtvec` in vectored mode with the table aligned to 256 bytes. -/
structure MtvecAligned (w : BitVec 32) : Prop where
  base : w.extractLsb' 2 6 = 0#6
  mode : w.extractLsb' 0 2 = 0b01#2

/-- An address of an instruction. -/
def EvenAddr (w : BitVec 32) : Prop := w.getLsbD 0 = false

/-- It is one bit. -/
instance (w : BitVec 32) : Decidable (EvenAddr w) := inferInstanceAs (Decidable (_ = _))

/-- The address that a trap saves is that of an instruction. -/
def CsRegsIn.EvenPc (x : CsRegsIn) : Prop :=
  x.csrSaveCause = true → EvenAddr (CsRegs.exceptionPc x)

/-- It is one bit of the input. -/
instance (x : CsRegsIn) : Decidable x.EvenPc := inferInstanceAs (Decidable (_ → _))

namespace CsRegs

variable {n : ℕ}

/-- The registers have legal values. -/
structure WellFormed (G : ℕ) (s : CsRegs n) : Prop where
  privLvl : s.privLvl.Supported
  mpp : s.mstatus.mpp.Supported
  mstackMpp : s.mstack.mpp.Supported
  mtvec : MtvecAligned s.mtvec
  mepc : EvenAddr s.mepc
  depc : EvenAddr s.depc
  mstackEpc : EvenAddr s.mstackEpc
  dcsr : s.dcsr.WellFormed
  pmpCfg : ∀ i, (s.pmpCfg i).WellFormed G

/-! ### What a CSR instruction stores -/

/-- What is left of a level is a supported one. -/
theorem legal_supported (p : PrivLvl) : p.legal.Supported := by
  cases p <;> decide

/-- A write of `dcsr` stores a supported level. -/
theorem ofWdata_dcsr (w : BitVec 32) : (Dcsr.ofWdata w).WellFormed where
  xdebugver := rfl
  zero2 := rfl
  zero1 := rfl
  zero0 := rfl
  stopcount := rfl
  stoptime := rfl
  mprven := rfl
  nmip := rfl
  prv := legal_supported _

/-- A write of a configuration stores one that the granularity has. -/
theorem ofWdata_pmpCfg (G : ℕ) (w : BitVec 32) (lo : ℕ) : (PmpCfg.ofWdata G w lo).WellFormed G where
  write := by simp [PmpCfg.ofWdata]
  mode := by
    intro hG
    simp only [PmpCfg.ofWdata]
    split
    · simp
    · simp
    · simp [hG.ne']
    · simp

/-- A base with its low bits cleared and the vectored mode is aligned. -/
theorem mtvecAligned_append (base : BitVec 24) : MtvecAligned (base ++ 0#6 ++ 0b01#2) where
  base := by
    rw [BitVec.extractLsb'_append_eq_of_le (by decide)]
    exact BitVec.extractLsb'_append_eq_right
  mode := BitVec.extractLsb'_append_eq_right

/-- So is the reset value. -/
theorem mtvecAligned_one : MtvecAligned 1#32 := ⟨by decide, by decide⟩

/-- Zero is even. -/
theorem evenAddr_zero : EvenAddr 0#32 := by decide

/-- An address with a zero bit at its end is even. -/
theorem evenAddr_append (a : BitVec 31) : EvenAddr (a ++ 0#1) := Hart.getLsbD_append_zero a

variable {G : ℕ} {P : CsrParams} {s w : CsRegs n} {x : CsRegsIn}

/-- The registers are well formed after reset. -/
theorem wellFormed_reset (n G : ℕ) : (reset n).WellFormed G where
  privLvl := Or.inl rfl
  mpp := Or.inr rfl
  mstackMpp := Or.inr rfl
  mtvec := mtvecAligned_one
  mepc := evenAddr_zero
  depc := evenAddr_zero
  mstackEpc := evenAddr_zero
  dcsr := { ofWdata_dcsr 0#32 with prv := Or.inl rfl }
  pmpCfg := fun _ => ⟨fun h => h, fun _ h => nomatch h⟩

/-- A CSR instruction stores legal values. -/
theorem WellFormed.written (h : s.WellFormed P.pmpGranularity) :
    (s.written P x).WellFormed P.pmpGranularity where
  privLvl := h.privLvl
  mpp := by
    simp only [CsRegs.written]
    split_ifs
    · exact legal_supported _
    · exact h.mpp
  mstackMpp := h.mstackMpp
  mtvec := by
    simp only [CsRegs.written]
    split_ifs
    · exact mtvecAligned_append _
    · exact mtvecAligned_append _
    · exact h.mtvec
  mepc := by
    simp only [CsRegs.written]
    split_ifs
    · exact evenAddr_append _
    · exact h.mepc
  depc := by
    simp only [CsRegs.written]
    split_ifs
    · exact evenAddr_append _
    · exact h.depc
  mstackEpc := h.mstackEpc
  dcsr := by
    simp only [CsRegs.written]
    split_ifs
    · exact ofWdata_dcsr _
    · exact h.dcsr
  pmpCfg := by
    intro i
    simp only [CsRegs.written]
    split_ifs
    · exact ofWdata_pmpCfg ..
    · exact h.pmpCfg i

/-! ### What traps and returns copy -/

/-- Traps and returns copy legal values. -/
theorem WellFormed.trapped (h : s.WellFormed G) (hw : w.WellFormed G) (hx : x.EvenPc) :
    (trapped s x w).WellFormed G := by
  have hm : PrivLvl.Supported .m := Or.inl rfl
  rw [CsRegs.trapped]
  split
  next hc =>
    have hpc : EvenAddr (exceptionPc x) := hx hc
    split
    · exact { hw with
        privLvl := hm
        dcsr := hw.dcsr.enter h.privLvl _
        depc := hpc }
    · split
      · exact { hw with
          privLvl := hm
          mpp := h.privLvl
          mepc := hpc
          mstackMpp := h.mpp
          mstackEpc := h.mepc }
      · exact { hw with privLvl := hm }
  next =>
    split
    · exact { hw with privLvl := h.dcsr.prv }
    · split
      · split
        · exact { hw with
            privLvl := h.mpp
            mpp := h.mstackMpp
            mepc := h.mstackEpc }
        · exact { hw with
            privLvl := h.mpp
            mpp := Or.inr rfl }
      · exact hw

/-- **Step lemma.** The registers stay well formed in every cycle with an even PC, whatever is
written. -/
theorem WellFormed.next (h : s.WellFormed P.pmpGranularity) (hx : x.EvenPc) :
    (s.next P x).WellFormed P.pmpGranularity :=
  h.trapped h.written hx

end CsRegs

/-- The addresses that the hart saves are those of instructions. -/
theorem Hart.evenPc_csrIn {n : ℕ} {P : HartParams} {h : Hart n} (he : h.EvenPcs) (x : HartIn) :
    (h.csrIn P x).EvenPc := by
  intro hc
  have hif : EvenAddr h.pcIf := Hart.getLsbD_append_zero _
  have hwb : (h.csrIn P x).csrSaveWb = false := rfl
  rw [CsRegs.exceptionPc, if_pos hc, hwb]
  split
  · exact hif
  · split
    · exact he.pcId
    · exact he.pcId

/-- **Well-formed registers.** After any run of the registers with CSR instructions, traps,
returns and debug entries of all kinds their values are legal, provided that the addresses
that traps save are those of instructions, which they are in every run of the hart. -/
theorem CsRegs.wellFormed_run (P : HartParams) (n : ℕ) :
    (∀ ins : List CsRegsIn, (∀ x ∈ ins, x.EvenPc) →
      (Machine.run (CsRegs.next P.toCsrParams) (CsRegs.reset n) ins).WellFormed
        P.pmpGranularity) ∧
      ∀ (a : BitVec 31) (ins : List HartIn) (x : HartIn),
        ((Machine.run (Hart.next P) (Hart.reset n a) ins).csrIn P x).EvenPc := by
  constructor
  · intro ins hins
    induction ins using List.reverseRecOn with
    | nil => exact wellFormed_reset n _
    | append_singleton ins x ih =>
        rw [Machine.run_concat]
        refine (ih fun y hy => hins y ?_).next (hins x ?_)
        · exact List.mem_append_left _ hy
        · simp
  · intro a ins x
    have hzero : (0#32).getLsbD 0 = false := by decide
    exact Hart.evenPc_csrIn
      (Machine.run_invariant Hart.EvenPcs (fun _ _ => Hart.evenPcs_next) ins ⟨hzero, hzero⟩) x

end CocoIbex
