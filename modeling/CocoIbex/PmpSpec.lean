import CocoIbex.Pmp
import CocoIbex.Priority

/-!
# PMP Decisions against the Privileged Specification

The matching rules of the RISC-V Privileged Specification 1.11, section 3.6.1, on byte
addresses: `SpecMatch` for one region, `SpecErr` for the decision. The circuit counts two kinds
of addresses differently:

* the last granule of a TOR region, which `region_match_high` includes;
* the part of a NAPOT range above the register itself, which `region_match_high` cuts off, and,
  when the register encodes a range of exactly one granule, the granules below it that
  `region_addr_mask` lets in.

`Miscounts` names these addresses, `matchBoth_iff_xor` shows that there are no others, and
`pmpReqErr_eq_specErr_iff` says exactly when the decision is the specified one.

A region that miscounts an address need not change the decision. A region of a lower number may
decide first, or the next one that matches may decide the same way. So the exact condition
compares two static priorities whose matches differ in a known set of entries
(`outcome_exchange_iff`).

## Main results

* `matchBoth_iff_xor` — the circuit and the specification match the same addresses but for those
  that it miscounts;
* `pmpReqErr_eq_specErr_iff` — when the decision is the specified one, for every number of
  regions, every granularity, configuration and access.
-/

namespace CocoIbex.Pmp

variable {n : ℕ}

/-! ### The specified decision -/

/-- The value a `pmpaddr` register has for its region: with granularity `G` the low `G`
bits read as zero in OFF and TOR mode, and in NAPOT mode the low `G - 1` bits as one. -/
def pmpaddrView (G : ℕ) (mode : PmpCfgMode) (p : ℕ) : ℕ :=
  match mode with
  | .off | .tor => p / 2 ^ G * 2 ^ G
  | .na4 => p
  | .napot => p ||| (2 ^ (G - 1) - 1)

/-- The region before one that is not the first. -/
theorem pred_lt {r : Fin n} (h : r.val ≠ 0) : r.val - 1 < n :=
  Nat.lt_trans (Nat.sub_one_lt h) r.isLt

/-- The first word of a TOR region, the TOR view of the previous register. -/
def Regions.torBase (c : Regions n) (G : ℕ) (r : Fin n) : ℕ :=
  if h : r.val = 0 then 0 else pmpaddrView G .tor (c.addr ⟨r.val - 1, pred_lt h⟩).toNat

/-- Region `r` matches byte address `a`: TOR is `pmpaddr[r-1] ≤ a < pmpaddr[r]`, NA4 one
word, NAPOT the naturally aligned range of `2 ^ (k + 3)` bytes encoded by `k` trailing
ones. -/
def Regions.SpecMatch (c : Regions n) (G : ℕ) (r : Fin n) (a : ℕ) : Prop :=
  let p := pmpaddrView G (c.cfg r).mode (c.addr r).toNat
  match (c.cfg r).mode with
  | .off => False
  | .tor => 4 * c.torBase G r ≤ a ∧ a < 4 * p
  | .na4 => 4 * p ≤ a ∧ a < 4 * p + 4
  | .napot => ∃ k, Bits.TrailingOnes p k ∧ a / 2 ^ (k + 3) = 4 * p / 2 ^ (k + 3)

/-- The permission bit an access of the given type needs. -/
def PmpCfg.permits (cfg : PmpCfg) : PmpReq → Prop
  | .exec => cfg.exec = true
  | .write => cfg.write = true
  | .read => cfg.read = true

/-- A matching region denies an access without the permission, in machine mode only if
the region is locked. -/
def SpecDenies (cfg : PmpCfg) (q : Access) : Prop :=
  (q.priv = .m → cfg.lock = true) ∧ ¬ PmpCfg.permits cfg q.type

/-- The specified decision: the lowest-numbered matching region, and without one a fault
in every mode but machine mode. -/
def SpecErr (c : Regions n) (G : ℕ) (q : Access) : Prop :=
  Priority.Outcome (fun r => c.SpecMatch G r q.addr.toNat) (fun r => SpecDenies (c.cfg r) q)
    (q.priv ≠ .m)

/-- The permission check of the circuit is the specified one. -/
theorem regionFault_iff (cfg : PmpCfg) (q : Access) :
    regionFault cfg q = true ↔ SpecDenies cfg q := by
  simp only [regionFault, SpecDenies, permCheck, PmpCfg.permits]
  cases q.type <;> by_cases h : q.priv = .m <;> simp [h]

/-! ### The miscounted addresses -/

/-- Region `r` counts address `a` differently from the specification. A NAPOT register
encodes more than one granule exactly when bit `G - 1` is set (always for `G = 0`). -/
def Regions.Miscounts (c : Regions n) (G : ℕ) (r : Fin n) (a : ℕ) : Prop :=
  let g := a / 2 ^ (G + 2)
  match (c.cfg r).mode with
  | .off => False
  | .tor => c.bottom G r ≤ g ∧ g = c.top G r
  | .na4 => g = c.top G r ∧ a / 4 ≠ (c.addr r).toNat
  | .napot => ∃ k, Bits.TrailingOnes (c.top G r) k ∧
      if G = 0 ∨ (c.addr r).toNat.testBit (G - 1) = true then
        g / 2 ^ (k + 1) = c.top G r / 2 ^ (k + 1) ∧ c.top G r < g
      else c.top G r / 2 ^ (k + 1) * 2 ^ (k + 1) ≤ g ∧ g < c.top G r

/-- A byte address against a bound given in granules. -/
theorem granule_le_iff (G b a : ℕ) : 4 * (b * 2 ^ G) ≤ a ↔ b ≤ a / 2 ^ (G + 2) := by
  rw [Nat.le_div_iff_mul_le (Nat.two_pow_pos _), pow_add]
  constructor <;> intro h <;> nlinarith

/-- Blocks of granules are blocks of bytes. -/
theorem block_eq_iff (G j a p : ℕ) :
    a / 2 ^ (G + j + 2) = 4 * p / 2 ^ (G + j + 2) ↔
      a / 2 ^ (G + 2) / 2 ^ j = p / 2 ^ G / 2 ^ j := by
  have h4 : 4 * p / 2 ^ (G + j + 2) = p / 2 ^ G / 2 ^ j := by
    rw [Nat.div_div_eq_div_mul, ← pow_add, pow_add 2 (G + j) 2, Nat.mul_comm (2 ^ (G + j)),
      show (2 : ℕ) ^ 2 = 4 from rfl, Nat.mul_div_mul_left _ _ (by omega)]
  rw [h4, Nat.div_div_eq_div_mul a, ← pow_add, show G + 2 + j = G + j + 2 by omega]

/-- The NAPOT view of a register that encodes more than one granule: all bits below the
granularity are ones. -/
theorem napotView_of_wide {G p : ℕ} (h : G = 0 ∨ p.testBit (G - 1) = true) :
    pmpaddrView G .napot p = p / 2 ^ G * 2 ^ G + (2 ^ G - 1) := by
  rw [pmpaddrView, Bits.or_two_pow_sub_one]
  cases G with
  | zero => simp
  | succ g =>
      have hbit : p / 2 ^ g % 2 = 1 := by
        have hb : p.testBit g = true := by simpa using h
        simpa [Nat.testBit_eq_decide_div_mod_eq] using hb
      have hdiv : p / 2 ^ g = 2 * (p / 2 ^ (g + 1)) + 1 := by
        rw [pow_succ, ← Nat.div_div_eq_div_mul]
        omega
      have hpos := Nat.one_le_two_pow (n := g)
      rw [Nat.add_sub_cancel, hdiv, pow_succ]
      have hexp : (2 * (p / (2 ^ g * 2)) + 1) * 2 ^ g
          = p / (2 ^ g * 2) * (2 ^ g * 2) + 2 ^ g := by ring
      omega

/-- The NAPOT view of a register that encodes one granule. -/
theorem napotView_of_narrow {G p : ℕ} (h : ¬ (G = 0 ∨ p.testBit (G - 1) = true)) :
    pmpaddrView G .napot p = p / 2 ^ G * 2 ^ G + (2 ^ (G - 1) - 1) := by
  rw [pmpaddrView, Bits.or_two_pow_sub_one]
  cases G with
  | zero => exact absurd (Or.inl rfl) h
  | succ g =>
      have hbit : p / 2 ^ g % 2 = 0 := by
        have hb : p.testBit g = false := by simpa using h
        simpa [Nat.testBit_eq_decide_div_mod_eq] using hb
      have hdiv : p / 2 ^ g = 2 * (p / 2 ^ (g + 1)) := by
        rw [pow_succ, ← Nat.div_div_eq_div_mul]
        omega
      rw [Nat.add_sub_cancel, hdiv, pow_succ]
      congr 1
      ring

/-- The specified NAPOT range of a wide register, in granules. -/
theorem napot_wide_iff {G p k a : ℕ} (h : G = 0 ∨ p.testBit (G - 1) = true)
    (hk : Bits.TrailingOnes (p / 2 ^ G) k) :
    (∃ l, Bits.TrailingOnes (pmpaddrView G .napot p) l ∧
        a / 2 ^ (l + 3) = 4 * pmpaddrView G .napot p / 2 ^ (l + 3)) ↔
      a / 2 ^ (G + 2) / 2 ^ (k + 1) = p / 2 ^ G / 2 ^ (k + 1) := by
  have hrun := hk.append G
  have hlow : (p / 2 ^ G * 2 ^ G + (2 ^ G - 1)) / 2 ^ G = p / 2 ^ G := by
    rw [Nat.mul_comm, Nat.mul_add_div (Nat.two_pow_pos G),
      Nat.div_eq_of_lt (Nat.sub_lt (Nat.two_pow_pos G) Nat.one_pos), Nat.add_zero]
  rw [napotView_of_wide h]
  have hblock := block_eq_iff G (k + 1) a (p / 2 ^ G * 2 ^ G + (2 ^ G - 1))
  rw [hlow] at hblock
  rw [← hblock]
  constructor
  · rintro ⟨l, hl, heq⟩
    rwa [hl.unique hrun] at heq
  · exact fun heq => ⟨G + k, hrun, heq⟩

/-- The specified NAPOT range of a narrow register is its granule. -/
theorem napot_narrow_iff {G p a : ℕ} (h : ¬ (G = 0 ∨ p.testBit (G - 1) = true)) :
    (∃ l, Bits.TrailingOnes (pmpaddrView G .napot p) l ∧
        a / 2 ^ (l + 3) = 4 * pmpaddrView G .napot p / 2 ^ (l + 3)) ↔
      a / 2 ^ (G + 2) = p / 2 ^ G := by
  have hG : G - 1 + 1 = G := by omega
  have hrun : Bits.TrailingOnes (p / 2 ^ G * 2 ^ G + (2 ^ (G - 1) - 1)) (G - 1) :=
    Bits.trailingOnes_iff.mpr ⟨p / 2 ^ G, by rw [hG]⟩
  have hlt : 2 ^ (G - 1) - 1 < 2 ^ G := by
    have := Nat.one_le_two_pow (n := G - 1)
    have : 2 ^ G = 2 * 2 ^ (G - 1) := by rw [← pow_succ', hG]
    omega
  have hlow : (p / 2 ^ G * 2 ^ G + (2 ^ (G - 1) - 1)) / 2 ^ G = p / 2 ^ G := by
    rw [Nat.mul_comm, Nat.mul_add_div (Nat.two_pow_pos G), Nat.div_eq_of_lt hlt, Nat.add_zero]
  rw [napotView_of_narrow h]
  have hblock := block_eq_iff G 0 a (p / 2 ^ G * 2 ^ G + (2 ^ (G - 1) - 1))
  rw [hlow] at hblock
  simp only [Nat.add_zero, pow_zero, Nat.div_one] at hblock
  rw [← hblock]
  have hexp : G - 1 + 3 = G + 2 := by omega
  constructor
  · rintro ⟨l, hl, heq⟩
    rwa [hl.unique hrun, hexp] at heq
  · exact fun heq => ⟨G - 1, hrun, by rwa [hexp]⟩

/-- A number of the block of `p` reaches at most the register exactly when it lies between
the start of the block and the register. -/
theorem block_le_iff {p k g : ℕ} :
    p / 2 ^ (k + 1) * 2 ^ (k + 1) ≤ g ∧ g ≤ p ↔
      g / 2 ^ (k + 1) = p / 2 ^ (k + 1) ∧ g ≤ p := by
  refine and_congr_left fun hgp => ⟨fun hlo => ?_, fun heq => ?_⟩
  · exact le_antisymm (Nat.div_le_div_right hgp)
      ((Nat.le_div_iff_mul_le (Nat.two_pow_pos _)).mpr hlo)
  · exact (Nat.le_div_iff_mul_le (Nat.two_pow_pos _)).mp heq.ge

/-- The comparators accept exactly the specified addresses, the miscounted ones
exchanged. -/
theorem matchBoth_iff_xor (c : Regions n) (G : ℕ) (r : Fin n) (a : BitVec 34) :
    c.matchBoth G r a = true ↔ ¬ (c.SpecMatch G r a.toNat ↔ c.Miscounts G r a.toNat) := by
  rw [matchBoth_iff]
  simp only [Regions.HwMatch, Regions.SpecMatch, Regions.Miscounts]
  cases h : (c.cfg r).mode with
  | off => simp
  | tor =>
      have hbase : 4 * c.torBase G r ≤ a.toNat ↔ c.bottom G r ≤ a.toNat / 2 ^ (G + 2) := by
        rw [Regions.torBase, Regions.bottom]
        split
        · simp
        · exact granule_le_iff G _ _
      have htop : a.toNat < 4 * pmpaddrView G .tor (c.addr r).toNat ↔
          a.toNat / 2 ^ (G + 2) < c.top G r :=
        lt_iff_lt_of_le_iff_le (granule_le_iff G _ _)
      simp only [hbase, htop]
      omega
  | na4 =>
      have hword : (4 * (c.addr r).toNat ≤ a.toNat ∧ a.toNat < 4 * (c.addr r).toNat + 4) ↔
          a.toNat / 4 = (c.addr r).toNat := by omega
      have hgran : a.toNat / 4 = (c.addr r).toNat → a.toNat / 2 ^ (G + 2) = c.top G r := by
        intro heq
        rw [Regions.top, ← heq, Nat.div_div_eq_div_mul, pow_add, Nat.mul_comm (2 ^ G)]
        rfl
      simp only [pmpaddrView, hword]
      constructor
      · exact fun hg hx => (Classical.em _).elim (fun he => (hx.mp he).2 he)
          fun he => he (hx.mpr ⟨hg, he⟩)
      · intro hx
        by_contra hg
        exact hx ⟨fun he => absurd (hgran he) hg, fun he => absurd he.1 hg⟩
  | napot =>
      obtain ⟨k, hk⟩ := Bits.exists_trailingOnes (c.top G r)
      have huniq : ∀ {P : ℕ → Prop}, (∃ l, Bits.TrailingOnes (c.top G r) l ∧ P l) ↔ P k := by
        intro P
        constructor
        · rintro ⟨l, hl, hP⟩
          rwa [hk.unique hl]
        · intro hP
          exact ⟨k, hk, hP⟩
      simp only [huniq]
      by_cases hw : G = 0 ∨ (c.addr r).toNat.testBit (G - 1) = true
      · rw [napot_wide_iff hw hk, if_pos hw, block_le_iff]
        simp only [Regions.top]
        omega
      · rw [napot_narrow_iff hw, if_neg hw]
        have hself : c.top G r / 2 ^ (k + 1) * 2 ^ (k + 1) ≤ c.top G r :=
          Nat.div_mul_le_self _ _
        simp only [Regions.top] at hself ⊢
        omega

/-! ### When the decision is the specified one -/

/-- The decision of the circuit, with the miscounted addresses exchanged. -/
theorem pmpReqErr_iff (c : Regions n) (G : ℕ) (q : Access) :
    pmpReqErr c G q = true ↔
      Priority.Outcome
        (fun r => ¬ (c.SpecMatch G r q.addr.toNat ↔ c.Miscounts G r q.addr.toNat))
        (fun r => SpecDenies (c.cfg r) q) (q.priv ≠ .m) := by
  rw [pmpReqErr, accessFault, Priority.foldr_eq_true_iff]
  simp only [matchBoth_iff_xor, regionFault_iff, bne_iff_ne]

/-- A single TOR region over the first four words, open to every access. -/
def firstFourWords : Regions 1 where
  cfg _ := { lock := false, mode := .tor, exec := true, write := true, read := true }
  addr _ := 4#32

/-- The word behind the TOR region: a user mode read of address 16 is let through, where
no region matches it. -/
theorem pmpReqErr_behind_tor :
    ¬ (pmpReqErr firstFourWords 0 ⟨.u, .read, 16#34⟩ = true ↔
      SpecErr firstFourWords 0 ⟨.u, .read, 16#34⟩) := by
  have hcode : pmpReqErr firstFourWords 0 ⟨.u, .read, 16#34⟩ = false := by decide
  have hspec : SpecErr firstFourWords 0 ⟨.u, .read, 16#34⟩ := by
    refine Or.inr ⟨fun r hm => ?_, by simp⟩
    have hlt : (16 : ℕ) < 4 * (4 / 2 ^ 0 * 2 ^ 0) := hm.2
    omega
  simp [hcode, hspec]

/-- **The PMP decision.** For every number of regions, granularity, configuration and
access, the error is the one of the Privileged Specification exactly when the first
region that counts the address in either reading does not miscount it, or has the verdict
that the regions after it reach. -/
theorem pmpReqErr_eq_specErr_iff (c : Regions n) (G : ℕ) (q : Access) :
    (pmpReqErr c G q = true ↔ SpecErr c G q) ↔
      ∀ r, Priority.First
          (fun s => c.SpecMatch G s q.addr.toNat ∨ c.Miscounts G s q.addr.toNat) r →
        c.Miscounts G r q.addr.toNat →
        (SpecDenies (c.cfg r) q ↔
          Priority.Outcome
            (Priority.RestOf (fun s => c.SpecMatch G s q.addr.toNat)
              (fun s => c.Miscounts G s q.addr.toNat) r)
            (fun s => SpecDenies (c.cfg s) q) (q.priv ≠ .m)) := by
  rw [pmpReqErr_iff, SpecErr, Priority.outcome_exchange_iff]

end CocoIbex.Pmp
