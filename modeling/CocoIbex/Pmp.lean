import Mathlib.Data.List.FinRange
import CocoIbex.Bits
import CocoIbex.Pkg

/-!
# The Physical Memory Protection Unit

`ibex_pmp` compares the address of an access with every region at once, reusing one pair of
comparators for all matching modes, and lets the lowest-numbered matching region decide.
`pmpReqErr` is that circuit for one access channel.

The addresses have 34 bits, of which an access uses 32, and are compared without the bits below
the granularity. The start address of a region is its own one for NAPOT and that of the region
below it for TOR; a mask ignores the bits that a NAPOT range leaves open. `matchBoth` is the
conjunction of the two comparisons and the mode.

The loop over the regions assigns the decision from the last region to the first, so it is a
static priority, with the default of the privilege mode. The circuit does not know of the number
of regions or of the granularity, which are both parameters here.

## Main results

* `matchBoth_iff` — the match of a region in arithmetic: a TOR region includes its last granule,
  and a NAPOT region stops at its own register.
-/

namespace CocoIbex.Pmp

/-- The registers of the regions as `ibex_cs_registers` drives them to `ibex_pmp`:
`csr_pmp_addr_i` is the stored `pmpaddr` register with two zero bits appended. -/
structure Regions (n : ℕ) where
  cfg : Fin n → PmpCfg
  addr : Fin n → BitVec 32

/-- One access on a checking channel. -/
structure Access where
  priv : PrivLvl
  type : PmpReq
  addr : BitVec 34

variable {n : ℕ}

/-! ### The circuit -/

/-- `csr_pmp_addr_i[r]`, the register with the two low address bits appended. -/
def Regions.csrPmpAddr (c : Regions n) (r : Fin n) : BitVec 34 :=
  c.addr r ++ 0#2

/-- The slice `[33:PMPGranularity+2]` on which the comparators work. -/
def granule (G : ℕ) (a : BitVec 34) : BitVec (32 - G) :=
  a.extractLsb' (G + 2) (32 - G)

/-- `region_start_addr[r]`: for TOR the end of the previous region, zero for region 0. -/
def Regions.startAddr (c : Regions n) (r : Fin n) : BitVec 34 :=
  if (c.cfg r).mode = .tor then
    if h : r.val = 0 then 0#34 else c.csrPmpAddr ⟨r.val - 1, by omega⟩
  else c.csrPmpAddr r

/-- `region_addr_mask[r]`, with bit `b` of the slice at index `b`: in NAPOT mode the
lowest bit is always masked, any other one when all lower bits of the slice are set. -/
def Regions.addrMask (c : Regions n) (G : ℕ) (r : Fin n) : BitVec (32 - G) :=
  Bits.gen (32 - G) fun b =>
    if (c.cfg r).mode = .napot then
      if b = 0 then false
      else !(List.range b).all fun i => (granule G (c.csrPmpAddr r)).getLsbD i
    else true

/-- `region_match_low[c][r]`. -/
def Regions.matchLow (c : Regions n) (G : ℕ) (r : Fin n) (a : BitVec 34) : Bool :=
  (granule G (c.startAddr r) &&& c.addrMask G r).ule (granule G a)

/-- `region_match_high[c][r]`. -/
def Regions.matchHigh (c : Regions n) (G : ℕ) (r : Fin n) (a : BitVec 34) : Bool :=
  (granule G a).ule (granule G (c.csrPmpAddr r))

/-- `region_match_both[c][r]`. -/
def Regions.matchBoth (c : Regions n) (G : ℕ) (r : Fin n) (a : BitVec 34) : Bool :=
  c.matchLow G r a && c.matchHigh G r a && (c.cfg r).mode != .off

/-- `region_perm_check[c][r]`. -/
def permCheck (cfg : PmpCfg) (type : PmpReq) : Bool :=
  (type == .exec && cfg.exec) || (type == .write && cfg.write) || (type == .read && cfg.read)

/-- The fault a matching region decides on: in machine mode only a locked region
without the permission denies, in the other modes any region without it. -/
def regionFault (cfg : PmpCfg) (q : Access) : Bool :=
  if q.priv = .m then cfg.lock && !permCheck cfg q.type else !permCheck cfg q.type

/-- `access_fault[c]`: the loop runs from the last region down to region 0, so that the
assignment of the lowest-numbered matching region is the last one. -/
def accessFault (c : Regions n) (G : ℕ) (q : Access) : Bool :=
  (List.finRange n).foldr
    (fun r fault => if c.matchBoth G r q.addr then regionFault (c.cfg r) q else fault)
    (q.priv != .m)

/-- `pmp_req_err_o[c]`. -/
def pmpReqErr (c : Regions n) (G : ℕ) (q : Access) : Bool :=
  accessFault c G q

/-! ### The comparators as arithmetic -/

/-- The slice is the address in units of `2 ^ (G + 2)` bytes. -/
@[simp] theorem granule_toNat (G : ℕ) (a : BitVec 34) :
    (granule G a).toNat = a.toNat / 2 ^ (G + 2) := by
  have hlt : a.toNat / 2 ^ (G + 2) < 2 ^ (32 - G) := by
    rw [Nat.div_lt_iff_lt_mul (Nat.two_pow_pos _), ← pow_add]
    exact lt_of_lt_of_le a.isLt (Nat.pow_le_pow_right (by omega) (by omega))
  rw [granule, BitVec.extractLsb'_toNat, Nat.shiftRight_eq_div_pow, Nat.mod_eq_of_lt hlt]

/-- The address of a region in bytes. -/
@[simp] theorem csrPmpAddr_toNat (c : Regions n) (r : Fin n) :
    (c.csrPmpAddr r).toNat = 4 * (c.addr r).toNat := by
  have happ : (c.csrPmpAddr r).toNat = (c.addr r).toNat <<< 2 ||| (0#2).toNat :=
    BitVec.toNat_append _ _
  rw [happ, Nat.shiftLeft_eq]
  simp [Nat.mul_comm]

/-- The register in units of the granularity. -/
def Regions.top (c : Regions n) (G : ℕ) (r : Fin n) : ℕ :=
  (c.addr r).toNat / 2 ^ G

/-- The upper end of a region in granules. -/
theorem granule_csrPmpAddr (c : Regions n) (G : ℕ) (r : Fin n) :
    (granule G (c.csrPmpAddr r)).toNat = c.top G r := by
  rw [granule_toNat, csrPmpAddr_toNat, Regions.top, pow_add, Nat.mul_comm (2 ^ G),
    show (2 : ℕ) ^ 2 = 4 from rfl, Nat.mul_div_mul_left _ _ (by omega)]

/-- The lower end of a TOR region: the previous register, zero for region 0. -/
def Regions.bottom (c : Regions n) (G : ℕ) (r : Fin n) : ℕ :=
  if h : r.val = 0 then 0 else c.top G ⟨r.val - 1, by omega⟩

/-- The lower end of a TOR region in granules, which is the upper end of the region before. -/
theorem granule_startAddr_tor {c : Regions n} {G : ℕ} {r : Fin n}
    (h : (c.cfg r).mode = .tor) : (granule G (c.startAddr r)).toNat = c.bottom G r := by
  rw [Regions.startAddr, Regions.bottom, if_pos h]
  split
  · simp
  · exact granule_csrPmpAddr c G _

/-- Outside NAPOT mode the mask keeps every bit. -/
theorem and_addrMask {c : Regions n} {G : ℕ} {r : Fin n} (h : (c.cfg r).mode ≠ .napot)
    (x : BitVec (32 - G)) : x &&& c.addrMask G r = x := by
  refine BitVec.eq_of_getLsbD_eq fun i hi => ?_
  simp [Regions.addrMask, h, hi]

/-- In NAPOT mode the mask clears the trailing ones of the register and the zero
that ends them. -/
theorem and_addrMask_napot {c : Regions n} {G k : ℕ} {r : Fin n}
    (h : (c.cfg r).mode = .napot) (hk : Bits.TrailingOnes (c.top G r) k) :
    (granule G (c.startAddr r) &&& c.addrMask G r).toNat
      = c.top G r / 2 ^ (k + 1) * 2 ^ (k + 1) := by
  have hstart : c.startAddr r = c.csrPmpAddr r := by simp [Regions.startAddr, h]
  have hbit : ∀ i, (granule G (c.csrPmpAddr r)).getLsbD i = (c.top G r).testBit i := by
    intro i
    rw [BitVec.getLsbD, granule_csrPmpAddr]
  have hlt : ∀ i, (c.top G r).testBit i = true → i < 32 - G := by
    intro i hi
    rw [← hbit] at hi
    exact BitVec.lt_of_getLsbD hi
  refine Nat.eq_of_testBit_eq fun i => ?_
  rw [← BitVec.getLsbD, BitVec.getLsbD_and, hstart, hbit, Regions.addrMask, Bits.getLsbD_gen,
    if_pos h, Nat.mul_comm, Nat.testBit_two_pow_mul, Nat.testBit_div_two_pow]
  simp only [hbit]
  by_cases hik : i ≤ k
  · -- below and at the ending zero every lower bit is set
    have hall : (List.range i).all (fun j => (c.top G r).testBit j) = true := by
      refine List.all_eq_true.mpr fun j hj => ?_
      have hji : j < i := List.mem_range.mp hj
      rw [hk.testBit (by omega)]
      exact decide_eq_true (by omega)
    simp [hall, Nat.not_le_of_lt (Nat.lt_succ_of_le hik)]
  · -- above it the zero is among the lower bits
    have hall : (List.range i).all (fun j => (c.top G r).testBit j) = false := by
      refine List.all_eq_false.mpr ⟨k, List.mem_range.mpr (by omega), ?_⟩
      simp [hk.testBit le_rfl]
    have hki : k + 1 ≤ i := by omega
    have hi0 : i ≠ 0 := by omega
    simp only [hall, hki, hi0, decide_true, Bool.true_and, if_false, Bool.not_false,
      Nat.sub_add_cancel hki]
    by_cases hb : (c.top G r).testBit i = true
    · simp [hb, hlt i hb]
    · simp [hb]

/-- The range of granules the comparators accept for a region. -/
def Regions.HwMatch (c : Regions n) (G : ℕ) (r : Fin n) (a : BitVec 34) : Prop :=
  match (c.cfg r).mode with
  | .off => False
  | .tor => c.bottom G r ≤ a.toNat / 2 ^ (G + 2) ∧ a.toNat / 2 ^ (G + 2) ≤ c.top G r
  | .na4 => a.toNat / 2 ^ (G + 2) = c.top G r
  | .napot => ∃ k, Bits.TrailingOnes (c.top G r) k ∧
      c.top G r / 2 ^ (k + 1) * 2 ^ (k + 1) ≤ a.toNat / 2 ^ (G + 2) ∧
      a.toNat / 2 ^ (G + 2) ≤ c.top G r

/-- `region_match_both` in arithmetic: TOR includes its last granule, and NAPOT stops at
the register itself, the middle of the range the register encodes. -/
theorem matchBoth_iff (c : Regions n) (G : ℕ) (r : Fin n) (a : BitVec 34) :
    c.matchBoth G r a = true ↔ c.HwMatch G r a := by
  have hhigh : c.matchHigh G r a = true ↔ a.toNat / 2 ^ (G + 2) ≤ c.top G r := by
    rw [Regions.matchHigh, BitVec.ule, decide_eq_true_iff, granule_toNat, granule_csrPmpAddr]
  have hlow : c.matchLow G r a = true ↔
      (granule G (c.startAddr r) &&& c.addrMask G r).toNat ≤ a.toNat / 2 ^ (G + 2) := by
    rw [Regions.matchLow, BitVec.ule, decide_eq_true_iff, granule_toNat]
  rw [Regions.matchBoth, Bool.and_eq_true, Bool.and_eq_true, hlow, hhigh, bne_iff_ne]
  cases h : (c.cfg r).mode with
  | off => simp [Regions.HwMatch, h]
  | tor =>
      simp only [Regions.HwMatch, h]
      rw [and_addrMask (by simp [h]), granule_startAddr_tor h]
      simp
  | na4 =>
      have hstart : c.startAddr r = c.csrPmpAddr r := by simp [Regions.startAddr, h]
      simp only [Regions.HwMatch, h]
      rw [and_addrMask (by simp [h]), hstart, granule_csrPmpAddr]
      simp only [ne_eq, reduceCtorEq, not_false_eq_true, and_true]
      omega
  | napot =>
      obtain ⟨k, hk⟩ := Bits.exists_trailingOnes (c.top G r)
      simp only [Regions.HwMatch, h]
      rw [and_addrMask_napot h hk]
      simp only [ne_eq, reduceCtorEq, not_false_eq_true, and_true]
      constructor
      · exact fun hm => ⟨k, hk, hm⟩
      · rintro ⟨l, hl, hm⟩
        rwa [hk.unique hl]

end CocoIbex.Pmp
