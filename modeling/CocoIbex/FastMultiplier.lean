import CocoIbex.LongMultiplication
import CocoIbex.MultdivRun

/-!
# The Fast Multiplications

Both variants assemble a product from the products of the halves of the operands, in an
accumulator of 34 bits. `FastInv` and `SingleInv` say what the intermediate value register holds
in each state; with them no sum leaves the accumulator.

The operands are extended by their signs, so that a half is a signed number of 17 bits and the
product of two halves one of 34. Which partial products have been added in a state, and what has
been shifted out, is written as an integer (`fastExact`, `singleExact`), and the bounds on the
halves (`Bounds`) are what keeps it within the accumulator. The last state then has the low or
the high word of the exact product.

The variant with three multipliers makes the low half of a product in one cycle and the high
half in two, the other one needs three and four.

## Main results

* `fast_delivers` — a multiplication with one multiplier;
* `single_delivers` — a multiplication with three multipliers;
* `fast_multiplication_correct` — `mul`, `mulh`, `mulhsu` and `mulhu` in both variants, from an
  idle unit and for all operands.
-/

namespace CocoIbex

open Machine Rv32 LongMultiplication

/-! ### The accumulator -/

/-- The number fits the accumulator, 34 bits with the sign. -/
def FitsAccum (v : ℤ) : Prop := -2 ^ 33 ≤ v ∧ v < 2 ^ 33

/-- Such a number comes back from the register. -/
theorem FitsAccum.toInt_ofInt {v : ℤ} (h : FitsAccum v) : (BitVec.ofInt 34 v).toInt = v :=
  BitVec.toInt_ofInt_eq_self (by decide) h.1 h.2

/-- A word of a number. -/
theorem extract_ofInt (v : ℤ) : (BitVec.ofInt 34 v).extractLsb' 0 32 = BitVec.ofInt 32 v := by
  refine BitVec.eq_of_toNat_eq ?_
  rw [BitVec.extractLsb'_toNat, Nat.shiftRight_zero, BitVec.toNat_ofInt, BitVec.toNat_ofInt]
  omega

namespace MultdivFast

/-- The number that a half operand with its sign stands for. -/
def half (sign : Bool) (v : BitVec 16) : ℤ := v.toNat - if sign then 2 ^ 16 else 0

/-- A half of an operand with its sign in front is the half of the number. -/
theorem toInt_signed_half (sign : Bool) (v : BitVec 16) :
    (BitVec.ofBool sign ++ v : BitVec 17).toInt = half sign v := by
  have hv := v.isLt
  rw [BitVec.toInt_eq_toNat_cond, Bits.toNat_append_eq, half]
  cases sign with
  | false =>
      simp only [BitVec.toNat_ofBool, Bool.toNat_false, Bool.false_eq_true, if_false]
      rw [if_pos (by omega)]
      omega
  | true =>
      simp only [BitVec.toNat_ofBool, Bool.toNat_true, if_true]
      rw [if_neg (by omega)]
      omega

/-- The multiplier sees that number. -/
theorem extend_eq (w : ℕ) (sign : Bool) (v : BitVec 16) :
    extend w sign v = BitVec.ofInt w (half sign v) := by
  rw [extend, BitVec.signExtend, toInt_signed_half]

/-- The sum of the multiplier and the accumulator, exactly. -/
def macSum (signA : Bool) (a : BitVec 16) (signB : Bool) (b : BitVec 16) (accum : BitVec 34) :
    ℤ := half signA a * half signB b + accum.toInt

/-- The multiplier with its adder takes the exact sum modulo 2^34. -/
theorem macRes_eq (signA : Bool) (a : BitVec 16) (signB : Bool) (b : BitVec 16)
    (accum : BitVec 34) :
    macRes signA a signB b accum = BitVec.ofInt 34 (macSum signA a signB b accum) := by
  have hsum : extend 35 signA a * extend 35 signB b + accum.signExtend 35
      = BitVec.ofInt 35 (macSum signA a signB b accum) := by
    rw [extend_eq, extend_eq, macSum, BitVec.ofInt_add, BitVec.ofInt_mul]
    rfl
  refine BitVec.eq_of_toNat_eq ?_
  rw [macRes, hsum, BitVec.extractLsb'_toNat, Nat.shiftRight_zero, BitVec.toNat_ofInt,
    BitVec.toNat_ofInt]
  omega

/-- The three-way adder takes the exact sum modulo 2^34. -/
theorem sumRes_eq (s1 s2 s3 : BitVec 34) :
    sumRes s1 s2 s3 = BitVec.ofInt 34 (s1.toInt + s2.toInt + s3.toInt) := by
  have hsum : s1.signExtend 35 + s2.signExtend 35 + s3.signExtend 35
      = BitVec.ofInt 35 (s1.toInt + s2.toInt + s3.toInt) := by
    rw [BitVec.ofInt_add, BitVec.ofInt_add]
    rfl
  refine BitVec.eq_of_toNat_eq ?_
  rw [sumRes, hsum, BitVec.extractLsb'_toNat, Nat.shiftRight_zero, BitVec.toNat_ofInt,
    BitVec.toNat_ofInt]
  omega

/-- The upper half of a product of low halves, as an addend. -/
def accumLow (imdValQ : BitVec 34) : BitVec 34 := (imdValQ.extractLsb' 16 16).setWidth 34

/-- What is carried into the next partial sum is the sum without its lower half word. -/
theorem toInt_accumLow {v : BitVec 34} (h0 : 0 ≤ v.toInt) (h1 : v.toInt < 2 ^ 32) :
    (accumLow v).toInt = v.toInt / 2 ^ 16 := by
  have hv := v.isLt
  rw [BitVec.toInt_eq_toNat_cond] at h0 h1 ⊢
  rw [BitVec.toInt_eq_toNat_cond, accumLow, BitVec.toNat_setWidth, BitVec.extractLsb'_toNat,
    Nat.shiftRight_eq_div_pow]
  split_ifs at * <;> omega

/-- The shift to the next place keeps the sign. -/
theorem toInt_accumHigh {x : MultdivIn} (h : x.signedMode = 0b00#2 → 0 ≤ x.imdValQ.toInt) :
    (accumHigh x).toInt = x.imdValQ.toInt / 2 ^ 16 := by
  have hv := x.imdValQ.isLt
  have hfill : (x.signedMode != 0b00#2 && x.imdValQ.getLsbD 33)
      = decide (2 ^ 33 ≤ x.imdValQ.toNat) := by
    have hmsb : x.imdValQ.getLsbD 33 = decide (2 ^ 33 ≤ x.imdValQ.toNat) :=
      (BitVec.msb_eq_getLsbD_last x.imdValQ).symm.trans (BitVec.msb_eq_decide x.imdValQ)
    rw [hmsb]
    by_cases hs : x.signedMode = 0b00#2
    · have h0 := h hs
      rw [BitVec.toInt_eq_toNat_cond] at h0
      have hlt : ¬ 2 ^ 33 ≤ x.imdValQ.toNat := by
        split_ifs at h0 <;> omega
      rw [decide_eq_false hlt, Bool.and_false]
    · simp [hs]
  have hnat : (accumHigh x).toNat
      = (Bits.fill 16 (decide (2 ^ 33 ≤ x.imdValQ.toNat))).toNat * 2 ^ 18
        + x.imdValQ.toNat / 2 ^ 16 := by
    rw [accumHigh, hfill, Bits.toNat_append_eq, BitVec.extractLsb'_toNat,
      Nat.shiftRight_eq_div_pow]
    omega
  rw [BitVec.toInt_eq_toNat_cond, BitVec.toInt_eq_toNat_cond, hnat]
  by_cases hge : 2 ^ 33 ≤ x.imdValQ.toNat
  · have hones : (Bits.fill 16 true).toNat = 2 ^ 16 - 1 := rfl
    rw [decide_eq_true hge, hones, if_neg (by omega), if_neg (by omega)]
    omega
  · have hzero : (Bits.fill 16 false).toNat = 0 := rfl
    rw [decide_eq_false hge, hzero, if_pos (by omega), if_pos (by omega)]
    omega

/-- The low half of the product, put together. -/
def mulRes (m l : BitVec 34) : BitVec 34 :=
  (m.extractLsb' 0 16 ++ l.extractLsb' 0 16).setWidth 34

/-- The result register of MUL has the half words of the two sums. -/
theorem toInt_mulRes (m l : BitVec 34) :
    (mulRes m l).toInt = m.toInt % 2 ^ 16 * 2 ^ 16 + l.toInt % 2 ^ 16 := by
  have hm := m.isLt
  have hl := l.isLt
  have hnat : (mulRes m l).toNat = m.toNat % 2 ^ 16 * 2 ^ 16 + l.toNat % 2 ^ 16 := by
    rw [mulRes, BitVec.toNat_setWidth, Bits.toNat_append_eq, BitVec.extractLsb'_toNat,
      BitVec.extractLsb'_toNat, Nat.shiftRight_zero, Nat.shiftRight_zero]
    omega
  rw [BitVec.toInt_eq_toNat_cond, hnat, if_pos (by omega), BitVec.toInt_eq_toNat_cond (x := m),
    BitVec.toInt_eq_toNat_cond (x := l)]
  split_ifs <;> omega

end MultdivFast

/-! ### The halves of the operands -/

namespace MdInsn

open MultdivFast

variable (i : MdInsn)

/-- The low half of the first operand. -/
def al : ℤ := half false (opL i.a)

/-- The high half of the first operand, with its sign. -/
def ah : ℤ := half (i.a.getLsbD 31 && i.op.signedA) (opH i.a)

/-- The low half of the second operand. -/
def bl : ℤ := half false (opL i.b)

/-- The high half of the second operand, with its sign. -/
def bh : ℤ := half (i.b.getLsbD 31 && i.op.signedB) (opH i.b)

/-- A word by its halves. -/
theorem value_halves (signed : Bool) (v : BitVec 32) :
    value signed v = half (v.getLsbD 31 && signed) (opH v) * 2 ^ 16 + half false (opL v) := by
  have hv := v.isLt
  have hmsb : v.getLsbD 31 = decide (2 ^ 31 ≤ v.toNat) :=
    (BitVec.msb_eq_getLsbD_last v).symm.trans (BitVec.msb_eq_decide v)
  simp only [half, opH, opL, BitVec.extractLsb'_toNat, Nat.shiftRight_eq_div_pow, hmsb, value,
    BitVec.toInt_eq_toNat_cond, Bool.false_eq_true, if_false]
  cases signed with
  | false =>
      simp only [Bool.and_false, Bool.false_eq_true, if_false]
      omega
  | true =>
      simp only [Bool.and_true, decide_eq_true_eq, if_true]
      split_ifs <;> omega

/-- The product by the halves. -/
theorem product_halves :
    i.op.product i.a i.b = (i.ah * 2 ^ 16 + i.al) * (i.bh * 2 ^ 16 + i.bl) := by
  rw [MulDiv.product, value_halves, value_halves]
  rfl

/-- A low half has no sign. -/
theorem half_low (v : BitVec 16) : 0 ≤ half false v ∧ half false v ≤ 2 ^ 16 - 1 := by
  have := v.isLt
  simp only [half, Bool.false_eq_true, if_false]
  omega

/-- A high half is negative when its sign bit is set only. -/
theorem half_high (signed : Bool) (v : BitVec 32) :
    -2 ^ 15 ≤ half (v.getLsbD 31 && signed) (opH v) ∧
      half (v.getLsbD 31 && signed) (opH v) ≤ 2 ^ 16 - 1 ∧
      (signed = false → 0 ≤ half (v.getLsbD 31 && signed) (opH v)) := by
  have hv := v.isLt
  have hmsb : v.getLsbD 31 = decide (2 ^ 31 ≤ v.toNat) :=
    (BitVec.msb_eq_getLsbD_last v).symm.trans (BitVec.msb_eq_decide v)
  simp only [half, opH, BitVec.extractLsb'_toNat, Nat.shiftRight_eq_div_pow, hmsb]
  cases signed with
  | false =>
      simp only [Bool.and_false, Bool.false_eq_true, if_false]
      omega
  | true =>
      simp only [Bool.and_true, decide_eq_true_eq, Bool.true_eq_false, false_implies, and_true]
      split_ifs <;> omega

/-- The carry of the product of the low halves. -/
def lowCarry : ℤ := i.al * i.bl / 2 ^ 16

/-- The middle of the product. -/
def middle : ℤ := mixed (2 ^ 16) i.al i.ah i.bl i.bh

/-- The middle sum is that of the two mixed products and the carry. -/
theorem middle_eq : i.middle = i.ah * i.bl + (i.al * i.bh + i.lowCarry) := rfl

/-- How large a product of halves is. -/
theorem mul_bounds {p q : ℤ} (hp : -2 ^ 15 ≤ p ∧ p ≤ 2 ^ 16 - 1)
    (hq : -2 ^ 15 ≤ q ∧ q ≤ 2 ^ 16 - 1) :
    -2 ^ 31 ≤ p * q ∧ p * q ≤ 2 ^ 32 - 2 ^ 17 + 1 := by
  obtain ⟨hp0, hp1⟩ := hp
  obtain ⟨hq0, hq1⟩ := hq
  rcases le_total 0 p with h | h
  · have hlo : p * -2 ^ 15 ≤ p * q := mul_le_mul_of_nonneg_left hq0 h
    have hhi : p * q ≤ p * (2 ^ 16 - 1) := mul_le_mul_of_nonneg_left hq1 h
    omega
  · have hlo : p * (2 ^ 16 - 1) ≤ p * q := mul_le_mul_of_nonpos_left hq1 h
    have hhi : p * q ≤ p * -2 ^ 15 := mul_le_mul_of_nonpos_left hq0 h
    omega

/-- The bounds of the products. -/
structure Bounds : Prop where
  low : 0 ≤ i.al * i.bl ∧ i.al * i.bl ≤ 2 ^ 32 - 2 ^ 17 + 1
  lowHigh : -2 ^ 31 ≤ i.al * i.bh ∧ i.al * i.bh ≤ 2 ^ 32 - 2 ^ 17 + 1
  highLow : -2 ^ 31 ≤ i.ah * i.bl ∧ i.ah * i.bl ≤ 2 ^ 32 - 2 ^ 17 + 1
  high : -2 ^ 31 ≤ i.ah * i.bh ∧ i.ah * i.bh ≤ 2 ^ 32 - 2 ^ 17 + 1
  carry : 0 ≤ i.lowCarry ∧ i.lowCarry ≤ 2 ^ 16 - 2
  unsigned : i.signedMode = 0b00#2 → 0 ≤ i.al * i.bh ∧ 0 ≤ i.ah * i.bl

/-- The partial sums fit into the 34 bits of the accumulator. -/
theorem bounds : i.Bounds := by
  obtain ⟨hal0, hal1⟩ := half_low (opL i.a)
  obtain ⟨hbl0, hbl1⟩ := half_low (opL i.b)
  obtain ⟨hah0, hah1, hau⟩ := half_high i.op.signedA i.a
  obtain ⟨hbh0, hbh1, hbu⟩ := half_high i.op.signedB i.b
  have hlow := mul_bounds (p := i.al) (q := i.bl) ⟨by rw [al]; omega, hal1⟩
    ⟨by rw [bl]; omega, hbl1⟩
  have hpos : 0 ≤ i.al * i.bl := mul_nonneg hal0 hbl0
  refine ⟨⟨hpos, hlow.2⟩, mul_bounds ⟨by rw [al]; omega, hal1⟩ ⟨hbh0, hbh1⟩,
    mul_bounds ⟨hah0, hah1⟩ ⟨by rw [bl]; omega, hbl1⟩, mul_bounds ⟨hah0, hah1⟩ ⟨hbh0, hbh1⟩,
    ⟨by rw [lowCarry]; omega, by rw [lowCarry]; omega⟩, fun hmode => ?_⟩
  have hsigns : i.op.signedA = false ∧ i.op.signedB = false := by
    obtain ⟨op, a, b⟩ := i
    cases op with
    | mul | mulhu | divu | remu => exact ⟨rfl, rfl⟩
    | mulh | mulhsu | div | rem => simp [signedMode, opMultdiv, MulDiv.funct3] at hmode
  exact ⟨mul_nonneg hal0 (hbu hsigns.2), mul_nonneg (hau hsigns.1) hbl0⟩

/-- What a multiplication asks for, by the halves. -/
theorem operator_of_mul (h : i.op.isDiv = false) :
    (i.operator = .mull ∧
        i.result = BitVec.ofInt 32 (i.middle % 2 ^ 16 * 2 ^ 16 + i.al * i.bl % 2 ^ 16)) ∨
      (i.operator = .mulh ∧
        i.result = BitVec.ofInt 32 (i.ah * i.bh + i.middle / 2 ^ 16)) := by
  have hlow : i.op.product i.a i.b % (2 ^ 16 * 2 ^ 16)
      = i.middle % 2 ^ 16 * 2 ^ 16 + i.al * i.bl % 2 ^ 16 := by
    rw [product_halves, product_mod_sq _ _ _ _ (by decide), middle]
  have hhigh : i.op.product i.a i.b / 2 ^ 32 = i.ah * i.bh + i.middle / 2 ^ 16 := by
    rw [product_halves, show (2 : ℤ) ^ 32 = 2 ^ 16 * 2 ^ 16 by decide,
      product_div_sq _ _ _ _ (by decide), middle]
  rw [← hlow, ← hhigh]
  obtain ⟨hop, -, hres⟩ | hres := result_of_mul h
  · refine Or.inl ⟨hop, hres.trans (BitVec.eq_of_toNat_eq ?_)⟩
    rw [BitVec.toNat_ofInt, BitVec.toNat_ofInt, Int.emod_emod_of_dvd _ (by decide)]
  · exact Or.inr hres

end MdInsn

/-! ### One cycle -/

namespace MultdivFast

section Steps

variable {μ : Type} {mult : μ → MultdivIn → MultOut μ} {idle : μ} {i : MdInsn}
  {d : DivReg} {st st' : μ} {v v' : BitVec 34}

variable (hmul : i.op.isDiv = false)

include hmul

/-- The unit with a multiplication steps as the multiplication, the division stands. -/
theorem next_regs (ready : Bool) :
    (regs mult idle d st v).next i ready
      = if (mult st (i.input v ready)).multHold then regs mult idle d st v
        else regs mult idle d (mult st (i.input v ready)).multStateD
          (mult st (i.input v ready)).macResD := by
  simp only [MultdivUnit.Regs.next, out_regs, step, MdInsn.input_divEn, MdInsn.input_multEn,
    MdInsn.input_divSel, hmul, Bool.not_false, Bool.false_and, Bool.or_false, Bool.true_and,
    Bool.false_eq_true, if_false]
  cases hh : (mult st (i.input v ready)).multHold with
  | true => simp [regs]
  | false => simp [regs]

/-- Its outputs. -/
theorem out_regs_mul (hd : d.mdState = .idle) (ready : Bool) :
    ((regs mult idle d st v).out i ready).1.valid = (mult st (i.input v ready)).multValid ∧
      ((regs mult idle d st v).out i ready).1.multdivResult
        = (mult st (i.input v ready)).macResD.extractLsb' 0 32 := by
  simp only [out_regs, step, division, hd, MdInsn.input_divSel, hmul, Bool.or_false,
    Bool.false_eq_true, if_false, and_self]

/-- A cycle that shows no result. -/
theorem comes_of_mult (hd : d.mdState = .idle)
    (h : ∀ ready, mult st (i.input v ready) = ⟨v', false, st', false⟩) :
    (regs mult idle d st v).Comes i 1 (regs mult idle d st' v') := by
  refine .step (fun ready => ?_) (fun ready => ?_) (.refl _)
  · rw [(out_regs_mul hmul hd ready).1, h]
  · rw [next_regs hmul, h]
    rfl

/-- A cycle that shows the result and waits. -/
theorem presents_of_mult (hd : d.mdState = .idle)
    (h : ∀ ready, mult st (i.input v ready) = ⟨v', true, idle, !ready⟩) :
    (regs mult idle d st v).Presents i (AtRest idle) (v'.extractLsb' 0 32) where
  valid ready := by rw [(out_regs_mul hmul hd ready).1, h]
  result ready := by rw [(out_regs_mul hmul hd ready).2, h]
  hold := by rw [next_regs hmul, h, Bool.not_false, if_pos rfl]
  accept := by
    rw [next_regs hmul, h, Bool.not_true, if_neg Bool.false_ne_true]
    exact ⟨hd, rfl⟩

/-- What every cycle of the multiplication keeps, the unit keeps. -/
theorem regs_next_inv {P : μ → BitVec 34 → Prop}
    (hnext : ∀ {st v}, P st v → ∀ ready,
      P (mult st (i.input v ready)).multStateD (mult st (i.input v ready)).macResD)
    (h : P st v) (ready : Bool) :
    P ((regs mult idle d st v).next i ready).unit.multState
      ((regs mult idle d st v).next i ready).imdValQ := by
  rw [next_regs hmul]
  cases (mult st (i.input v ready)).multHold with
  | true => exact h
  | false => exact hnext h ready

end Steps

/-! ### One multiplier -/

/-- The exact sum of a cycle. -/
def fastSum (s : MultFsm) (x : MultdivIn) : ℤ :=
  match s with
  | .albl => macSum false (opL x.opA) false (opL x.opB) 0#34
  | .albh => macSum false (opL x.opA) x.signB (opH x.opB) (accumLow x.imdValQ)
  | .ahbl =>
    macSum x.signA (opH x.opA) false (opL x.opB)
      (if x.operator = .mull then accumLow x.imdValQ else x.imdValQ)
  | .ahbh => macSum x.signA (opH x.opA) x.signB (opH x.opB) (accumHigh x)

section Cycles

variable (x : MultdivIn)

/-- The first cycle: the product of the two lower halves. -/
theorem fastMult_albl :
    fastMult .albl x = ⟨BitVec.ofInt 34 (fastSum .albl x), false, .albh, false⟩ := by
  simp only [fastMult, macRes_eq]
  rfl

/-- The second cycle: one mixed product is added; a MUL keeps the lower half word. -/
theorem fastMult_albh :
    fastMult .albh x = ⟨if x.operator = .mull
        then mulRes (BitVec.ofInt 34 (fastSum .albh x)) x.imdValQ
        else BitVec.ofInt 34 (fastSum .albh x), false, .ahbl, false⟩ := by
  simp only [fastMult, macRes_eq]
  rfl

/-- The last cycle of MUL: the other mixed product gives the upper half word. -/
theorem fastMult_ahbl_mull (h : x.operator = .mull) :
    fastMult .ahbl x = ⟨mulRes (BitVec.ofInt 34 (fastSum .ahbl x)) x.imdValQ, true, .albl,
      !x.multdivReadyId⟩ := by
  simp only [fastMult, macRes_eq, fastSum, h, if_true]
  rfl

/-- The third cycle of MULH: the other mixed product is added. -/
theorem fastMult_ahbl_mulh (h : x.operator ≠ .mull) :
    fastMult .ahbl x = ⟨BitVec.ofInt 34 (fastSum .ahbl x), false, .ahbh, false⟩ := by
  simp only [fastMult, macRes_eq, fastSum, h, if_false]

/-- The last cycle of MULH: the product of the two upper halves. -/
theorem fastMult_ahbh :
    fastMult .ahbh x
      = ⟨BitVec.ofInt 34 (fastSum .ahbh x), true, .albl, !x.multdivReadyId⟩ := by
  simp only [fastMult, macRes_eq, fastSum]

end Cycles

section Fast

variable (i : MdInsn)

/-- What the intermediate value register holds. -/
def FastInv : MultFsm → BitVec 34 → Prop
  | .albl, _ => True
  | .albh, v => v.toInt = i.al * i.bl
  | .ahbl, v =>
    v.toInt = if i.operator = .mull
      then (i.al * i.bh + i.lowCarry) % 2 ^ 16 * 2 ^ 16 + i.al * i.bl % 2 ^ 16
      else i.al * i.bh + i.lowCarry
  | .ahbh, v => i.operator = .mulh ∧ v.toInt = i.middle

/-- The exact sum of each cycle, by the halves. -/
def fastExact : MultFsm → ℤ
  | .albl => i.al * i.bl
  | .albh => i.al * i.bh + i.lowCarry
  | .ahbl =>
    if i.operator = .mull then i.ah * i.bl + (i.al * i.bh + i.lowCarry) % 2 ^ 16 else i.middle
  | .ahbh => i.ah * i.bh + i.middle / 2 ^ 16

variable {i} {st : MultFsm} {v : BitVec 34}

/-- With the invariant the sum of a cycle is the exact one. -/
theorem fastSum_eq (h : FastInv i st v) (ready : Bool) :
    fastSum st (i.input v ready) = fastExact i st := by
  obtain ⟨hlow, hlh, hhl, hhigh, hcarry, hunsigned⟩ := i.bounds
  cases st with
  | albl => exact add_zero _
  | albh =>
      have hv : v.toInt = i.al * i.bl := h
      have hacc : (accumLow v).toInt = i.lowCarry := by
        rw [toInt_accumLow (by omega) (by omega), hv, MdInsn.lowCarry]
      simp only [fastSum, macSum, MdInsn.input_opA, MdInsn.input_opB, MdInsn.input_signB,
        MdInsn.input_imdValQ, hacc]
      rfl
  | ahbl =>
      simp only [FastInv] at h
      by_cases hop : i.operator = .mull
      · rw [if_pos hop] at h
        have hacc : (accumLow v).toInt = (i.al * i.bh + i.lowCarry) % 2 ^ 16 := by
          rw [toInt_accumLow (by omega) (by omega), h]
          omega
        have hin : (i.input v ready).operator = .mull := hop
        simp only [fastSum, macSum, fastExact, hin, hop, if_true, MdInsn.input_opA,
          MdInsn.input_opB, MdInsn.input_signA, MdInsn.input_imdValQ, hacc]
        rfl
      · rw [if_neg hop] at h
        have hin : (i.input v ready).operator ≠ .mull := hop
        simp only [fastSum, macSum, fastExact, hin, hop, if_false, MdInsn.input_opA,
          MdInsn.input_opB, MdInsn.input_signA, MdInsn.input_imdValQ, h]
        rfl
  | ahbh =>
      obtain ⟨hop, hv⟩ := h
      have hacc : (accumHigh (i.input v ready)).toInt = i.middle / 2 ^ 16 := by
        rw [toInt_accumHigh, MdInsn.input_imdValQ, hv]
        intro hmode
        obtain ⟨h1, h2⟩ := hunsigned hmode
        rw [MdInsn.input_imdValQ, hv, MdInsn.middle_eq]
        omega
      simp only [fastSum, macSum, MdInsn.input_opA, MdInsn.input_opB, MdInsn.input_signA,
        MdInsn.input_signB, hacc]
      rfl

/-- No cycle overflows. -/
theorem fastExact_fits (st : MultFsm) : FitsAccum (fastExact i st) := by
  obtain ⟨hlow, hlh, hhl, hhigh, hcarry, -⟩ := i.bounds
  have hmid := i.middle_eq
  cases st with
  | albl | albh =>
      simp only [fastExact, FitsAccum]
      omega
  | ahbl =>
      simp only [fastExact, FitsAccum]
      split_ifs <;> omega
  | ahbh =>
      simp only [fastExact, FitsAccum]
      omega

/-- The register after a cycle. -/
theorem toInt_fastSum (h : FastInv i st v) (ready : Bool) :
    (BitVec.ofInt 34 (fastSum st (i.input v ready))).toInt = fastExact i st := by
  rw [fastSum_eq h, (fastExact_fits st).toInt_ofInt]

/-- Every cycle keeps the invariant. -/
theorem fastInv_next (hmul : i.op.isDiv = false) (h : FastInv i st v) (ready : Bool) :
    FastInv i (fastMult st (i.input v ready)).multStateD
      (fastMult st (i.input v ready)).macResD := by
  have hsum := toInt_fastSum h ready
  cases st with
  | albl =>
      rw [fastMult_albl]
      exact hsum
  | albh =>
      have hv : v.toInt = i.al * i.bl := h
      rw [fastMult_albh]
      by_cases hop : i.operator = .mull
      · have hin : (i.input v ready).operator = .mull := hop
        simp only [FastInv, hin, hop, if_true, toInt_mulRes, hsum, MdInsn.input_imdValQ, hv]
        rfl
      · have hin : (i.input v ready).operator ≠ .mull := hop
        simp only [FastInv, hin, hop, if_false, hsum]
        rfl
  | ahbl =>
      obtain ⟨hop, -⟩ | ⟨hop, -⟩ := i.operator_of_mul hmul
      · rw [fastMult_ahbl_mull _ hop]
        trivial
      · have hne : i.operator ≠ .mull := by rw [hop]; decide
        rw [fastMult_ahbl_mulh _ hne]
        refine ⟨hop, hsum.trans ?_⟩
        simp only [fastExact, hne, if_false]
  | ahbh =>
      rw [fastMult_ahbh]
      trivial

section Delivers

variable {d : DivReg} (hmul : i.op.isDiv = false) (hd : d.mdState = .idle)

include hmul hd

/-- A cycle on the way to the result. -/
theorem fast_delivers_of_next {st' : MultFsm} {v' : BitVec 34} {r : BitVec 32} (h : FastInv i st v)
    (hc : ∀ ready, fastMult st (i.input v ready) = ⟨v', false, st', false⟩)
    (hnext : FastInv i st' v' →
      (regs fastMult .albl d st' v').Delivers i (AtRest .albl) r) :
    (regs fastMult .albl d st v).Delivers i (AtRest .albl) r := by
  have h' := fastInv_next hmul h true
  rw [hc] at h'
  exact .of_comes (comes_of_mult hmul hd hc) (hnext h')

/-- `ah * bh` completes the high half. -/
theorem ahbh_delivers (h : FastInv i .ahbh v) :
    (regs fastMult .albl d .ahbh v).Delivers i (AtRest .albl) i.result := by
  have hres : i.result = BitVec.ofInt 32 (fastExact i .ahbh) := by
    obtain ⟨hop, -⟩ | ⟨-, hres⟩ := i.operator_of_mul hmul
    · rw [h.1] at hop
      cases hop
    · exact hres
  rw [hres, ← extract_ofInt]
  refine ⟨0, _, .refl _, presents_of_mult hmul hd fun ready => ?_⟩
  rw [fastMult_ahbh, fastSum_eq h]
  rfl

/-- `ah * bl` completes the low half. -/
theorem ahbl_delivers (h : FastInv i .ahbl v) :
    (regs fastMult .albl d .ahbl v).Delivers i (AtRest .albl) i.result := by
  obtain ⟨hop, hres⟩ | ⟨hop, -⟩ := i.operator_of_mul hmul
  · have hv : v.toInt
        = (i.al * i.bh + i.lowCarry) % 2 ^ 16 * 2 ^ 16 + i.al * i.bl % 2 ^ 16 := by
      simpa only [FastInv, hop, if_true] using h
    have hmac : (mulRes (BitVec.ofInt 34 (fastExact i .ahbl)) v).toInt
        = i.middle % 2 ^ 16 * 2 ^ 16 + i.al * i.bl % 2 ^ 16 := by
      rw [toInt_mulRes, (fastExact_fits .ahbl).toInt_ofInt, hv, fastExact, if_pos hop,
        MdInsn.middle_eq]
      omega
    rw [hres, ← hmac, ← extract_ofInt, BitVec.ofInt_toInt]
    refine ⟨0, _, .refl _, presents_of_mult hmul hd fun ready => ?_⟩
    rw [fastMult_ahbl_mull _ hop, fastSum_eq h]
    rfl
  · have hne : i.operator ≠ .mull := by rw [hop]; decide
    have hc : ∀ ready, fastMult .ahbl (i.input v ready)
        = ⟨BitVec.ofInt 34 (fastExact i .ahbl), false, .ahbh, false⟩ := fun ready => by
      rw [fastMult_ahbl_mulh _ hne, fastSum_eq h]
    exact fast_delivers_of_next hmul hd h hc (ahbh_delivers hmul hd)

/-- `al * bh`. -/
theorem albh_delivers (h : FastInv i .albh v) :
    (regs fastMult .albl d .albh v).Delivers i (AtRest .albl) i.result := by
  have hc : ∀ ready, fastMult .albh (i.input v ready)
      = ⟨if i.operator = .mull then mulRes (BitVec.ofInt 34 (fastExact i .albh)) v
        else BitVec.ofInt 34 (fastExact i .albh), false, .ahbl, false⟩ := fun ready => by
    rw [fastMult_albh, fastSum_eq h]
    rfl
  exact fast_delivers_of_next hmul hd h hc (ahbl_delivers hmul hd)

/-- **A multiplication with one multiplier.** -/
theorem fast_delivers (v : BitVec 34) :
    (regs fastMult .albl d .albl v).Delivers i (AtRest .albl) i.result := by
  have h : FastInv i .albl v := trivial
  have hc : ∀ ready, fastMult .albl (i.input v ready)
      = ⟨BitVec.ofInt 34 (fastExact i .albl), false, .albh, false⟩ := fun ready => by
    rw [fastMult_albl, fastSum_eq h]
  exact fast_delivers_of_next hmul hd h hc (albh_delivers hmul hd)

end Delivers

end Fast

/-! ### Three multipliers -/

/-- The exact sum of a cycle. -/
def singleSum (s : SingleFsm) (x : MultdivIn) : ℤ :=
  match s with
  | .mull =>
    half false (opL x.opA) * half false (opL x.opB) / 2 ^ 16
      + half false (opL x.opA) * half x.signB (opH x.opB)
      + half x.signA (opH x.opA) * half false (opL x.opB)
  | .mulh =>
    0 + (accumHigh x).toInt + half x.signA (opH x.opA) * half x.signB (opH x.opB)

section Single

variable (i : MdInsn)

/-- What the intermediate value register holds. -/
def SingleInv : SingleFsm → BitVec 34 → Prop
  | .mull, _ => True
  | .mulh, v => i.operator = .mulh ∧ v.toInt = i.middle

/-- The exact sum of each cycle, by the halves. -/
def singleExact : SingleFsm → ℤ
  | .mull => i.middle
  | .mulh => i.ah * i.bh + i.middle / 2 ^ 16

variable {i} {st : SingleFsm} {v : BitVec 34}

/-- A product of a multiplier. -/
theorem toInt_mul_extend {p q : BitVec 16} {signA signB : Bool}
    (h : FitsAccum (half signA p * half signB q)) :
    (extend 34 signA p * extend 34 signB q).toInt = half signA p * half signB q := by
  rw [extend_eq, extend_eq, ← BitVec.ofInt_mul, h.toInt_ofInt]

/-- The lowest product in its parts. -/
theorem toInt_accumLow_mul (h : 0 ≤ i.al * i.bl ∧ i.al * i.bl ≤ 2 ^ 32 - 2 ^ 17 + 1) :
    (accumLow (extend 34 false (opL i.a) * extend 34 false (opL i.b))).toInt = i.lowCarry := by
  have hfit : FitsAccum (half false (opL i.a) * half false (opL i.b)) := by
    exact ⟨h.1.trans' (by decide), h.2.trans_lt (by decide)⟩
  have hmul : (extend 34 false (opL i.a) * extend 34 false (opL i.b)).toInt = i.al * i.bl :=
    toInt_mul_extend hfit
  rw [toInt_accumLow (by omega) (by omega), hmul, MdInsn.lowCarry]

/-- With the invariant the sum of a cycle of the unit with three multipliers is the exact one. -/
theorem singleSum_eq (h : SingleInv i st v) (ready : Bool) :
    singleSum st (i.input v ready) = singleExact i st := by
  obtain ⟨hlow, hlh, hhl, hhigh, hcarry, hunsigned⟩ := i.bounds
  cases st with
  | mull =>
      simp only [singleSum, MdInsn.input_opA, MdInsn.input_opB, MdInsn.input_signA,
        MdInsn.input_signB, singleExact, MdInsn.middle_eq]
      rw [add_comm, add_comm (_ / _)]
      rfl
  | mulh =>
      obtain ⟨-, hv⟩ := h
      have hacc : (accumHigh (i.input v ready)).toInt = i.middle / 2 ^ 16 := by
        rw [toInt_accumHigh, MdInsn.input_imdValQ, hv]
        intro hmode
        obtain ⟨h1, h2⟩ := hunsigned hmode
        rw [MdInsn.input_imdValQ, hv, MdInsn.middle_eq]
        omega
      simp only [singleSum, MdInsn.input_opA, MdInsn.input_opB, MdInsn.input_signA,
        MdInsn.input_signB, hacc, zero_add, singleExact]
      rw [add_comm]
      rfl

/-- No cycle overflows. -/
theorem singleExact_fits (st : SingleFsm) : FitsAccum (singleExact i st) := by
  obtain ⟨hlow, hlh, hhl, hhigh, hcarry, -⟩ := i.bounds
  have hmid := i.middle_eq
  cases st with
  | mull | mulh =>
      simp only [singleExact, FitsAccum]
      omega

/-- The sum of the first state. -/
theorem sumRes_mull (ready : Bool) :
    sumRes (accumLow (extend 34 false (opL i.a) * extend 34 false (opL i.b)))
        (extend 34 false (opL i.a) * extend 34 (i.input v ready).signB (opH i.b))
        (extend 34 (i.input v ready).signA (opH i.a) * extend 34 false (opL i.b))
      = BitVec.ofInt 34 (singleExact i .mull) := by
  obtain ⟨hlow, hlh, hhl, -, -, -⟩ := i.bounds
  have h2 : (extend 34 false (opL i.a) * extend 34 (i.input v ready).signB (opH i.b)).toInt
      = i.al * i.bh := by
    rw [MdInsn.input_signB]
    exact toInt_mul_extend ⟨hlh.1.trans' (by decide), hlh.2.trans_lt (by decide)⟩
  have h3 : (extend 34 (i.input v ready).signA (opH i.a) * extend 34 false (opL i.b)).toInt
      = i.ah * i.bl := by
    rw [MdInsn.input_signA]
    exact toInt_mul_extend ⟨hhl.1.trans' (by decide), hhl.2.trans_lt (by decide)⟩
  rw [sumRes_eq, toInt_accumLow_mul hlow, h2, h3, singleExact, MdInsn.middle_eq]
  congr 1
  ring

/-- The sum of the second state. -/
theorem sumRes_mulh (h : SingleInv i .mulh v) (ready : Bool) :
    sumRes 0#34 (accumHigh (i.input v ready))
        (extend 34 (i.input v ready).signA (opH i.a) * extend 34 (i.input v ready).signB (opH i.b))
      = BitVec.ofInt 34 (singleExact i .mulh) := by
  have hhigh := i.bounds.high
  have h3 : (extend 34 (i.input v ready).signA (opH i.a)
        * extend 34 (i.input v ready).signB (opH i.b)).toInt = i.ah * i.bh := by
    rw [MdInsn.input_signA, MdInsn.input_signB]
    exact toInt_mul_extend ⟨hhigh.1.trans' (by decide), hhigh.2.trans_lt (by decide)⟩
  rw [sumRes_eq, h3, ← singleSum_eq h ready, singleSum]
  simp only [BitVec.toInt_zero, MdInsn.input_opA, MdInsn.input_opB, MdInsn.input_signA,
    MdInsn.input_signB]
  rfl

/-- The only cycle of MUL in the unit with three multipliers. -/
theorem singleMult_mull_mull (hmul : i.op.isDiv = false) (hop : i.operator = .mull)
    (ready : Bool) :
    singleMult .mull (i.input v ready) = ⟨mulRes (BitVec.ofInt 34 (singleExact i .mull))
      (extend 34 false (opL i.a) * extend 34 false (opL i.b)), true, .mull, !ready⟩ := by
  have hin : (i.input v ready).operator = .mull := hop
  have hsum := sumRes_mull (i := i) (v := v) ready
  rw [accumLow] at hsum
  simp only [singleMult, hin, if_true, MdInsn.input_opA, MdInsn.input_opB, hsum,
    MdInsn.input_multEn, hmul]
  rfl

/-- The first cycle of MULH in the unit with three multipliers. -/
theorem singleMult_mull_mulh (hop : i.operator ≠ .mull) (ready : Bool) :
    singleMult .mull (i.input v ready)
      = ⟨BitVec.ofInt 34 (singleExact i .mull), false, .mulh, false⟩ := by
  have hin : (i.input v ready).operator ≠ .mull := hop
  have hsum := sumRes_mull (i := i) (v := v) ready
  rw [accumLow] at hsum
  simp only [singleMult, hin, if_false, MdInsn.input_opA, MdInsn.input_opB, hsum]

/-- The last cycle of MULH in the unit with three multipliers. -/
theorem singleMult_mulh (h : SingleInv i .mulh v) (ready : Bool) :
    singleMult .mulh (i.input v ready)
      = ⟨BitVec.ofInt 34 (singleExact i .mulh), true, .mull, !ready⟩ := by
  simp only [singleMult, MdInsn.input_opA, MdInsn.input_opB, sumRes_mulh h]
  rfl

/-- Every cycle keeps the invariant. -/
theorem singleInv_next (hmul : i.op.isDiv = false) (h : SingleInv i st v) (ready : Bool) :
    SingleInv i (singleMult st (i.input v ready)).multStateD
      (singleMult st (i.input v ready)).macResD := by
  cases st with
  | mull =>
      obtain ⟨hop, -⟩ | ⟨hop, -⟩ := i.operator_of_mul hmul
      · rw [singleMult_mull_mull hmul hop]
        trivial
      · rw [singleMult_mull_mulh (by rw [hop]; decide)]
        exact ⟨hop, (singleExact_fits .mull).toInt_ofInt⟩
  | mulh =>
      rw [singleMult_mulh h]
      trivial

/-- **A multiplication with three multipliers.** -/
theorem single_delivers (hmul : i.op.isDiv = false) {d : DivReg} (hd : d.mdState = .idle)
    (v : BitVec 34) :
    (regs singleMult .mull d .mull v).Delivers i (AtRest .mull) i.result := by
  obtain ⟨hop, hres⟩ | ⟨hop, hres⟩ := i.operator_of_mul hmul
  · have hlow := i.bounds.low
    have hmul1 : (extend 34 false (opL i.a) * extend 34 false (opL i.b)).toInt = i.al * i.bl :=
      toInt_mul_extend ⟨hlow.1.trans' (by decide), hlow.2.trans_lt (by decide)⟩
    have hmac : (mulRes (BitVec.ofInt 34 (singleExact i .mull))
        (extend 34 false (opL i.a) * extend 34 false (opL i.b))).toInt
        = i.middle % 2 ^ 16 * 2 ^ 16 + i.al * i.bl % 2 ^ 16 := by
      rw [toInt_mulRes, (singleExact_fits .mull).toInt_ofInt, hmul1, singleExact]
    rw [hres, ← hmac, ← extract_ofInt, BitVec.ofInt_toInt]
    exact ⟨0, _, .refl _, presents_of_mult hmul hd (singleMult_mull_mull hmul hop)⟩
  · have hc := singleMult_mull_mulh (i := i) (v := v) (by rw [hop]; decide)
    have hinv : SingleInv i .mulh (BitVec.ofInt 34 (singleExact i .mull)) :=
      ⟨hop, (singleExact_fits .mull).toInt_ofInt⟩
    refine .of_comes (comes_of_mult hmul hd hc) ?_
    rw [hres, ← extract_ofInt]
    exact ⟨0, _, .refl _, presents_of_mult hmul hd (singleMult_mulh hinv)⟩

end Single

end MultdivFast

/-! ### The EX block -/

namespace ExBlock

variable {cfg : Config} {m : Multiplier} {i : MdInsn}

/-- In every run with the instruction the sum of every cycle fits the accumulator. -/
def SumsFit (cfg : Config) (m : Multiplier) (sum : m.unit.State → MultdivIn → ℤ) (s : ExState m)
    (i : MdInsn) : Prop :=
  ∀ (ins : List ExIn) (x : ExIn), (∀ y ∈ ins, y.Holds i) → x.Holds i →
    FitsAccum (sum (run (next cfg m) s ins).multdiv (multdivIn m (run (next cfg m) s ins) x))

/-- From an invariant of the unit. -/
theorem sumsFit_of_inv (hM : cfg.rv32m = true) {sum : m.unit.State → MultdivIn → ℤ}
    (P : m.unit.Regs → Prop) (hnext : ∀ t ready, P t → P (t.next i ready))
    (hfit : ∀ t ready, P t → FitsAccum (sum t.unit (i.input t.imdValQ ready))) {s : ExState m}
    (h : P (regs s)) : SumsFit cfg m sum s i := by
  intro ins x hins hx
  have hP : P (regs (run (next cfg m) s ins)) := by
    rw [regs_run hM hins]
    exact run_invariant P hnext _ h
  rw [multdivIn_of_holds hx]
  exact hfit _ _ hP

end ExBlock

/-- **Fast multiplications are correct** in both variants: from an idle unit, with the
operands held, `mul`, `mulh`, `mulhsu` and `mulhu` compute their results, and no sum on the
way leaves the accumulator. -/
theorem fast_multiplication_correct (cfg : Config) (hM : cfg.rv32m = true) (op : MulDiv)
    (hop : op.isDiv = false) (a b : BitVec 32) :
    (∀ s : ExState .fast, Multiplier.fast.Idle s.multdiv →
      ExBlock.Computes cfg s ⟨op, a, b⟩ (op.exec a b) ∧
      ExBlock.SumsFit cfg .fast (fun u => MultdivFast.fastSum u.multState) s ⟨op, a, b⟩) ∧
    ∀ s : ExState .singleCycle, Multiplier.singleCycle.Idle s.multdiv →
      ExBlock.Computes cfg s ⟨op, a, b⟩ (op.exec a b) ∧
      ExBlock.SumsFit cfg .singleCycle (fun u => MultdivFast.singleSum u.multState) s
        ⟨op, a, b⟩ := by
  let i : MdInsn := ⟨op, a, b⟩
  constructor
  · rintro ⟨⟨d, st⟩, v⟩ ⟨hd, rfl⟩
    refine ⟨ExBlock.computes_of_delivers hM (MultdivFast.fast_delivers (i := i) hop hd v),
      ExBlock.sumsFit_of_inv (m := .fast) hM
        (fun t : MultdivFast.fast.Regs => MultdivFast.FastInv i t.unit.multState t.imdValQ)
        (fun t ready h => ?_) (fun t ready h => ?_) trivial⟩
    · exact MultdivFast.regs_next_inv (i := i) hop
        (fun h => MultdivFast.fastInv_next hop h) h ready
    · rw [MultdivFast.fastSum_eq h]
      exact MultdivFast.fastExact_fits _
  · rintro ⟨⟨d, st⟩, v⟩ ⟨hd, rfl⟩
    refine ⟨ExBlock.computes_of_delivers hM (MultdivFast.single_delivers (i := i) hop hd v),
      ExBlock.sumsFit_of_inv (m := .singleCycle) hM
        (fun t : MultdivFast.singleCycle.Regs => MultdivFast.SingleInv i t.unit.multState t.imdValQ)
        (fun t ready h => ?_) (fun t ready h => ?_) trivial⟩
    · exact MultdivFast.regs_next_inv (i := i) hop
        (fun h => MultdivFast.singleInv_next hop h) h ready
    · rw [MultdivFast.singleSum_eq h]
      exact MultdivFast.singleExact_fits _

/-- A product of operands of either kind after a reset. -/
theorem fast_multiplication_correct_mulhsu :
    ExBlock.Computes ⟨true, false, false⟩ (ExBlock.reset .fast)
        ⟨.mulhsu, 0xffffffff#32, 0xffffffff#32⟩ (MulDiv.exec .mulhsu 0xffffffff#32 0xffffffff#32) ∧
      ExBlock.Computes ⟨true, false, false⟩ (ExBlock.reset .singleCycle)
        ⟨.mulhsu, 0xffffffff#32, 0xffffffff#32⟩ (MulDiv.exec .mulhsu 0xffffffff#32 0xffffffff#32) ∧
      MulDiv.exec .mulhsu 0xffffffff#32 0xffffffff#32 = 0xffffffff#32 := by
  have h := fast_multiplication_correct ⟨true, false, false⟩ rfl .mulhsu rfl 0xffffffff#32
    0xffffffff#32
  exact ⟨(h.1 (ExBlock.reset .fast) ⟨rfl, rfl⟩).1, (h.2 (ExBlock.reset .singleCycle) ⟨rfl, rfl⟩).1,
    by decide⟩

end CocoIbex
