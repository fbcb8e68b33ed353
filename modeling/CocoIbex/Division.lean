import CocoIbex.LongDivision
import CocoIbex.MultdivRun

/-!
# Division

Both units divide the absolute values bit by bit, restoring the remainder, and set the signs
afterwards. `Dividing` is what their registers hold in the loop; `division_correct` is the
result for the EX block.

A division takes the same states in both units; they differ in the width of the registers and in
which of them has the quotient. What one pass of the loop does is the step of the restoring
division of `LongDivision`, on numbers; `Dividing` is its invariant on words, and each unit is
shown to keep it. A division by zero skips the loop and has its results from the first cycle,
while the overflow of a signed division is no case of its own: the loop and the change of the
sign give the documented results.

## Main results

* `comp_last` — the loop, for each of the two units: after its last pass the registers hold
  quotient and remainder of the absolute values;
* `delivers_division` — a whole division in each of the two units;
* `division_correct` — `div`, `divu`, `rem` and `remu` in every implementation, from any idle
  unit and for all operands.
-/

namespace CocoIbex

open Machine Rv32 LongDivision

/-! ### The result -/

namespace MdInsn

variable (i : MdInsn)

/-- The sign changes at the end. -/
def changesSign : Bool :=
  if i.operator = .div then (i.a.getLsbD 31 && i.op.signedA) ^^ (i.b.getLsbD 31 && i.op.signedB)
  else i.a.getLsbD 31 && i.op.signedA

/-- The quotient or the remainder of the absolute values, whichever is asked for. -/
def absResult : ℕ :=
  if i.operator = .div then (i.op.absA i.a).toNat / (i.op.absB i.b).toNat
  else (i.op.absA i.a).toNat % (i.op.absB i.b).toNat

variable {i}

/-- A division by zero. -/
theorem result_zero (h : i.op.isDiv = true) (hb : i.b = 0#32) :
    i.result = if i.operator = .div then BitVec.allOnes 32 else i.a := by
  rw [result_of_isDiv h, MulDiv.quotient, MulDiv.remainder, if_pos hb, if_pos hb]

/-- A division by another number. -/
theorem result_ne_zero (h : i.op.isDiv = true) (hb : i.b ≠ 0#32) :
    i.result = changeSign i.changesSign (BitVec.ofNat 32 i.absResult) := by
  rw [result_of_isDiv h, MulDiv.quotient_eq _ _ _ hb, MulDiv.remainder_eq _ _ _ hb, changesSign,
    absResult]
  split_ifs <;> rfl

/-- The divisor in the loop. -/
theorem absB_pos (hb : i.b ≠ 0#32) : 0 < (i.op.absB i.b).toNat := by
  rw [Nat.pos_iff_ne_zero]
  intro hzero
  refine hb ((changeSign_eq_zero (i.b.getLsbD 31 && i.op.signedB) i.b).mp ?_)
  exact BitVec.eq_of_toNat_eq hzero

end MdInsn

/-! ### The loop on words -/

/-- The low word of a wider register. -/
theorem low_setWidth {u w : ℕ} (hw : 32 ≤ w) (x : BitVec u) :
    (x.setWidth w).extractLsb' 0 32 = x.setWidth 32 := by
  refine BitVec.eq_of_getLsbD_eq fun k hk => ?_
  have hkw : k < w := by omega
  simp [hk, hkw]

/-- A word in a wider register. -/
theorem extract_setWidth {w : ℕ} (hw : 32 ≤ w) (v : BitVec 32) :
    (v.setWidth w).extractLsb' 0 32 = v := by
  rw [low_setWidth hw, BitVec.setWidth_eq]

/-- A bit of a word as a number. -/
theorem toNat_ofBool_getLsbD (v : BitVec 32) (k : ℕ) :
    (BitVec.ofBool (v.getLsbD k)).toNat = v.toNat / 2 ^ k % 2 := by
  rw [BitVec.toNat_ofBool, BitVec.getLsbD, Nat.testBit_eq_decide_div_mod_eq]
  have := Nat.mod_lt (v.toNat / 2 ^ k) Nat.two_pos
  by_cases h : v.toNat / 2 ^ k % 2 = 1
  · simp [h]
  · have h0 : v.toNat / 2 ^ k % 2 = 0 := by omega
    simp [h0]

/-- The next bit of the quotient is set at its place. -/
theorem toNat_or_shiftLeft {w k : ℕ} (q : BitVec w) (hk : k < w) (h : 2 ^ (k + 1) ∣ q.toNat) :
    (q ||| 1#w <<< k).toNat = q.toNat + 2 ^ k := by
  obtain ⟨c, hc⟩ := h
  have hlt : 2 ^ k < 2 ^ w := Nat.pow_lt_pow_right (by omega) hk
  have hone : (1#w <<< k).toNat = 2 ^ k := by
    rw [BitVec.toNat_shiftLeft, BitVec.toNat_ofNat,
      Nat.mod_eq_of_lt (Nat.one_lt_two_pow (by omega)),
      Nat.shiftLeft_eq, one_mul, Nat.mod_eq_of_lt hlt]
  rw [BitVec.toNat_or, hone, hc]
  exact (Nat.two_pow_add_eq_or_of_lt (Nat.pow_lt_pow_right (by omega) (by omega)) c).symm

section Words

variable {w : ℕ} {n d r : BitVec 32} {c : BitVec 5} {q : BitVec w} {k : ℕ}

/-- The quotient after a comparison. -/
def quotientNext (d : BitVec 32) (c : BitVec 5) (q : BitVec w) (r : BitVec 32) : BitVec w :=
  if d.toNat ≤ r.toNat then q ||| 1#w <<< c.toNat else q

/-- The remainder after a comparison. -/
def remainderNext (d r : BitVec 32) : BitVec 32 := if d.toNat ≤ r.toNat then r - d else r

/-- The registers in the loop: dividend, divisor, counter, quotient and remainder, with the
division done down to the bit `k`. -/
structure Dividing (n d : BitVec 32) (c : BitVec 5) (q : BitVec w) (r : BitVec 32) (k : ℕ) :
    Prop where
  counter : c.toNat = k
  pos : 0 < d.toNat
  shifted : Shifted n.toNat d.toNat k q.toNat r.toNat

/-- The division starts with the top bit of the dividend. -/
theorem Dividing.start (n : BitVec 32) (hd : 0 < d.toNat) :
    Dividing n d 31#5 0#w ((BitVec.ofBool (n.getLsbD 31)).setWidth 32) 31 := by
  have hn : n.toNat < 2 ^ (31 + 1) := n.isLt
  have htop : n.toNat / 2 ^ 31 % 2 = n.toNat / 2 ^ 31 := by omega
  refine ⟨rfl, hd, ?_⟩
  rw [BitVec.toNat_setWidth, toNat_ofBool_getLsbD, htop, Nat.mod_eq_of_lt (by omega),
    BitVec.toNat_ofNat, Nat.zero_mod]
  exact Shifted.start _ hn

/-- A comparison divides one bit more. -/
theorem Dividing.scanned (hw : 32 ≤ w) (h : Dividing n d c q r k) :
    Scanned n.toNat d.toNat k (quotientNext d c q r).toNat (remainderNext d r).toNat := by
  have hk : k < w := (h.counter ▸ c.isLt).trans_le hw
  rw [quotientNext, remainderNext]
  split_ifs with hle
  · rw [h.counter, toNat_or_shiftLeft q hk h.shifted.two_pow_dvd,
      BitVec.toNat_sub_of_le (BitVec.le_def.mpr hle)]
    exact h.shifted.subtract h.pos hle
  · exact h.shifted.keep (Nat.lt_of_not_le hle)

/-- The counter goes down. -/
theorem Dividing.counter_pred (h : Dividing n d c q r (k + 1)) : (c - 1#5).toNat = k := by
  have := h.counter
  have := c.isLt
  rw [BitVec.toNat_sub, BitVec.toNat_ofNat]
  omega

/-- The last cycle of the loop is seen by the counter. -/
theorem Dividing.counter_eq_one (h : Dividing n d c q r (k + 1)) : c = 1#5 ↔ k = 0 := by
  rw [← BitVec.toNat_inj, h.counter, BitVec.toNat_ofNat]
  omega

/-- The next bit of the dividend comes in; the remainder never overflows its word. -/
theorem Dividing.next (hw : 32 ≤ w) (h : Dividing n d c q r (k + 1)) :
    Dividing n d (c - 1#5) (quotientNext d c q r)
      ((remainderNext d r ++ BitVec.ofBool (n.getLsbD k) : BitVec 33).setWidth 32) k := by
  have hshift := (h.scanned hw).shift
  have hle : 2 * (remainderNext d r).toNat + n.toNat / 2 ^ k % 2 ≤ n.toNat :=
    hshift.le.trans (Nat.div_le_self _ _)
  refine ⟨h.counter_pred, h.pos, ?_⟩
  have hrem : ((remainderNext d r ++ BitVec.ofBool (n.getLsbD k) : BitVec 33).setWidth 32).toNat
      = 2 * (remainderNext d r).toNat + n.toNat / 2 ^ k % 2 := by
    have := n.isLt
    rw [BitVec.toNat_setWidth, Bits.toNat_append_eq, toNat_ofBool_getLsbD]
    omega
  rw [hrem]
  exact hshift

end Words

/-! ### The fast unit -/

namespace MultdivFast

variable {μ : Type} {mult : μ → MultdivIn → MultOut μ} {idle : μ} {i : MdInsn} {d d' : DivReg}
  {v v' : BitVec 34}

/-- One cycle of the division with the ungated adder. -/
def divCycle (i : MdInsn) (d : DivReg) (v : BitVec 34) (ready : Bool) : DivOut :=
  let x := i.input v ready
  division d x (ungatedAdder (aluOperands d x))

section Steps

variable (hdiv : i.op.isDiv = true)
  (hidle : ∀ x, x.multEn = false → (mult idle x).multValid = false)

include hdiv

/-- The unit with a division steps as the division. -/
theorem next_regs_div (ready : Bool) :
    (regs mult idle d idle v).next i ready
      = if (divCycle i d v ready).divHold then regs mult idle d idle v
        else regs mult idle (divCycle i d v ready).next idle
          (divCycle i d v ready).opRemainderD := by
  have hcycle : division d (i.input v ready) (ungatedAdder (aluOperands d (i.input v ready)))
      = divCycle i d v ready := rfl
  simp only [MultdivUnit.Regs.next, out_regs, step, MdInsn.input_divEn, MdInsn.input_multEn,
    MdInsn.input_divSel, hdiv, hcycle, Bool.not_true, Bool.false_and, Bool.false_or, Bool.true_and,
    if_true, Bool.false_eq_true, if_false]
  cases (divCycle i d v ready).divHold with
  | true => simp [regs]
  | false => simp [regs]

include hidle

/-- Its outputs. -/
theorem out_regs_div (ready : Bool) :
    ((regs mult idle d idle v).out i ready).1.valid = (divCycle i d v ready).divValid ∧
      ((regs mult idle d idle v).out i ready).1.multdivResult = v.extractLsb' 0 32 := by
  have hm : (mult idle (i.input v ready)).multValid = false :=
    hidle _ (by rw [MdInsn.input_multEn, hdiv, Bool.not_true])
  simp only [out_regs, step, hm, MdInsn.input_divSel, hdiv, Bool.false_or, if_true,
    MdInsn.input_imdValQ, and_true]
  rfl

/-- A cycle that does not depend on the readiness. -/
theorem comes_of_divCycle (h : ∀ ready, divCycle i d v ready = ⟨d', v', false, false⟩) :
    (regs mult idle d idle v).Comes i 1 (regs mult idle d' idle v') := by
  refine .step (fun ready => ?_) (fun ready => ?_) (.refl _)
  · rw [(out_regs_div hdiv hidle ready).1, h]
  · rw [next_regs_div hdiv, h]
    rfl

/-- The last state presents the intermediate value. -/
theorem presents_finish (hd : d.mdState = .finish) :
    (regs mult idle d idle v).Presents i (AtRest idle) (v.extractLsb' 0 32) where
  valid ready := by
    rw [(out_regs_div hdiv hidle ready).1]
    simp only [divCycle, division, hd]
  result ready := (out_regs_div hdiv hidle ready).2
  hold := by
    rw [next_regs_div hdiv, if_pos]
    simp [divCycle, division, hd]
  accept := by
    rw [next_regs_div hdiv, if_neg (by simp [divCycle, division, hd])]
    simp [divCycle, division, hd, regs, AtRest]

/-- In its last state the unit presents what is in its result register. -/
theorem presents_word (hd : d.mdState = .finish) (r : BitVec 32) :
    (regs mult idle d idle (r.setWidth 34)).Presents i (AtRest idle) r := by
  have h := presents_finish (v := r.setWidth 34) hdiv hidle hd
  rwa [extract_setWidth (by decide)] at h

end Steps

/-! ### The states of the fast division -/

section States

/-- The divisor is compared with zero. -/
theorem divCycle_idle (hd : d.mdState = .idle) (ready : Bool) :
    divCycle i d v ready =
      ⟨{ d with mdState := if i.b = 0#32 then .finish else .absA, divCounter := 31#5 },
        if i.operator = .div then BitVec.allOnes 34 else i.a.setWidth 34, false, false⟩ := by
  have hz : (0#32 == i.b) = decide (i.b = 0#32) := by
    rw [Bool.eq_iff_iff, beq_iff_eq, decide_eq_true_iff, eq_comm]
  simp only [divCycle, division, hd, aluOperands, ungatedAdder_isEqual, MdInsn.input_opA,
    MdInsn.input_opB, MdInsn.input_operator, hz, decide_eq_true_eq]
  rfl

/-- The cycle that takes the magnitude of the numerator. -/
theorem divCycle_absA (hd : d.mdState = .absA) (ready : Bool) :
    divCycle i d v ready =
      ⟨{ d with opQuotient := 0#32, mdState := .absB, divCounter := 31#5,
                opNumerator := i.op.absA i.a }, v, false, false⟩ := by
  simp only [divCycle, division, hd, aluOperands, ungatedAdder_sub, MdInsn.input_opA,
    MdInsn.input_signA, MdInsn.input_imdValQ]
  rfl

/-- The cycle that takes the magnitude of the denominator, and the first bit of the numerator. -/
theorem divCycle_absB (hd : d.mdState = .absB) (ready : Bool) :
    divCycle i d v ready =
      ⟨{ d with mdState := .comp, divCounter := 31#5, opDenominator := i.op.absB i.b },
        (BitVec.ofBool (d.opNumerator.getLsbD 31)).setWidth 34, false, false⟩ := by
  simp only [divCycle, division, hd, aluOperands, ungatedAdder_sub, MdInsn.input_opB,
    MdInsn.input_signB]
  rfl

/-- The cycle that gives the result its sign. -/
theorem divCycle_changeSign (hd : d.mdState = .changeSign) (r : BitVec 32) (ready : Bool) :
    divCycle i d (r.setWidth 34) ready =
      ⟨{ d with mdState := .finish, divCounter := d.divCounter - 1#5 },
        (changeSign i.changesSign r).setWidth 34, false, false⟩ := by
  have hsign : ∀ c : Bool, (if c then (0#32 - r).setWidth 34 else r.setWidth 34)
      = (changeSign c r).setWidth 34 := by
    intro c
    cases c <;> rfl
  simp only [divCycle, division, hd, aluOperands, ungatedAdder_sub, MdInsn.input_signA,
    MdInsn.input_signB, MdInsn.input_operator, MdInsn.input_imdValQ,
    extract_setWidth (w := 34) (by decide), hsign]
  rfl

/-- The comparison and the difference in the loop. -/
theorem loop_adder (hd : d.mdState = .comp ∨ d.mdState = .last) (ready : Bool) :
    isGreaterEqual d (i.input v ready) (ungatedAdder (aluOperands d (i.input v ready)))
      = decide (d.opDenominator.toNat ≤ (v.extractLsb' 0 32).toNat) ∧
    resAdderH (ungatedAdder (aluOperands d (i.input v ready)))
      = v.extractLsb' 0 32 - d.opDenominator := by
  have hop : aluOperands d (i.input v ready)
      = subOperands (v.extractLsb' 0 32) d.opDenominator := by
    obtain hd | hd := hd <;> simp only [aluOperands, hd, MdInsn.input_imdValQ]
  have hres : resAdderH (ungatedAdder (aluOperands d (i.input v ready)))
      = v.extractLsb' 0 32 - d.opDenominator := by
    rw [hop]
    exact ungatedAdder_sub _ _
  have hbit : v.getLsbD 31 = (v.extractLsb' 0 32).getLsbD 31 := by
    simp
  refine ⟨?_, hres⟩
  rw [isGreaterEqual, hres, MdInsn.input_imdValQ, hbit]
  exact greaterEqual_eq _ _

/-- The quotient and the remainder of a cycle in the loop. -/
theorem loop_next (hd : d.mdState = .comp ∨ d.mdState = .last) (ready : Bool) :
    nextQuotient d (i.input v ready) (ungatedAdder (aluOperands d (i.input v ready)))
      = quotientNext d.opDenominator d.divCounter d.opQuotient (v.extractLsb' 0 32) ∧
    nextRemainder d (i.input v ready) (ungatedAdder (aluOperands d (i.input v ready)))
      = remainderNext d.opDenominator (v.extractLsb' 0 32) := by
  obtain ⟨hge, hres⟩ := loop_adder (i := i) (v := v) hd ready
  simp only [nextQuotient, nextRemainder, hge, hres, decide_eq_true_eq, MdInsn.input_imdValQ]
  exact ⟨rfl, rfl⟩

end States

/-! ### The loop of the fast division -/

section Loop

variable (hdiv : i.op.isDiv = true)
  (hidle : ∀ x, x.multEn = false → (mult idle x).multValid = false)

include hdiv hidle

/-- One cycle of the loop. -/
theorem comp_next {k : ℕ} (hd : d.mdState = .comp)
    (h : Dividing d.opNumerator d.opDenominator d.divCounter d.opQuotient (v.extractLsb' 0 32)
      (k + 1)) :
    ∃ d' v', (regs mult idle d idle v).Comes i 1 (regs mult idle d' idle v') ∧
      d'.mdState = (if k = 0 then .last else .comp) ∧ d'.opNumerator = d.opNumerator ∧
      d'.opDenominator = d.opDenominator ∧
      Dividing d.opNumerator d.opDenominator d'.divCounter d'.opQuotient (v'.extractLsb' 0 32)
        k := by
  refine ⟨{ d with
      divCounter := d.divCounter - 1#5
      opQuotient := quotientNext d.opDenominator d.divCounter d.opQuotient (v.extractLsb' 0 32)
      mdState := if d.divCounter = 1#5 then .last else .comp },
    (remainderNext d.opDenominator (v.extractLsb' 0 32)
      ++ BitVec.ofBool (d.opNumerator.getLsbD k) : BitVec 33).setWidth 34,
    comes_of_divCycle hdiv hidle fun ready => ?_, by simp only [h.counter_eq_one], rfl, rfl, ?_⟩
  · obtain ⟨hq, hr⟩ := loop_next (i := i) (v := v) (Or.inl hd) ready
    simp only [divCycle, division, hd, h.counter_pred, hq, hr]
  · rw [low_setWidth (by decide)]
    exact h.next (by decide)

/-- **The loop.** -/
theorem comp_last {k : ℕ} (hd : d.mdState = .comp)
    (h : Dividing d.opNumerator d.opDenominator d.divCounter d.opQuotient (v.extractLsb' 0 32)
      (k + 1)) :
    ∃ d' v', (regs mult idle d idle v).Comes i (k + 1) (regs mult idle d' idle v') ∧
      d'.mdState = .last ∧ d'.opNumerator = d.opNumerator ∧ d'.opDenominator = d.opDenominator ∧
      Dividing d.opNumerator d.opDenominator d'.divCounter d'.opQuotient (v'.extractLsb' 0 32)
        0 := by
  induction k generalizing d v with
  | zero => exact comp_next hdiv hidle hd h
  | succ k ih =>
      obtain ⟨d', v', hgo, hst, hn, hb, h'⟩ := comp_next hdiv hidle hd h
      rw [← hn, ← hb] at h'
      obtain ⟨d'', v'', hgo', hst', hn', hb', h''⟩ := ih (by simpa using hst) h'
      rw [hn, hb] at h''
      refine ⟨d'', v'', ?_, hst', hn'.trans hn, hb'.trans hb, h''⟩
      rw [Nat.add_comm]
      exact hgo.trans hgo'

/-- The last step of the loop leaves what is asked for. -/
theorem last_next (hd : d.mdState = .last) (hn : d.opNumerator = i.op.absA i.a)
    (hb : d.opDenominator = i.op.absB i.b)
    (h : Dividing d.opNumerator d.opDenominator d.divCounter d.opQuotient (v.extractLsb' 0 32)
      0) :
    ∃ d', d'.mdState = .changeSign ∧ (regs mult idle d idle v).Comes i 1
      (regs mult idle d' idle ((BitVec.ofNat 32 i.absResult).setWidth 34)) := by
  refine ⟨{ d with divCounter := d.divCounter - 1#5, mdState := .changeSign }, rfl,
    comes_of_divCycle hdiv hidle fun ready => ?_⟩
  obtain ⟨hq, hr⟩ := loop_next (i := i) (v := v) (Or.inr hd) ready
  obtain ⟨hquot, hrem⟩ := (h.scanned (by decide)).done
  have hres : BitVec.ofNat 32 i.absResult = if i.operator = .div
      then quotientNext d.opDenominator d.divCounter d.opQuotient (v.extractLsb' 0 32)
      else remainderNext d.opDenominator (v.extractLsb' 0 32) := by
    rw [MdInsn.absResult, ← hn, ← hb, ← hquot, ← hrem]
    split_ifs <;> rw [BitVec.ofNat_toNat, BitVec.setWidth_eq]
  rw [hres]
  simp only [divCycle, division, hd, hq, hr, MdInsn.input_operator]
  split_ifs <;> rfl

/-- **A division in the fast unit.** -/
theorem delivers_division (v : BitVec 34) (hd : d.mdState = .idle) :
    (regs mult idle d idle v).Delivers i (AtRest idle) i.result := by
  refine .of_comes (comes_of_divCycle hdiv hidle (divCycle_idle hd)) ?_
  by_cases hb : i.b = 0#32
  · rw [if_pos hb]
    refine ⟨0, _, .refl _, ?_⟩
    have hres : i.result
        = (if i.operator = .div then BitVec.allOnes 34 else i.a.setWidth 34).extractLsb' 0 32 := by
      rw [MdInsn.result_zero hdiv hb]
      split_ifs
      · rfl
      · exact (extract_setWidth (by decide) _).symm
    rw [hres]
    exact presents_finish hdiv hidle rfl
  · rw [if_neg hb]
    -- the absolute values, the loop, and the sign
    refine .of_comes (comes_of_divCycle hdiv hidle (divCycle_absA rfl)) ?_
    refine .of_comes (comes_of_divCycle hdiv hidle (divCycle_absB rfl)) ?_
    have hstart : Dividing (i.op.absA i.a) (i.op.absB i.b) 31#5 0#32
        (((BitVec.ofBool ((i.op.absA i.a).getLsbD 31)).setWidth 34).extractLsb' 0 32) (30 + 1) := by
      rw [low_setWidth (by decide)]
      exact Dividing.start _ (MdInsn.absB_pos hb)
    obtain ⟨d', v', hloop, hlast, hn, hden, h⟩ := comp_last hdiv hidle
      (d := ⟨31#5, .comp, i.op.absB i.b, i.op.absA i.a, 0#32⟩) (i := i) rfl hstart
    refine .of_comes hloop ?_
    have hn' : d'.opNumerator = i.op.absA i.a := hn
    have hden' : d'.opDenominator = i.op.absB i.b := hden
    obtain ⟨d'', hsign, hgo⟩ := last_next hdiv hidle (i := i) hlast hn' hden'
      (by rw [hn', hden']; exact h)
    refine .of_comes hgo ?_
    refine .of_comes (comes_of_divCycle hdiv hidle (divCycle_changeSign hsign _)) ?_
    rw [MdInsn.result_ne_zero hdiv hb]
    exact ⟨0, _, .refl _, presents_word hdiv hidle rfl _⟩

end Loop

end MultdivFast

/-! ### The slow unit -/

namespace MultdivSlow

variable {i : MdInsn} {s : State} {v : BitVec 34} {acc : BitVec 33}

section Division

variable (hdiv : i.op.isDiv = true)

include hdiv

/-- An instruction that divides is a DIV or a REM. -/
theorem operator_of_isDiv : i.operator = .div ∨ i.operator = .rem := by
  obtain ⟨op, a, b⟩ := i
  cases op with
  | div | divu => exact Or.inl rfl
  | rem | remu => exact Or.inr rfl
  | mul | mulh | mulhsu | mulhu => simp [MulDiv.isDiv] at hdiv

/-- A division only shows its last state. -/
theorem shows_of_isDiv (hs : s.mdState ≠ .finish) : shows i s = false := by
  obtain h | h := operator_of_isDiv hdiv <;> simp [shows, hs, h]

/-- The last state presents the accumulator. -/
theorem presents_finish (hs : s.mdState = .finish) :
    (regs s v).Presents i (fun s => MultdivSlow.State.mdState s = .idle) (v.extractLsb' 0 32) where
  valid ready := by
    rw [valid_regs]
    simp [shows, hs]
  result ready := by
    have hout : (regs s v).out i ready
        = step s (i.input v ready) (ungatedAdder (aluOperands s (i.input v ready))) := rfl
    rw [hout]
    simp only [step, MdInsn.input_divSel, hdiv, if_true]
    refine BitVec.eq_of_toNat_eq ?_
    simp only [accumWindowQ, MdInsn.input_imdValQ, BitVec.extractLsb'_toNat, Nat.shiftRight_zero]
    omega
  hold := by
    rw [next_regs, if_pos]
    simp [cycle, selected, hs]
  accept := by
    rw [next_regs, if_neg (by simp [cycle, selected, hs])]
    simp [cycle, selected, hs, regs]

/-- In its last state the slow unit presents the lower 32 bits of its accumulator. -/
theorem presents_acc (hs : s.mdState = .finish) (acc : BitVec 33) :
    (regs s (acc.setWidth 34)).Presents i (fun s => MultdivSlow.State.mdState s = .idle)
      (acc.setWidth 32) := by
  have h := presents_finish (v := acc.setWidth 34) hdiv hs
  rwa [low_setWidth (by decide)] at h

/-- The subtraction of each state. -/
theorem aluOperands_of_isDiv (x : MultdivIn) (hx : x.operator = i.operator) :
    aluOperands s x =
      match s.mdState with
      | .idle => subOperands 0#32 x.opB
      | .absA => subOperands 0#32 x.opA
      | .absB => subOperands 0#32 x.opB
      | .changeSign => subOperands 0#32 ((accumWindowQ x).extractLsb' 0 32)
      | _ => subOperands ((accumWindowQ x).extractLsb' 0 32) (s.opBShift.extractLsb' 0 32) := by
  obtain h | h := operator_of_isDiv hdiv
  · cases hmd : s.mdState <;> simp only [aluOperands, hx, h, hmd]
  · cases hmd : s.mdState <;> simp only [aluOperands, hx, h, hmd]

/-- The first cycle of the slow unit: a division by zero has its result at once. -/
theorem cycle_idle (hs : s.mdState = .idle) (ready : Bool) :
    cycle i s v ready =
      ⟨{ s with mdState := if i.b = 0#32 then .finish else .absA, multdivState := 31#5 },
        if i.operator = .div then BitVec.allOnes 33
        else BitVec.ofBool (i.a.getLsbD 31 && i.op.signedA) ++ i.a, false⟩ := by
  have hz : (0#32 == i.b) = decide (i.b = 0#32) := by
    rw [Bool.eq_iff_iff, beq_iff_eq, decide_eq_true_iff, eq_comm]
  have hop : aluOperands s (i.input v ready) = subOperands 0#32 i.b := by
    rw [aluOperands_of_isDiv hdiv _ rfl, hs]
    rfl
  obtain h | h := operator_of_isDiv hdiv
  · simp only [cycle, selected, hs, hop, ungatedAdder_isEqual, MdInsn.input_operator, h, hz,
      decide_eq_true_eq, if_true]
  · simp only [cycle, selected, hs, hop, ungatedAdder_isEqual, MdInsn.input_operator, h, hz,
      decide_eq_true_eq, opAExt, MdInsn.input_signA, MdInsn.input_opA, reduceCtorEq, if_false]

/-- The cycle that takes the magnitude of the numerator. -/
theorem cycle_absA (hs : s.mdState = .absA) (ready : Bool) :
    cycle i s (acc.setWidth 34) ready =
      ⟨{ s with opAShift := 0#33, mdState := .absB, opNumerator := i.op.absA i.a }, acc,
        false⟩ := by
  have hop : aluOperands s (i.input (acc.setWidth 34) ready) = subOperands 0#32 i.a := by
    rw [aluOperands_of_isDiv hdiv _ rfl, hs]
    rfl
  simp only [cycle, selected, hs, hop, ungatedAdder_sub, MdInsn.input_signA, MdInsn.input_opA,
    accumWindowQ_setWidth]
  rfl

/-- The cycle that takes the magnitude of the denominator, and the first bit of the numerator. -/
theorem cycle_absB (hs : s.mdState = .absB) (ready : Bool) :
    cycle i s (acc.setWidth 34) ready =
      ⟨{ s with opBShift := (i.op.absB i.b).setWidth 33, mdState := .comp },
        (BitVec.ofBool (s.opNumerator.getLsbD 31)).setWidth 33, false⟩ := by
  have hop : aluOperands s (i.input (acc.setWidth 34) ready) = subOperands 0#32 i.b := by
    rw [aluOperands_of_isDiv hdiv _ rfl, hs]
    rfl
  simp only [cycle, selected, hs, hop, ungatedAdder_sub, MdInsn.input_signB, MdInsn.input_opB]
  rfl

/-- The cycle that gives the result its sign. -/
theorem cycle_changeSign (hs : s.mdState = .changeSign) (r : BitVec 32) (ready : Bool) :
    cycle i s ((r.setWidth 33).setWidth 34) ready =
      ⟨{ s with mdState := .finish }, (changeSign i.changesSign r).setWidth 33, false⟩ := by
  have hop : aluOperands s (i.input ((r.setWidth 33).setWidth 34) ready) = subOperands 0#32 r := by
    rw [aluOperands_of_isDiv hdiv _ rfl, hs, accumWindowQ_setWidth, extract_setWidth (by decide)]
  have hsign : ∀ c : Bool, (if c then (0#32 - r).setWidth 33 else r.setWidth 33)
      = (changeSign c r).setWidth 33 := by
    intro c
    cases c <;> rfl
  simp only [cycle, selected, hs, hop, ungatedAdder_sub, MdInsn.input_signA, MdInsn.input_signB,
    MdInsn.input_operator, accumWindowQ_setWidth, hsign]
  rfl

/-! ### The loop of the slow division -/

/-- The comparison and the difference in the loop. -/
theorem loop_adder (hs : s.mdState = .comp ∨ s.mdState = .last) (acc : BitVec 33) (ready : Bool) :
    isGreaterEqual s (i.input (acc.setWidth 34) ready)
        (ungatedAdder (aluOperands s (i.input (acc.setWidth 34) ready)))
      = decide ((s.opBShift.extractLsb' 0 32).toNat ≤ (acc.extractLsb' 0 32).toNat) ∧
    (resAdderH (ungatedAdder (aluOperands s (i.input (acc.setWidth 34) ready)))).extractLsb' 0 32
      = acc.extractLsb' 0 32 - s.opBShift.extractLsb' 0 32 := by
  have hop : aluOperands s (i.input (acc.setWidth 34) ready)
      = subOperands (acc.extractLsb' 0 32) (s.opBShift.extractLsb' 0 32) := by
    rw [aluOperands_of_isDiv hdiv _ rfl, accumWindowQ_setWidth]
    obtain hs | hs := hs <;> rw [hs]
  have hres : (resAdderH (ungatedAdder
        (aluOperands s (i.input (acc.setWidth 34) ready)))).extractLsb' 0 32
      = acc.extractLsb' 0 32 - s.opBShift.extractLsb' 0 32 := by
    rw [hop, ← ungatedAdder_sub, resAdderH]
    refine BitVec.eq_of_getLsbD_eq fun k hk => ?_
    have hk' : k < 33 := by omega
    simp only [ungatedAdder, BitVec.getLsbD_extractLsb', hk, hk', decide_true, Bool.true_and,
      zero_add]
  have hbit : ∀ v : BitVec 33, v.getLsbD 31 = (v.extractLsb' 0 32).getLsbD 31 := fun v => by
    simp
  refine ⟨?_, hres⟩
  rw [isGreaterEqual, accumWindowQ_setWidth, hbit acc, hbit s.opBShift, hbit (resAdderH _), hres]
  exact greaterEqual_eq _ _

/-- The quotient and the remainder of a cycle in the loop. -/
theorem loop_next (hs : s.mdState = .comp ∨ s.mdState = .last) (acc : BitVec 33) (ready : Bool) :
    nextQuotient s (i.input (acc.setWidth 34) ready)
        (ungatedAdder (aluOperands s (i.input (acc.setWidth 34) ready)))
      = quotientNext (s.opBShift.extractLsb' 0 32) s.multdivState s.opAShift
          (acc.extractLsb' 0 32) ∧
    (nextReminder s (i.input (acc.setWidth 34) ready)
        (ungatedAdder (aluOperands s (i.input (acc.setWidth 34) ready)))).extractLsb' 0 32
      = remainderNext (s.opBShift.extractLsb' 0 32) (acc.extractLsb' 0 32) := by
  obtain ⟨hge, hres⟩ := loop_adder hdiv hs acc ready
  simp only [nextQuotient, nextReminder, hge, decide_eq_true_eq, accumWindowQ_setWidth]
  refine ⟨rfl, ?_⟩
  rw [remainderNext, ← hres]
  split_ifs <;> rfl

/-- One cycle of the loop. -/
theorem comp_next {k : ℕ} (hs : s.mdState = .comp)
    (h : Dividing s.opNumerator (s.opBShift.extractLsb' 0 32) s.multdivState s.opAShift
      (acc.extractLsb' 0 32) (k + 1)) :
    ∃ (s' : State) (acc' : BitVec 33),
      (regs s (acc.setWidth 34)).Comes i 1 (regs s' (acc'.setWidth 34)) ∧
      s'.mdState = (if k = 0 then .last else .comp) ∧ s'.opNumerator = s.opNumerator ∧
      s'.opBShift = s.opBShift ∧
      Dividing s.opNumerator (s.opBShift.extractLsb' 0 32) s'.multdivState s'.opAShift
        (acc'.extractLsb' 0 32) k := by
  refine ⟨{ s with
      multdivState := s.multdivState - 1#5
      opAShift := quotientNext (s.opBShift.extractLsb' 0 32) s.multdivState s.opAShift
        (acc.extractLsb' 0 32)
      mdState := if s.multdivState = 1#5 then .last else .comp },
    remainderNext (s.opBShift.extractLsb' 0 32) (acc.extractLsb' 0 32)
      ++ BitVec.ofBool (s.opNumerator.getLsbD k),
    comes_of_cycle (shows_of_isDiv hdiv (by simp [hs])) fun ready => ?_,
    by simp only [h.counter_eq_one], rfl, rfl, ?_⟩
  · obtain ⟨hq, hr⟩ := loop_next hdiv (Or.inl hs) acc ready
    obtain hop | hop := operator_of_isDiv hdiv
    all_goals simp only [cycle, selected, hs, h.counter_pred, hq, hr, MdInsn.input_operator, hop]
  · rw [← BitVec.setWidth_eq_extractLsb' (by decide)]
    exact h.next (by decide)

/-- **The loop.** -/
theorem comp_last {k : ℕ} (hs : s.mdState = .comp)
    (h : Dividing s.opNumerator (s.opBShift.extractLsb' 0 32) s.multdivState s.opAShift
      (acc.extractLsb' 0 32) (k + 1)) :
    ∃ (s' : State) (acc' : BitVec 33),
      (regs s (acc.setWidth 34)).Comes i (k + 1) (regs s' (acc'.setWidth 34)) ∧
      s'.mdState = .last ∧ s'.opNumerator = s.opNumerator ∧ s'.opBShift = s.opBShift ∧
      Dividing s.opNumerator (s.opBShift.extractLsb' 0 32) s'.multdivState s'.opAShift
        (acc'.extractLsb' 0 32) 0 := by
  induction k generalizing s acc with
  | zero => exact comp_next hdiv hs h
  | succ k ih =>
      obtain ⟨s', acc', hgo, hst, hn, hb, h'⟩ := comp_next hdiv hs h
      rw [← hn, ← hb] at h'
      obtain ⟨s'', acc'', hgo', hst', hn', hb', h''⟩ := ih (by simpa using hst) h'
      rw [hn, hb] at h''
      refine ⟨s'', acc'', ?_, hst', hn'.trans hn, hb'.trans hb, h''⟩
      rw [Nat.add_comm]
      exact hgo.trans hgo'

/-- The last step of the loop leaves what is asked for. -/
theorem last_next (hs : s.mdState = .last) (hn : s.opNumerator = i.op.absA i.a)
    (hb : s.opBShift.extractLsb' 0 32 = i.op.absB i.b)
    (h : Dividing s.opNumerator (s.opBShift.extractLsb' 0 32) s.multdivState s.opAShift
      (acc.extractLsb' 0 32) 0) :
    ∃ s', s'.mdState = .changeSign ∧ (regs s (acc.setWidth 34)).Comes i 1
      (regs s' (((BitVec.ofNat 32 i.absResult).setWidth 33).setWidth 34)) := by
  refine ⟨{ s with mdState := .changeSign }, rfl,
    comes_of_cycle (shows_of_isDiv hdiv (by simp [hs])) fun ready => ?_⟩
  obtain ⟨hq, hr⟩ := loop_next hdiv (Or.inr hs) acc ready
  obtain ⟨hquot, hrem⟩ := (h.scanned (by decide)).done
  have hlt : (quotientNext (s.opBShift.extractLsb' 0 32) s.multdivState s.opAShift
      (acc.extractLsb' 0 32)).toNat < 2 ^ 32 := by
    rw [hquot]
    exact (Nat.div_le_self _ _).trans_lt s.opNumerator.isLt
  obtain hop | hop := operator_of_isDiv hdiv
  · have hres : (BitVec.ofNat 32 i.absResult).setWidth 33
        = quotientNext (s.opBShift.extractLsb' 0 32) s.multdivState s.opAShift
            (acc.extractLsb' 0 32) := by
      refine BitVec.eq_of_toNat_eq ?_
      rw [MdInsn.absResult, if_pos hop, ← hn, ← hb, ← hquot, BitVec.toNat_setWidth,
        BitVec.toNat_ofNat]
      omega
    simp only [cycle, selected, hs, MdInsn.input_operator, hop, hq, hres]
  · have hres : BitVec.ofNat 32 i.absResult
        = remainderNext (s.opBShift.extractLsb' 0 32) (acc.extractLsb' 0 32) := by
      rw [MdInsn.absResult, if_neg (by rw [hop]; decide), ← hn, ← hb, ← hrem, BitVec.ofNat_toNat,
        BitVec.setWidth_eq]
    simp only [cycle, selected, hs, MdInsn.input_operator, hop, hr, hres]

/-- **A division in the slow unit.** -/
theorem delivers_division (v : BitVec 34) (hs : s.mdState = .idle) :
    (regs s v).Delivers i (fun s => MultdivSlow.State.mdState s = .idle) i.result := by
  refine .of_comes (comes_of_cycle (shows_of_isDiv hdiv (by simp [hs])) (cycle_idle hdiv hs)) ?_
  by_cases hb : i.b = 0#32
  · rw [if_pos hb]
    refine ⟨0, _, .refl _, ?_⟩
    have hres : i.result = (if i.operator = .div then BitVec.allOnes 33
        else BitVec.ofBool (i.a.getLsbD 31 && i.op.signedA) ++ i.a).setWidth 32 := by
      rw [MdInsn.result_zero hdiv hb]
      split_ifs
      · rfl
      · exact (Bits.extract_last _ _).symm.trans (BitVec.setWidth_eq_extractLsb' (by decide)).symm
    rw [hres]
    exact presents_acc hdiv rfl _
  · rw [if_neg hb]
    -- the absolute values, the loop, and the sign
    refine .of_comes (comes_of_cycle (shows_of_isDiv hdiv (by simp)) (cycle_absA hdiv rfl)) ?_
    refine .of_comes (comes_of_cycle (shows_of_isDiv hdiv (by simp)) (cycle_absB hdiv rfl)) ?_
    have hword : ((i.op.absB i.b).setWidth 33).extractLsb' 0 32 = i.op.absB i.b :=
      extract_setWidth (by decide) _
    have hstart : Dividing (i.op.absA i.a) (((i.op.absB i.b).setWidth 33).extractLsb' 0 32) 31#5
        0#33 (((BitVec.ofBool ((i.op.absA i.a).getLsbD 31)).setWidth 33).extractLsb' 0 32)
        (30 + 1) := by
      rw [hword, low_setWidth (by decide)]
      exact Dividing.start _ (MdInsn.absB_pos hb)
    obtain ⟨s', acc', hloop, hlast, hn, hden, h⟩ := comp_last hdiv
      (s := ⟨31#5, .comp, (i.op.absB i.b).setWidth 33, 0#33, i.op.absA i.a⟩) (i := i) rfl hstart
    refine .of_comes hloop ?_
    have hn' : s'.opNumerator = i.op.absA i.a := hn
    have hden' : s'.opBShift.extractLsb' 0 32 = i.op.absB i.b := by
      rw [hden]
      exact hword
    have h' : Dividing s'.opNumerator (s'.opBShift.extractLsb' 0 32) s'.multdivState s'.opAShift
        (acc'.extractLsb' 0 32) 0 := by
      rw [hn, hden]
      exact h
    obtain ⟨s'', hsign, hgo⟩ := last_next hdiv hlast hn' hden' h'
    refine .of_comes hgo ?_
    refine .of_comes (comes_of_cycle (shows_of_isDiv hdiv (by simp [hsign]))
      (cycle_changeSign hdiv hsign _)) ?_
    have hlow : ((changeSign i.changesSign (BitVec.ofNat 32 i.absResult)).setWidth 33).setWidth 32
        = changeSign i.changesSign (BitVec.ofNat 32 i.absResult) := by
      rw [BitVec.setWidth_eq_extractLsb' (by decide), extract_setWidth (by decide)]
    have hpresents := presents_acc hdiv (s := { s'' with mdState := .finish }) rfl
      ((changeSign i.changesSign (BitVec.ofNat 32 i.absResult)).setWidth 33)
    rw [hlow] at hpresents
    rw [MdInsn.result_ne_zero hdiv hb]
    exact ⟨0, _, .refl _, hpresents⟩

end Division

end MultdivSlow

/-! ### The EX block -/

/-- **Divisions are correct** in every implementation: from an idle unit, with the operands
held, `div`, `divu`, `rem` and `remu` compute their results. -/
theorem division_correct (cfg : Config) (hM : cfg.rv32m = true) (m : Multiplier) (op : MulDiv)
    (hop : op.isDiv = true) (a b : BitVec 32) (s : ExState m) (hs : m.Idle s.multdiv) :
    ExBlock.Computes cfg s ⟨op, a, b⟩ (op.exec a b) := by
  refine ExBlock.computes_of_delivers hM ?_
  cases m with
  | slow => exact MultdivSlow.delivers_division (i := ⟨op, a, b⟩) hop s.imdValQ hs
  | fast =>
      obtain ⟨⟨d, mult⟩, imdValQ⟩ := s
      obtain ⟨hd, rfl⟩ := hs
      exact MultdivFast.delivers_division (i := ⟨op, a, b⟩) hop
        (fun x _ => (rfl : (MultdivFast.fastMult .albl x).multValid = false)) imdValQ hd
  | singleCycle =>
      obtain ⟨⟨d, mult⟩, imdValQ⟩ := s
      obtain ⟨hd, rfl⟩ := hs
      have hidle : ∀ x, x.multEn = false → (MultdivFast.singleMult .mull x).multValid = false := by
        intro x hx
        simp only [MultdivFast.singleMult, hx]
        split_ifs <;> rfl
      exact MultdivFast.delivers_division (i := ⟨op, a, b⟩) hop hidle imdValQ hd

/-- A signed division after a reset. -/
theorem division_correct_slow :
    ExBlock.Computes ⟨true, false, false⟩ (ExBlock.reset .slow) ⟨.div, 0xfffffff9#32, 2#32⟩
        (MulDiv.exec .div 0xfffffff9#32 2#32) ∧
      MulDiv.exec .div 0xfffffff9#32 2#32 = 0xfffffffd#32 :=
  ⟨division_correct ⟨true, false, false⟩ rfl .slow .div rfl _ _ (ExBlock.reset .slow) rfl,
    by decide⟩

end CocoIbex
