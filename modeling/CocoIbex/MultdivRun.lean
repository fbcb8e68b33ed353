import CocoIbex.Decoder
import CocoIbex.ExBlock
import CocoIbex.Machine
import CocoIbex.Rv32M

/-!
# Runs of the Multiplier and Divider

A unit works for an instruction whose operands and enables are held, with the ungated adder of
the ALU and the intermediate value register. `Delivers` is what is wanted of it: after some
cycles it presents the result until it is accepted, and is idle again. `computes` carries this
from the unit to the EX block.

`Comes` is a run in which the result is on its way: each cycle is busy and leads to the next,
and the last one presents it. It is closed under a step at its front, so a loop of a unit is an
induction on its counter, and no number of cycles has to be named. The unit presents its result
as long as ID does not accept it, which is one more case of the same induction.

The instructions are those of the M extension, with the result that the instruction set gives
them; what the operator and the signed mode are for each is decoded here.

## Main results

* `next_regs` — the registers take what the cycle computes, unless the unit waits for ID;
* `result_of_mul` — a multiplication asks for the low or for the high half of the product;
* `computes_of_delivers` — what a unit delivers, the EX block computes.
-/

namespace CocoIbex

open Machine Rv32

/-! ### One instruction -/

/-- An instruction of the M extension with its operands. -/
structure MdInsn where
  op : MulDiv
  a : BitVec 32
  b : BitVec 32
  deriving DecidableEq, Repr

namespace MdInsn

variable (i : MdInsn)

/-- The operation of the unit, as it is decoded. -/
def operator : MdOp := (opMultdiv i.op.funct3).1

/-- The signedness of the operands, as it is decoded. -/
def signedMode : BitVec 2 := (opMultdiv i.op.funct3).2

/-- The result. -/
def result : BitVec 32 := i.op.exec i.a i.b

/-- A division asks for the quotient or for the remainder. -/
theorem result_of_isDiv {i : MdInsn} (h : i.op.isDiv = true) :
    i.result = if i.operator = .div then i.op.quotient i.a i.b else i.op.remainder i.a i.b := by
  obtain ⟨op, a, b⟩ := i
  cases op with
  | div | divu | rem | remu => rfl
  | mul | mulh | mulhsu | mulhu => simp [MulDiv.isDiv] at h

/-- A multiplication asks for the low or for the high half of the product. -/
theorem result_of_mul {i : MdInsn} (h : i.op.isDiv = false) :
    (i.operator = .mull ∧ i.op = .mul ∧ i.result = BitVec.ofInt 32 (i.op.product i.a i.b)) ∨
      (i.operator = .mulh ∧ i.result = BitVec.ofInt 32 (i.op.product i.a i.b / 2 ^ 32)) := by
  obtain ⟨op, a, b⟩ := i
  cases op with
  | mul => exact Or.inl ⟨rfl, rfl, rfl⟩
  | mulh | mulhsu | mulhu => exact Or.inr ⟨rfl, rfl⟩
  | div | divu | rem | remu => cases h

/-- The inputs of a unit that works for the instruction. -/
def input (imdValQ : BitVec 34) (ready : Bool) : MultdivIn where
  multEn := !i.op.isDiv
  divEn := i.op.isDiv
  multSel := !i.op.isDiv
  divSel := i.op.isDiv
  operator := i.operator
  signedMode := i.signedMode
  opA := i.a
  opB := i.b
  imdValQ := imdValQ
  multdivReadyId := ready

variable {i} {imdValQ : BitVec 34} {ready : Bool}

/-- The first operand of an instruction in the unit is its own, in every cycle. -/
@[simp] theorem input_opA : (i.input imdValQ ready).opA = i.a := rfl

/-- So is the second operand. -/
@[simp] theorem input_opB : (i.input imdValQ ready).opB = i.b := rfl

/-- The accumulator is the one of the cycle. -/
@[simp] theorem input_imdValQ : (i.input imdValQ ready).imdValQ = imdValQ := rfl

/-- The handshake with ID is the one of the cycle. -/
@[simp] theorem input_multdivReadyId : (i.input imdValQ ready).multdivReadyId = ready := rfl

/-- The unit sees the operator of the instruction. -/
@[simp] theorem input_operator : (i.input imdValQ ready).operator = i.operator := rfl

/-- The unit sees the signs that the instruction has. -/
@[simp] theorem input_signedMode : (i.input imdValQ ready).signedMode = i.signedMode := rfl

/-- The divider is enabled for a division. -/
@[simp] theorem input_divEn : (i.input imdValQ ready).divEn = i.op.isDiv := rfl

/-- The divider is selected for a division. -/
@[simp] theorem input_divSel : (i.input imdValQ ready).divSel = i.op.isDiv := rfl

/-- The multiplier is enabled for a product. -/
@[simp] theorem input_multEn : (i.input imdValQ ready).multEn = !i.op.isDiv := rfl

/-- The multiplier is selected for a product. -/
@[simp] theorem input_multSel : (i.input imdValQ ready).multSel = !i.op.isDiv := rfl

/-- The decoded signedness is that of the instruction. -/
@[simp] theorem input_signA :
    (i.input imdValQ ready).signA = (i.a.getLsbD 31 && i.op.signedA) := by
  simp only [MultdivIn.signA, input_opA, input_signedMode, signedMode]
  cases i.op <;> rfl

/-- The sign of the second operand counts where the operation is signed in it. -/
@[simp] theorem input_signB :
    (i.input imdValQ ready).signB = (i.b.getLsbD 31 && i.op.signedB) := by
  simp only [MultdivIn.signB, input_opB, input_signedMode, signedMode]
  cases i.op <;> rfl

end MdInsn

/-! ### The ungated adder -/

/-- The answer of the adder without its mask. -/
def ungatedAdder (o : BitVec 33 × BitVec 33) : AdderOut :=
  let ext : BitVec 34 := o.1.setWidth 34 + o.2.setWidth 34
  { ext := ext, result := ext.extractLsb' 1 32, isEqual := ext.extractLsb' 1 32 == 0#32 }

/-- It subtracts. -/
theorem ungatedAdder_sub (p q : BitVec 32) :
    (ungatedAdder (subOperands p q)).result = p - q := by
  refine BitVec.eq_of_toNat_eq ?_
  simp only [ungatedAdder, subOperands, BitVec.extractLsb'_toNat, BitVec.toNat_add,
    BitVec.toNat_setWidth, Bits.toNat_append_eq, Nat.shiftRight_eq_div_pow, BitVec.toNat_sub,
    BitVec.toNat_not, BitVec.toNat_ofNat]
  have := p.isLt
  have := q.isLt
  omega

/-- The comparison of the adder with zero tells whether the operands of a difference are equal. -/
theorem ungatedAdder_isEqual (p q : BitVec 32) :
    (ungatedAdder (subOperands p q)).isEqual = (p == q) := by
  change ((ungatedAdder (subOperands p q)).result == 0#32) = _
  rw [ungatedAdder_sub, Bool.eq_iff_iff, beq_iff_eq, beq_iff_eq, BitVec.sub_eq_iff_eq_add,
    BitVec.zero_add]

/-- The comparison by the sign bits and that of the difference is the order of the words. -/
theorem greaterEqual_eq (p q : BitVec 32) :
    (if (p.getLsbD 31 ^^ q.getLsbD 31) = false then !(p - q).getLsbD 31 else p.getLsbD 31)
      = decide (q.toNat ≤ p.toNat) := by
  have hmsb : ∀ v : BitVec 32, v.getLsbD 31 = decide (2 ^ 31 ≤ v.toNat) := fun v =>
    (BitVec.msb_eq_getLsbD_last v).symm.trans (BitVec.msb_eq_decide v)
  have hp := p.isLt
  have hq := q.isLt
  rw [hmsb, hmsb, hmsb, BitVec.toNat_sub, Bool.eq_iff_iff]
  by_cases h1 : 2 ^ 31 ≤ p.toNat <;> by_cases h2 : 2 ^ 31 ≤ q.toNat
  all_goals
    simp only [h1, h2, decide_true, decide_false, Bool.xor_self, Bool.xor_false, Bool.xor_true,
      Bool.not_false, Bool.not_eq_true', decide_eq_false_iff_not, decide_eq_true_eq, if_true,
      Bool.true_eq_false, Bool.false_eq_true, if_false, true_iff, false_iff]
    omega

/-! ### The unit with the adder and its register -/

/-- The registers of a unit and the intermediate value register. -/
structure MultdivUnit.Regs (u : MultdivUnit) where
  unit : u.State
  imdValQ : BitVec 34

namespace MultdivUnit.Regs

variable {u : MultdivUnit} (i : MdInsn) (s : u.Regs) (ready : Bool)

/-- The outputs and next registers of the unit. -/
def out : MultdivOut × u.State :=
  let x := i.input s.imdValQ ready
  u.step s.unit x (ungatedAdder (u.aluOperands s.unit x))

/-- One clock edge. -/
def next : u.Regs where
  unit := (s.out i ready).2
  imdValQ := if (s.out i ready).1.imdValWe then (s.out i ready).1.imdValD else s.imdValQ

/-- The unit presents the result `r` until it is accepted, and is idle then. -/
structure Presents (idle : u.State → Prop) (r : BitVec 32) : Prop where
  valid : ∀ ready, (s.out i ready).1.valid = true
  result : ∀ ready, (s.out i ready).1.multdivResult = r
  hold : s.next i false = s
  accept : idle (s.next i true).unit

/-- The unit has no result yet. -/
def Busy : Prop := ∀ ready, (s.out i ready).1.valid = false

/-- In so many cycles, none of which shows a result, the unit comes to `t`. -/
def Comes (n : ℕ) (t : u.Regs) : Prop := Goes (next i) (Busy i) n s t

/-- After some cycles, none of which shows another result, the unit presents `r`. -/
def Delivers (idle : u.State → Prop) (r : BitVec 32) : Prop :=
  ∃ n t, s.Comes i n t ∧ t.Presents i idle r

variable {i s} {t : u.Regs} {idle : u.State → Prop} {r : BitVec 32}

/-- A unit that presents a result does so while it is not accepted. -/
theorem Presents.run_hold (h : s.Presents i idle r) (k : ℕ) :
    run (next i) s (List.replicate k false) = s := by
  induction k with
  | zero => rfl
  | succ k ih =>
      rw [List.replicate_succ, run_cons, h.hold]
      exact ih

/-- What comes after some cycles. -/
theorem Delivers.of_comes {n : ℕ} (h : s.Comes i n t) (h' : t.Delivers i idle r) :
    s.Delivers i idle r := by
  obtain ⟨m, v, hgo, hp⟩ := h'
  exact ⟨n + m, v, h.trans hgo, hp⟩

end MultdivUnit.Regs

/-! ### The fast unit -/

namespace MultdivFast

variable {μ : Type}

/-- Neither a division nor a multiplication is at work. -/
def AtRest (idle : μ) (s : State μ) : Prop := s.div.mdState = .idle ∧ s.multState = idle

/-- The registers of the unit. -/
def regs (mult : μ → MultdivIn → MultOut μ) (idle : μ) (d : DivReg) (st : μ) (v : BitVec 34) :
    (unitOf mult idle).Regs := ⟨⟨d, st⟩, v⟩

/-- Its outputs with the ungated adder. -/
theorem out_regs (mult : μ → MultdivIn → MultOut μ) (idle : μ) (i : MdInsn) (d : DivReg) (st : μ)
    (v : BitVec 34) (ready : Bool) :
    (regs mult idle d st v).out i ready
      = step mult ⟨d, st⟩ (i.input v ready) (ungatedAdder (aluOperands d (i.input v ready))) :=
  rfl

end MultdivFast

/-! ### The slow unit -/

namespace MultdivSlow

variable {i : MdInsn}

/-- The registers of the unit. -/
def regs (s : State) (imdValQ : BitVec 34) : slow.Regs := ⟨s, imdValQ⟩

/-- One cycle with the ungated adder. -/
def cycle (i : MdInsn) (s : State) (imdValQ : BitVec 34) (ready : Bool) : Comb :=
  let x := i.input imdValQ ready
  selected s x (ungatedAdder (aluOperands s x))

/-- The states that show a result. -/
def shows (i : MdInsn) (s : State) : Bool :=
  s.mdState == .finish || (s.mdState == .last && (i.operator == .mull || i.operator == .mulh))

variable {s s' : State} {imdValQ : BitVec 34} {acc : BitVec 33}

/-- What the unit computes in a cycle with an instruction is the cycle of this instruction. -/
theorem comb_input (ready : Bool) :
    comb s (i.input imdValQ ready) (ungatedAdder (aluOperands s (i.input imdValQ ready)))
      = cycle i s imdValQ ready := by
  have hsel : ((i.input imdValQ ready).multSel || (i.input imdValQ ready).divSel) = true := by
    simp
  rw [comb, if_pos hsel]
  rfl

/-- The registers take what the cycle computes, unless the unit waits for ID. -/
theorem next_regs (ready : Bool) :
    (regs s imdValQ).next i ready
      = if (cycle i s imdValQ ready).multdivHold then regs s imdValQ
        else regs (cycle i s imdValQ ready).next
          ((cycle i s imdValQ ready).accumWindowD.setWidth 34) := by
  have hout : (regs s imdValQ).out i ready
      = step s (i.input imdValQ ready)
          (ungatedAdder (aluOperands s (i.input imdValQ ready))) := rfl
  have hen : ((i.input imdValQ ready).multEn || (i.input imdValQ ready).divEn) = true := by
    simp
  simp only [MultdivUnit.Regs.next, hout, step, comb_input, hen, Bool.true_and]
  cases hh : (cycle i s imdValQ ready).multdivHold with
  | true => simp [regs]
  | false => simp [regs]

/-- The unit shows its result in the states in which the instruction is done. -/
theorem valid_regs (ready : Bool) : ((regs s imdValQ).out i ready).1.valid = shows i s := rfl

/-- A cycle that does not depend on the readiness. -/
theorem comes_of_cycle (hs : shows i s = false)
    (h : ∀ ready, cycle i s imdValQ ready = ⟨s', acc, false⟩) :
    (regs s imdValQ).Comes i 1 (regs s' (acc.setWidth 34)) := by
  refine .step (fun ready => (valid_regs ready).trans hs) (fun ready => ?_) (.refl _)
  rw [next_regs, h]
  rfl

/-- The accumulator in its register. -/
@[simp] theorem accumWindowQ_setWidth (acc : BitVec 33) (ready : Bool) :
    accumWindowQ (i.input (acc.setWidth 34) ready) = acc := by
  refine BitVec.eq_of_toNat_eq ?_
  have := acc.isLt
  rw [accumWindowQ, MdInsn.input_imdValQ, BitVec.extractLsb'_toNat, Nat.shiftRight_zero,
    BitVec.toNat_setWidth]
  omega

end MultdivSlow

/-! ### The EX block -/

/-- The EX block is at work for the instruction, its masks off. -/
structure ExIn.Holds (i : MdInsn) (x : ExIn) : Prop where
  operator : x.multdivOperator = i.operator
  signedMode : x.multdivSignedMode = i.signedMode
  multEn : x.multEn = !i.op.isDiv
  multSel : x.multSel = !i.op.isDiv
  divEn : x.divEn = i.op.isDiv
  divSel : x.divSel = i.op.isDiv
  opA : x.multdivOperandA = i.a
  opB : x.multdivOperandB = i.b
  mdEnable : x.mdEnable = true
  adderEnable : x.adderEnable = true

/-- The unit of an implementation is idle, its multiplication and its division. -/
def Multiplier.Idle : (m : Multiplier) → m.unit.State → Prop
  | .slow, s => MultdivSlow.State.mdState s = .idle
  | .fast, s => s.div.mdState = .idle ∧ s.multState = MultdivFast.MultFsm.albl
  | .singleCycle, s => s.div.mdState = .idle ∧ s.multState = MultdivFast.SingleFsm.mull

namespace ExBlock

variable {cfg : Config} {m : Multiplier} {s : ExState m} {x : ExIn} {i : MdInsn}

/-- The registers of the block as those of its unit. -/
def regs (s : ExState m) : m.unit.Regs := ⟨s.multdiv, s.imdValQ⟩

/-- The result `r` of the instruction comes out of the block: after `n` cycles it is valid,
and it is the same in every cycle until it is accepted; then the unit is idle. -/
def Computes (cfg : Config) (s : ExState m) (i : MdInsn) (r : BitVec 32) : Prop :=
  ∃ n, ∀ ins : List ExIn, (∀ x ∈ ins, x.Holds i) →
    (ins.length < n →
      ∀ x : ExIn, x.Holds i →
        (outputs cfg m (run (next cfg m) s ins) x).exValid = false) ∧
    (n ≤ ins.length → (∀ x ∈ ins.drop n, x.multdivReadyId = false) →
      ∀ x : ExIn, x.Holds i →
        (outputs cfg m (run (next cfg m) s ins) x).exValid = true ∧
        (outputs cfg m (run (next cfg m) s ins) x).resultEx = r ∧
        (x.multdivReadyId = true → m.Idle (run (next cfg m) s (ins ++ [x])).multdiv))

/-- The block selects the unit. -/
theorem multdivSel_of_holds (hM : cfg.rv32m = true) (hx : x.Holds i) :
    multdivSel cfg x = true := by
  rw [multdivSel, hM, hx.multSel, hx.divSel]
  cases i.op.isDiv <;> rfl

/-- The unit sees the instruction. -/
theorem multdivIn_of_holds (hx : x.Holds i) :
    multdivIn m s x = i.input s.imdValQ x.multdivReadyId := by
  simp [multdivIn, MdInsn.input, hx.multEn, hx.divEn, hx.multSel, hx.divSel, hx.operator,
    hx.signedMode, hx.opA, hx.opB, hx.mdEnable]

/-- The adder of the ALU adds the operands of the unit. -/
theorem adderResultExt_of_holds (hM : cfg.rv32m = true) (hx : x.Holds i) :
    Alu.adderResultExt (aluIn cfg m s x) = (ungatedAdder (m.unit.aluOperands s.multdiv
      (i.input s.imdValQ x.multdivReadyId))).ext := by
  simp only [Alu.adderResultExt, Alu.adderInA, Alu.adderInB, aluIn, multdivSel_of_holds hM hx,
    hx.adderEnable, Bits.gate_true, if_true, multdivIn_of_holds hx, ungatedAdder]

/-- The mask of the secure build drops the bit of the sum that the unit does not use. -/
theorem extract_mask (v : BitVec 34) :
    (v &&& (Bits.fill 33 true).setWidth 34).extractLsb' 1 32 = v.extractLsb' 1 32 := by
  refine BitVec.eq_of_getLsbD_eq fun k hk => ?_
  simp only [Bits.fill, if_true, BitVec.getLsbD_extractLsb', BitVec.getLsbD_and,
    BitVec.getLsbD_setWidth, BitVec.getLsbD_allOnes]
  have h1 : 1 + k < 34 := by omega
  have h2 : 1 + k < 33 := by omega
  simp [h1, h2]

/-- The unit in the block works as on its own with the ungated adder. -/
theorem multdiv_of_holds (hM : cfg.rv32m = true) (hx : x.Holds i) :
    multdiv cfg m s x = (regs s).out i x.multdivReadyId := by
  have hext := adderResultExt_of_holds (m := m) (s := s) hM hx
  have hin := multdivIn_of_holds (m := m) (s := s) hx
  have hres : Alu.adderResult (aluIn cfg m s x) = (ungatedAdder (m.unit.aluOperands s.multdiv
      (i.input s.imdValQ x.multdivReadyId))).result := by
    rw [Alu.adderResult, hext]
    rfl
  have hz : Alu.isEqual (aluIn cfg m s x) = (ungatedAdder (m.unit.aluOperands s.multdiv
      (i.input s.imdValQ x.multdivReadyId))).isEqual := by
    rw [Alu.isEqual, hres]
    rfl
  rw [multdiv, hin]
  cases m with
  | fast =>
      refine MultdivFast.step_congr _ _ _ ?_ ?_ hz
      · change (adderOut cfg .fast s x).ext.extractLsb' 1 32 = _
        simp only [adderOut, if_true, hx.mdEnable, extract_mask, hext]
        rfl
      · simp only [adderOut, if_true, hx.mdEnable, Bits.gate_true, hres]
        rfl
  | slow =>
      have hout : adderOut cfg .slow s x = ungatedAdder (Multiplier.slow.unit.aluOperands s.multdiv
          (i.input s.imdValQ x.multdivReadyId)) := by
        simp only [adderOut, reduceCtorEq, if_false, hext, hres, hz]
      rw [hout]
      rfl
  | singleCycle =>
      have hout : adderOut cfg .singleCycle s x = ungatedAdder
          (Multiplier.singleCycle.unit.aluOperands s.multdiv
            (i.input s.imdValQ x.multdivReadyId)) := by
        simp only [adderOut, reduceCtorEq, if_false, hext, hres, hz]
      rw [hout]
      rfl

/-- One cycle of the block is one of its unit. -/
theorem regs_next (hM : cfg.rv32m = true) (hx : x.Holds i) :
    regs (next cfg m s x) = (regs s).next i x.multdivReadyId := by
  simp only [regs, ExBlock.next, multdivSel_of_holds hM hx, multdiv_of_holds hM hx, if_true]
  rfl

/-- A run of the block is one of its unit. -/
theorem regs_run (hM : cfg.rv32m = true) {ins : List ExIn} (h : ∀ x ∈ ins, x.Holds i) :
    regs (run (next cfg m) s ins)
      = run (MultdivUnit.Regs.next i) (regs s) (ins.map (·.multdivReadyId)) := by
  induction ins generalizing s with
  | nil => rfl
  | cons x ins ih =>
      rw [run_cons, List.map_cons, run_cons, ih fun y hy => h y (List.mem_cons_of_mem x hy),
        regs_next hM (h x List.mem_cons_self)]

/-- What the block puts out. -/
theorem outputs_of_holds (hM : cfg.rv32m = true) (hx : x.Holds i) :
    (outputs cfg m s x).exValid = ((regs s).out i x.multdivReadyId).1.valid ∧
      (outputs cfg m s x).resultEx = ((regs s).out i x.multdivReadyId).1.multdivResult := by
  simp only [outputs, multdivSel_of_holds hM hx, multdiv_of_holds hM hx, if_true, and_self]

/-- **From the unit to the block.** -/
theorem computes_of_delivers (hM : cfg.rv32m = true) {r : BitVec 32}
    (h : (regs s).Delivers i m.Idle r) : Computes cfg s i r := by
  obtain ⟨n, t, hgo, hp⟩ := h
  refine ⟨n, fun ins hins => ⟨fun hlen x hx => ?_, fun hlen hhold x hx => ?_⟩⟩
  · rw [(outputs_of_holds hM hx).1, regs_run hM hins]
    exact hgo.quiet_run (by rwa [List.length_map]) _
  · have hrun : regs (run (next cfg m) s ins) = t := by
      have hall : (ins.drop n).map (·.multdivReadyId)
          = List.replicate (ins.drop n).length false := by
        rw [List.eq_replicate_iff]
        refine ⟨List.length_map _, fun b hb => ?_⟩
        obtain ⟨y, hy, rfl⟩ := List.mem_map.mp hb
        exact hhold y hy
      rw [regs_run hM hins, ← List.take_append_drop n ins, List.map_append, run_append,
        hgo.run_eq (by simpa using hlen), hall]
      exact hp.run_hold _
    obtain ⟨hv, hres⟩ := outputs_of_holds (m := m) (s := run (next cfg m) s ins) hM hx
    rw [hv, hres, hrun]
    refine ⟨hp.valid _, hp.result _, fun hready => ?_⟩
    have hnext := regs_next (m := m) (s := run (next cfg m) s ins) hM hx
    rw [hrun, hready] at hnext
    rw [run_concat]
    have hidle := hp.accept
    rw [← hnext] at hidle
    exact hidle

end ExBlock

end CocoIbex
