import CocoIbex.MdGating
import CocoIbex.ShiftGating

/-!
# EX under its Masks

What an instruction takes from EX with two inputs that differ in the enables of the secure
build, or in operands that it does not use (`ExBlock.Agree`). A mask that is off makes no
difference to an instruction that does without the unit behind it.

The results on the single masks compare the block with one mask and the block without it. Here
they are chained (`Agree.trans`): with the masks of the adder, of the shifter and of the
multiplier and divider all in place, an instruction takes what it takes without any. An
instruction that leaves the multiplier and divider alone (`Idle`) does not depend on their
operands at all, which are masked or not by the read ports too.

## Main results

* `agree_withShift` and `AdderFree.agree` — the mask of the shifter and the mask of the adder;
* `Idle.agree` — the operands of the multiplier and divider do not matter without them;
* `Idle.next` — and EX stays as it is.
-/

namespace CocoIbex

namespace Alu

/-! ### The operands of the multiplier and divider -/

variable (rv32b : Bool) {x : AluIn} (a b : BitVec 33)

/-- The inputs with other operands of the multiplier and divider. -/
def withMultdiv (x : AluIn) (a b : BitVec 33) : AluIn :=
  { x with multdivOperandA := a, multdivOperandB := b }

/-- The adder takes them only when the unit is selected. -/
theorem adderResultExt_withMultdiv (h : x.multdivSel = false) :
    adderResultExt (withMultdiv x a b) = adderResultExt x := by
  have hsel : (withMultdiv x a b).multdivSel = false := h
  simp only [adderResultExt, adderInA, adderInB, hsel, h, Bool.false_eq_true, if_false]
  rfl

/-- Where the multiplier and divider are not selected, their operands do not reach the adder. -/
theorem adderResult_withMultdiv (h : x.multdivSel = false) :
    adderResult (withMultdiv x a b) = adderResult x := by
  rw [adderResult, adderResultExt_withMultdiv a b h, adderResult]

/-- They do not reach the comparison either. -/
theorem cmpResult_withMultdiv (h : x.multdivSel = false) :
    cmpResult (withMultdiv x a b) = cmpResult x := by
  simp only [cmpResult, isEqual, isGreaterEqual, adderResult_withMultdiv a b h]
  rfl

/-- They do not reach the result either. -/
theorem result_withMultdiv (h : x.multdivSel = false) :
    result rv32b (withMultdiv x a b) = result rv32b x := by
  simp only [result, minmaxResult, adderResult_withMultdiv a b h, cmpResult_withMultdiv a b h]
  rfl

end Alu

namespace ExBlock

variable {cfg : Config} {m : Multiplier} {s : ExState m} {c : MainOut} {x y z : ExIn}

/-! ### Agreement -/

/-- An instruction with the main decode `c` takes the same from EX with the inputs `x` and `y`,
and EX goes on the same. -/
structure Agree (cfg : Config) (m : Multiplier) (s : ExState m) (c : MainOut) (x y : ExIn) :
    Prop where
  resultEx : c.rfWe = true → (outputs cfg m s x).resultEx = (outputs cfg m s y).resultEx
  branchTarget : c.jumpInDec = true ∨ c.branchInDec = true →
    (outputs cfg m s x).branchTarget = (outputs cfg m s y).branchTarget
  branchDecision : c.branchInDec = true →
    (outputs cfg m s x).branchDecision = (outputs cfg m s y).branchDecision
  exValid : (outputs cfg m s x).exValid = (outputs cfg m s y).exValid
  next : next cfg m s x = next cfg m s y

/-- What is the same agrees. -/
theorem Agree.of_eq (h : x = y) : Agree cfg m s c x y := by
  subst h
  exact ⟨fun _ => rfl, fun _ => rfl, fun _ => rfl, rfl, rfl⟩

/-- What agrees with the same agrees. -/
theorem Agree.trans (h : Agree cfg m s c x y) (h' : Agree cfg m s c y z) :
    Agree cfg m s c x z where
  resultEx hc := (h.resultEx hc).trans (h'.resultEx hc)
  branchTarget hc := (h.branchTarget hc).trans (h'.branchTarget hc)
  branchDecision hc := (h.branchDecision hc).trans (h'.branchDecision hc)
  exValid := h.exValid.trans h'.exValid
  next := h.next.trans h'.next

/-! ### The masks -/

/-- Without the adder and off the jumps and branches, the mask of the adder makes no
difference. -/
theorem AdderFree.agree (h : AdderFree cfg m x) (hj : c.jumpInDec = false)
    (hb : c.branchInDec = false) (e : Bool) : Agree cfg m s c x (withAdder x e) where
  resultEx _ := (h.outputs s e).1.symm
  branchTarget hc := by simp [hj, hb] at hc
  branchDecision hc := by simp [hb] at hc
  exValid := (h.outputs s e).2.symm
  next := (h.next s e).symm

/-- The inputs with another enable of the shifter. -/
def withShift (x : ExIn) (e : Bool) : ExIn := { x with shiftEnable := e }

/-- Nor does the mask of the shifter without the shifter. -/
theorem agree_withShift (h : Alu.usesShifter x.aluOperator = false) (e : Bool) :
    Agree cfg m s c x (withShift x e) := by
  have hin : aluIn cfg m s (withShift x e) = Alu.withShift (aluIn cfg m s x) e := rfl
  have hmd : multdiv cfg m s (withShift x e) = multdiv cfg m s x := rfl
  have hsel : multdivSel cfg (withShift x e) = multdivSel cfg x := rfl
  have hwe : Alu.imdValWe cfg.rv32b (Alu.withShift (aluIn cfg m s x) e)
      = Alu.imdValWe cfg.rv32b (aluIn cfg m s x) := rfl
  have hres := Alu.result_withShift cfg.rv32b (x := aluIn cfg m s x) e h
  have himd := Alu.imdValD_withShift cfg.rv32b (x := aluIn cfg m s x) e h
  refine ⟨fun _ => ?_, fun _ => rfl, fun _ => rfl, ?_, ?_⟩
  · simp only [outputs, hmd, hsel, hin, hres]
  · simp only [outputs, hmd, hsel, hin, hwe]
  · simp only [ExBlock.next, hmd, hsel, hin, hwe, himd]

/-! ### An idle unit -/

/-- The multiplier and divider is not asked for anything, and the ALU is done in one cycle. -/
structure Idle (cfg : Config) (x : ExIn) : Prop where
  multEn : x.multEn = false
  divEn : x.divEn = false
  sel : multdivSel cfg x = false
  imdValWe : ∀ y : AluIn, y.operator = x.aluOperator → Alu.imdValWe cfg.rv32b y = false

/-- Then EX stays as it is. -/
theorem Idle.next (h : Idle cfg x) : ExBlock.next cfg m s x = s := by
  have hstate : (multdiv cfg m s x).2 = s.multdiv := by
    cases m with
    | slow => exact MultdivSlow.step_idle _ _ h.multEn h.divEn
    | fast => exact (Unmasked.step_disabled _ _ _ h.multEn h.divEn).1
    | singleCycle => exact (Unmasked.step_disabled _ _ _ h.multEn h.divEn).1
  have hwe := h.imdValWe (aluIn cfg m s x) rfl
  simp only [ExBlock.next, hstate, h.sel, hwe, Bool.false_eq_true, if_false]

/-- The inputs of the ALU without the unit. -/
theorem Idle.aluIn_eq (h : Idle cfg x) {y : ExIn} (hy : Idle cfg y)
    (hop : x.aluOperator = y.aluOperator) (ha : x.aluOperandA = y.aluOperandA)
    (hb : x.aluOperandB = y.aluOperandB) (hf : x.aluInstrFirstCycle = y.aluInstrFirstCycle)
    (hs : x.shiftEnable = y.shiftEnable) (he : x.adderEnable = y.adderEnable) :
    aluIn cfg m s x = Alu.withMultdiv (aluIn cfg m s y) (aluIn cfg m s x).multdivOperandA
      (aluIn cfg m s x).multdivOperandB := by
  have hsel := h.sel.trans hy.sel.symm
  simp only [aluIn, Alu.withMultdiv, hop, ha, hb, hf, hs, he, hsel]

/-- The operands of the unit, and those of the ALU for an instruction that takes nothing of it,
make no difference. -/
theorem Idle.agree (h : Idle cfg x) (hy : Idle cfg y) (hop : x.aluOperator = y.aluOperator)
    (huse : c.rfWe = true ∨ c.jumpInDec = true ∨ c.branchInDec = true →
      x.aluOperandA = y.aluOperandA ∧ x.aluOperandB = y.aluOperandB ∧
      x.btAOperand = y.btAOperand ∧ x.btBOperand = y.btBOperand)
    (hf : x.aluInstrFirstCycle = y.aluInstrFirstCycle) (hs : x.shiftEnable = y.shiftEnable)
    (he : x.adderEnable = y.adderEnable) : Agree cfg m s c x y := by
  have hysel : (aluIn cfg m s y).multdivSel = false := hy.sel
  have hin := fun hc => h.aluIn_eq (m := m) (s := s) hy hop (huse hc).1 (huse hc).2.1 hf hs he
  refine ⟨fun hc => ?_, fun hc => ?_, fun hc => ?_, ?_, ?_⟩
  · simp only [outputs, h.sel, hy.sel, Bool.false_eq_true, if_false]
    rw [hin (Or.inl hc), Alu.result_withMultdiv _ _ _ hysel]
  · obtain ⟨-, -, hba, hbb⟩ := huse (Or.inr hc)
    simp only [outputs, hba, hbb]
    rw [hin (Or.inr hc), Alu.adderResult_withMultdiv _ _ hysel]
  · simp only [outputs]
    rw [hin (Or.inr (Or.inr hc)), Alu.cmpResult_withMultdiv _ _ hysel]
  · simp only [outputs, h.sel, hy.sel, Bool.false_eq_true, if_false,
      h.imdValWe (aluIn cfg m s x) rfl, hy.imdValWe (aluIn cfg m s y) rfl]
  · rw [h.next, hy.next]

end ExBlock

end CocoIbex
