import CocoIbex.Alu
import CocoIbex.MultdivFast
import CocoIbex.MultdivSlow

/-!
# The EX Block

`ibex_ex_block`: the ALU, the multiplier and divider of the chosen implementation, and the
branch target ALU. The intermediate value register, which stands in the ID stage, is part of the
state here, since only this block writes it.

The multiplier and divider and the ALU are connected both ways: the unit sends its operands to
the adder of the ALU and reads the sum in the same cycle. The unit's interface tells the two
apart, so that the operands (`multdivIn`, `aluIn`) come first, then the sum (`adderOut`), and
then what the unit makes of it (`multdiv`); no signal is defined by itself.

The adder is a parameter of the block (`withAdder`). The plain block and the one whose adder is
masked are two instances of the same definition, and the multiplications and divisions are
verified with the plain one.

No result is stated in this module but the lemmas that read its outputs for an instruction that
does without the multiplier and divider.
-/

namespace CocoIbex

/-- `MultiplierImplementation`. -/
inductive Multiplier
  | slow | fast | singleCycle
  deriving DecidableEq, Repr

/-- The unit of an implementation. -/
def Multiplier.unit : Multiplier → MultdivUnit
  | .slow => MultdivSlow.slow
  | .fast => MultdivFast.fast
  | .singleCycle => MultdivFast.singleCycle

/-- The inputs of the block, with the enables of the secure build. -/
structure ExIn where
  aluOperator : AluOp
  aluOperandA : BitVec 32
  aluOperandB : BitVec 32
  aluInstrFirstCycle : Bool
  btAOperand : BitVec 32
  btBOperand : BitVec 32
  multdivOperator : MdOp
  multEn : Bool
  divEn : Bool
  multSel : Bool
  divSel : Bool
  multdivSignedMode : BitVec 2
  multdivOperandA : BitVec 32
  multdivOperandB : BitVec 32
  multdivReadyId : Bool
  mdEnable : Bool
  shiftEnable : Bool
  adderEnable : Bool
  deriving DecidableEq, Repr

/-- The outputs of the block. -/
structure ExOut where
  aluAdderResultEx : BitVec 32
  resultEx : BitVec 32
  branchTarget : BitVec 32
  branchDecision : Bool
  exValid : Bool
  deriving DecidableEq, Repr

/-- The registers of the block and the intermediate value register. -/
structure ExState (m : Multiplier) where
  multdiv : m.unit.State
  imdValQ : BitVec 34

namespace ExBlock

variable (cfg : Config) (m : Multiplier) (s : ExState m) (x : ExIn)

/-- `multdiv_sel`. -/
def multdivSel : Bool := cfg.rv32m && (x.multSel || x.divSel)

/-- The inputs of the multiplier and divider; the operands of the fast one are masked. -/
def multdivIn : MultdivIn where
  multEn := x.multEn
  divEn := x.divEn
  multSel := x.multSel
  divSel := x.divSel
  operator := x.multdivOperator
  signedMode := x.multdivSignedMode
  opA := if m = .fast then Bits.gate x.mdEnable x.multdivOperandA else x.multdivOperandA
  opB := if m = .fast then Bits.gate x.mdEnable x.multdivOperandB else x.multdivOperandB
  imdValQ := s.imdValQ
  multdivReadyId := x.multdivReadyId

/-- The inputs of the ALU. -/
def aluIn : AluIn :=
  let o := m.unit.aluOperands s.multdiv (multdivIn m s x)
  { operator := x.aluOperator
    operandA := x.aluOperandA
    operandB := x.aluOperandB
    instrFirstCycle := x.aluInstrFirstCycle
    multdivOperandA := o.1
    multdivOperandB := o.2
    multdivSel := multdivSel cfg x
    shiftEnable := x.shiftEnable
    adderEnable := x.adderEnable
    imdValQ := s.imdValQ.extractLsb' 0 32 }

/-- The answer of the adder to the multiplier and divider; for the fast one it is masked, the
34 bit sum with 33 bits. -/
def adderOut : AdderOut :=
  let i := aluIn cfg m s x
  { ext :=
      if m = .fast then Alu.adderResultExt i &&& (Bits.fill 33 x.mdEnable).setWidth 34
      else Alu.adderResultExt i
    result := if m = .fast then Bits.gate x.mdEnable (Alu.adderResult i) else Alu.adderResult i
    isEqual := Alu.isEqual i }

/-- The outputs and next registers of the multiplier and divider. -/
def multdiv : MultdivOut × m.unit.State :=
  m.unit.step s.multdiv (multdivIn m s x) (adderOut cfg m s x)

/-- The outputs of the block. -/
def outputs : ExOut :=
  let i := aluIn cfg m s x
  let md := (multdiv cfg m s x).1
  { aluAdderResultEx := Alu.adderResult i
    resultEx := if multdivSel cfg x then md.multdivResult else Alu.result cfg.rv32b i
    branchTarget :=
      if cfg.branchTargetALU then x.btAOperand + x.btBOperand else Alu.adderResult i
    branchDecision := Alu.cmpResult i
    exValid := if multdivSel cfg x then md.valid else !Alu.imdValWe cfg.rv32b i }

/-- One clock edge. -/
def next : ExState m :=
  let i := aluIn cfg m s x
  let md := multdiv cfg m s x
  let we := if multdivSel cfg x then md.1.imdValWe else Alu.imdValWe cfg.rv32b i
  let d := if multdivSel cfg x then md.1.imdValD else (Alu.imdValD cfg.rv32b i).setWidth 34
  { multdiv := md.2, imdValQ := if we then d else s.imdValQ }

/-- The registers after a reset. -/
def reset : ExState m := ⟨m.unit.reset, 0#34⟩

/-! ### The mask of the adder -/

/-- The inputs with another enable of the adder. -/
def withAdder (e : Bool) : ExIn := { x with adderEnable := e }

/-- Nothing of the block's work with the inputs `x` rests on the adder. -/
structure AdderFree : Prop where
  divSel : x.divSel = false
  divEn : x.divEn = false
  slow : m = .slow → x.multSel = false ∧ x.multEn = false
  alu : multdivSel cfg x = false → Alu.usesAdder x.aluOperator = false

variable {cfg m x}

/-- The registers of the multiplier and divider do not depend on the mask. -/
theorem AdderFree.multdiv_state (h : AdderFree cfg m x) (e : Bool) :
    (multdiv cfg m s (withAdder x e)).2 = (multdiv cfg m s x).2 := by
  cases m with
  | slow =>
      have hm := (h.slow rfl).2
      exact (MultdivSlow.step_idle _ _ hm h.divEn).trans
        (MultdivSlow.step_idle _ _ hm h.divEn).symm
  | fast => exact congrArg Prod.snd (MultdivFast.step_adder _ _ _ _ h.divEn h.divSel)
  | singleCycle => exact congrArg Prod.snd (MultdivFast.step_adder _ _ _ _ h.divEn h.divSel)

/-- The outputs of a selected multiplier do not depend on the mask. -/
theorem AdderFree.multdiv_out (h : AdderFree cfg m x) (e : Bool)
    (hs : multdivSel cfg x = true) :
    (multdiv cfg m s (withAdder x e)).1 = (multdiv cfg m s x).1 := by
  cases m with
  | slow => simp [multdivSel, h.divSel, (h.slow rfl).1] at hs
  | fast => exact congrArg Prod.fst (MultdivFast.step_adder _ _ _ _ h.divEn h.divSel)
  | singleCycle => exact congrArg Prod.fst (MultdivFast.step_adder _ _ _ _ h.divEn h.divSel)

/-- The next registers do not depend on the mask. -/
theorem AdderFree.next (h : AdderFree cfg m x) (e : Bool) :
    next cfg m s (withAdder x e) = next cfg m s x := by
  have hsel : multdivSel cfg (withAdder x e) = multdivSel cfg x := rfl
  have hin : aluIn cfg m s (withAdder x e) = Alu.withAdder (aluIn cfg m s x) e := rfl
  simp only [ExBlock.next, hsel, hin, h.multdiv_state s e, Alu.imdValD_withAdder,
    Alu.imdValWe_withAdder]
  cases hs : multdivSel cfg x with
  | false => simp only [Bool.false_eq_true, if_false]
  | true => simp only [h.multdiv_out s e hs]

/-- The result and its validity do not depend on the mask. -/
theorem AdderFree.outputs (h : AdderFree cfg m x) (e : Bool) :
    (outputs cfg m s (withAdder x e)).resultEx = (outputs cfg m s x).resultEx ∧
      (outputs cfg m s (withAdder x e)).exValid = (outputs cfg m s x).exValid := by
  have hsel : multdivSel cfg (withAdder x e) = multdivSel cfg x := rfl
  have hin : aluIn cfg m s (withAdder x e) = Alu.withAdder (aluIn cfg m s x) e := rfl
  simp only [ExBlock.outputs, hsel, hin, Alu.imdValWe_withAdder]
  cases hs : multdivSel cfg x with
  | false =>
      simp only [Bool.false_eq_true, if_false, and_true]
      exact Alu.result_withAdder _ _ e (h.alu hs)
  | true => simp only [h.multdiv_out s e hs, if_true, and_self]

end ExBlock

end CocoIbex
