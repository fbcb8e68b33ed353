import CocoIbex.Bits
import CocoIbex.Pkg

/-!
# The Ports of the Multiplier and Divider

What the variants of the multiplier and divider have in common: their ports, the states of the
division, and the interface under which the EX block instantiates one of them. The operands a
unit sends to the adder of the ALU depend on its state and its own inputs, and its next state on
the answer of the adder.

The ports are those of the two modules of the source. An implementation is a `MultdivUnit`: its
state, its operands for the adder, and a step that takes the answer. With this split the EX
block can be wired without a loop, since the operands are there before the answer is.

The operands are extended by a bit, which `signed_mode_i` makes their sign (`signA`, `signB`),
and a subtraction on the adder is an addition with a complemented operand behind a one
(`subOperands`).

No result is stated in this module.
-/

namespace CocoIbex

/-- The inputs of a unit but for the answer of the adder. -/
structure MultdivIn where
  multEn : Bool
  divEn : Bool
  multSel : Bool
  divSel : Bool
  operator : MdOp
  signedMode : BitVec 2
  opA : BitVec 32
  opB : BitVec 32
  imdValQ : BitVec 34
  multdivReadyId : Bool
  deriving DecidableEq, Repr

/-- The answer of the adder: `alu_adder_ext_i`, `alu_adder_i` and `equal_to_zero`. -/
structure AdderOut where
  ext : BitVec 34
  result : BitVec 32
  isEqual : Bool
  deriving DecidableEq, Repr

/-- The outputs of a unit but for the operands of the adder. -/
structure MultdivOut where
  imdValD : BitVec 34
  imdValWe : Bool
  multdivResult : BitVec 32
  valid : Bool
  deriving DecidableEq, Repr

/-- The states of a division, `md_fsm_e`. -/
inductive MdFsm
  | idle | absA | absB | comp | last | changeSign | finish
  deriving DecidableEq, Repr

/-- A multiplier and divider: its registers, the operands of the adder, and the outputs and
next registers with the answer of the adder. -/
structure MultdivUnit where
  State : Type
  reset : State
  aluOperands : State → MultdivIn → BitVec 33 × BitVec 33
  step : State → MultdivIn → AdderOut → MultdivOut × State

namespace MultdivIn

variable (x : MultdivIn)

/-- The sign of the first operand, where it is signed. -/
def signA : Bool := x.opA.getLsbD 31 && x.signedMode.getLsbD 0

/-- The sign of the second operand, where it is signed. -/
def signB : Bool := x.opB.getLsbD 31 && x.signedMode.getLsbD 1

end MultdivIn

/-- The operands `a` and `-b` of a subtraction: the bit below each operand is the carry. -/
def subOperands (a b : BitVec 32) : BitVec 33 × BitVec 33 := (a ++ 1#1, ~~~b ++ 1#1)

end CocoIbex
