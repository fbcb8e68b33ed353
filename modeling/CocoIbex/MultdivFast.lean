import CocoIbex.Multdiv

/-!
# The Fast Multiplier and Divider

`ibex_multdiv_fast` in both its variants. The multiplication is a machine of its own, with one
17 bit multiplier and up to four cycles, or with three multipliers and up to two cycles
(`SingleCycleMultiply`); the long division is common to both and uses the adder of the ALU.

The two multiplications are functions of one shape, from a state of the machine to its outputs
and its next state, and `unitOf` is the unit around either of them. So the division and the
registers are written once, as in the source, where the multiplication is in a `generate` block.

The intermediate value register is outside of the unit and is shared between the accumulator of
a product and the remainder of a division.

## Main results

* `step_start` — in the first cycle of a division the answer of the adder says whether the
  divisor is zero;
* `step_congr` — what the unit takes of the answer of the adder;
* `step_adder` — without a division it takes nothing of it.
-/

namespace CocoIbex

namespace MultdivFast

/-! ### The multiplications -/

/-- What the state of a multiplication drives: `mac_res_d`, `mult_valid`, `mult_state_d`
and `mult_hold`. -/
structure MultOut (μ : Type) where
  macResD : BitVec 34
  multValid : Bool
  multStateD : μ
  multHold : Bool
  deriving DecidableEq, Repr

/-- The low half of an operand, `OP_L`. -/
def opL (v : BitVec 32) : BitVec 16 := v.extractLsb' 0 16

/-- The high half of an operand, `OP_H`. -/
def opH (v : BitVec 32) : BitVec 16 := v.extractLsb' 16 16

/-- A half operand with its sign, as an operand of a 17 bit signed multiplier whose result
has `w` bits. -/
def extend (w : ℕ) (sign : Bool) (half : BitVec 16) : BitVec w :=
  (BitVec.ofBool sign ++ half : BitVec 17).signExtend w

/-- The intermediate value shifted right by 16 bits, with copies of its sign for a signed
multiplication. -/
def accumHigh (x : MultdivIn) : BitVec 34 :=
  Bits.fill 16 (x.signedMode != 0b00#2 && x.imdValQ.getLsbD 33) ++ x.imdValQ.extractLsb' 16 18

/-- The states of the multiplication with one multiplier, `mult_fsm_e`. -/
inductive MultFsm
  | albl | albh | ahbl | ahbh
  deriving DecidableEq, Repr

/-- `mac_res`: the multiplier with its accumulator. -/
def macRes (signA : Bool) (a : BitVec 16) (signB : Bool) (b : BitVec 16) (accum : BitVec 34) :
    BitVec 34 :=
  (extend 35 signA a * extend 35 signB b + accum.signExtend 35).extractLsb' 0 34

/-- One cycle of the multiplication with one multiplier. -/
def fastMult (s : MultFsm) (x : MultdivIn) : MultOut MultFsm :=
  let accumLow : BitVec 34 := (x.imdValQ.extractLsb' 16 16).setWidth 34
  -- the low half of the product is complete after `al * bl`
  let mulRes (mac : BitVec 34) : BitVec 34 :=
    (mac.extractLsb' 0 16 ++ x.imdValQ.extractLsb' 0 16).setWidth 34
  match s with
  | .albl =>
    { macResD := macRes false (opL x.opA) false (opL x.opB) 0#34
      multValid := false, multStateD := .albh, multHold := false }
  | .albh =>
    let mac := macRes false (opL x.opA) x.signB (opH x.opB) accumLow
    { macResD := if x.operator = .mull then mulRes mac else mac
      multValid := false, multStateD := .ahbl, multHold := false }
  | .ahbl =>
    if x.operator = .mull then
      { macResD := mulRes (macRes x.signA (opH x.opA) false (opL x.opB) accumLow)
        multValid := true, multStateD := .albl, multHold := !x.multdivReadyId }
    else
      { macResD := macRes x.signA (opH x.opA) false (opL x.opB) x.imdValQ
        multValid := false, multStateD := .ahbh, multHold := false }
  | .ahbh =>
    { macResD := macRes x.signA (opH x.opA) x.signB (opH x.opB) (accumHigh x)
      multValid := true, multStateD := .albl, multHold := !x.multdivReadyId }

/-- The states of the multiplication with three multipliers, `mult_fsm_e`. -/
inductive SingleFsm
  | mull | mulh
  deriving DecidableEq, Repr

/-- The sum of the three summands. -/
def sumRes (s1 s2 s3 : BitVec 34) : BitVec 34 :=
  (s1.signExtend 35 + s2.signExtend 35 + s3.signExtend 35).extractLsb' 0 34

/-- One cycle of the multiplication with three multipliers. -/
def singleMult (s : SingleFsm) (x : MultdivIn) : MultOut SingleFsm :=
  let mult1 := extend 34 false (opL x.opA) * extend 34 false (opL x.opB)
  let mult2 := extend 34 false (opL x.opA) * extend 34 x.signB (opH x.opB)
  match s with
  | .mull =>
    let mult3 := extend 34 x.signA (opH x.opA) * extend 34 false (opL x.opB)
    let mac := sumRes ((mult1.extractLsb' 16 16).setWidth 34) mult2 mult3
    if x.operator = .mull then
      { macResD := (mac.extractLsb' 0 16 ++ mult1.extractLsb' 0 16).setWidth 34
        multValid := x.multEn, multStateD := .mull, multHold := !x.multdivReadyId }
    else { macResD := mac, multValid := false, multStateD := .mulh, multHold := false }
  | .mulh =>
    let mult3 := extend 34 x.signA (opH x.opA) * extend 34 x.signB (opH x.opB)
    { macResD := sumRes 0#34 (accumHigh x) mult3
      multValid := true, multStateD := .mull, multHold := !x.multdivReadyId }

/-! ### The division -/

/-- The registers of the division. -/
structure DivReg where
  divCounter : BitVec 5
  mdState : MdFsm
  opDenominator : BitVec 32
  opNumerator : BitVec 32
  opQuotient : BitVec 32
  deriving DecidableEq, Repr

/-- The registers of the division after a reset. -/
def DivReg.reset : DivReg := ⟨0#5, .idle, 0#32, 0#32, 0#32⟩

/-- What the state of a division drives: the next registers, `op_remainder_d`, `div_valid`
and `div_hold`. -/
structure DivOut where
  next : DivReg
  opRemainderD : BitVec 34
  divValid : Bool
  divHold : Bool
  deriving DecidableEq, Repr

section Division

variable (s : DivReg) (x : MultdivIn) (a : AdderOut)

/-- `alu_operand_a_o` and `alu_operand_b_o`: the subtraction of each state. -/
def aluOperands : BitVec 33 × BitVec 33 :=
  match s.mdState with
  -- 0 - B = 0 iff B == 0
  | .idle => subOperands 0#32 x.opB
  | .absA => subOperands 0#32 x.opA
  | .absB => subOperands 0#32 x.opB
  -- the remainder less the denominator
  | .comp | .last => subOperands (x.imdValQ.extractLsb' 0 32) s.opDenominator
  | .changeSign => subOperands 0#32 (x.imdValQ.extractLsb' 0 32)
  | .finish => subOperands 0#32 x.opB

/-- `res_adder_h[31:0]`. -/
def resAdderH : BitVec 32 := a.ext.extractLsb' 1 32

/-- `is_greater_equal`: the remainder is not below the denominator. -/
def isGreaterEqual : Bool :=
  if (x.imdValQ.getLsbD 31 ^^ s.opDenominator.getLsbD 31) = false then
    !(resAdderH a).getLsbD 31
  else x.imdValQ.getLsbD 31

/-- `next_remainder`. -/
def nextRemainder : BitVec 32 :=
  if isGreaterEqual s x a then resAdderH a else x.imdValQ.extractLsb' 0 32

/-- `next_quotient`. -/
def nextQuotient : BitVec 32 :=
  if isGreaterEqual s x a then s.opQuotient ||| (1#32 <<< s.divCounter.toNat) else s.opQuotient

/-- One cycle of the division. -/
def division : DivOut :=
  let keep : DivReg := { s with divCounter := s.divCounter - 1#5 }
  match s.mdState with
  | .idle =>
    -- quotient and remainder of a division by zero
    { next := { keep with mdState := if a.isEqual then .finish else .absA, divCounter := 31#5 }
      opRemainderD := if x.operator = .div then BitVec.allOnes 34 else x.opA.setWidth 34
      divValid := false, divHold := false }
  | .absA =>
    { next := { keep with opQuotient := 0#32, mdState := .absB, divCounter := 31#5,
                          opNumerator := if x.signA then a.result else x.opA }
      opRemainderD := x.imdValQ
      divValid := false, divHold := false }
  | .absB =>
    { next := { keep with mdState := .comp, divCounter := 31#5,
                          opDenominator := if x.signB then a.result else x.opB }
      opRemainderD := (BitVec.ofBool (s.opNumerator.getLsbD 31)).setWidth 34
      divValid := false, divHold := false }
  | .comp =>
    { next := { keep with opQuotient := nextQuotient s x a,
                          mdState := if s.divCounter = 1#5 then .last else .comp }
      opRemainderD := (nextRemainder s x a
          ++ BitVec.ofBool (s.opNumerator.getLsbD keep.divCounter.toNat) : BitVec 33).setWidth 34
      divValid := false, divHold := false }
  | .last =>
    -- the quotient or the remainder, whichever is asked for, moves to the remainder
    { next := { keep with mdState := .changeSign }
      opRemainderD :=
        if x.operator = .div then (nextQuotient s x a).setWidth 34
        else (nextRemainder s x a).setWidth 34
      divValid := false, divHold := false }
  | .changeSign =>
    { next := { keep with mdState := .finish }
      opRemainderD :=
        if (if x.operator = .div then x.signA ^^ x.signB else x.signA) then a.result.setWidth 34
        else x.imdValQ
      divValid := false, divHold := false }
  | .finish =>
    { next := { keep with mdState := .idle }
      opRemainderD := x.imdValQ
      divValid := true, divHold := !x.multdivReadyId }

end Division

/-! ### The unit -/

/-- The registers of the unit. -/
structure State (μ : Type) where
  div : DivReg
  multState : μ
  deriving DecidableEq, Repr

/-- One cycle of the unit with the multiplication `mult`. -/
def step {μ : Type} (mult : μ → MultdivIn → MultOut μ) (s : State μ) (x : MultdivIn)
    (a : AdderOut) : MultdivOut × State μ :=
  let m := mult s.multState x
  let d := division s.div x a
  let multEnInternal := x.multEn && !m.multHold
  let divEnInternal := x.divEn && !d.divHold
  ({ imdValD := if x.divSel then d.opRemainderD else m.macResD
     imdValWe := multEnInternal || divEnInternal
     multdivResult :=
       if x.divSel then x.imdValQ.extractLsb' 0 32 else m.macResD.extractLsb' 0 32
     valid := m.multValid || d.divValid },
   { div := if divEnInternal then d.next else s.div
     multState := if multEnInternal then m.multStateD else s.multState })

/-- The unit with the multiplication `mult`, idle in `idle`. -/
def unitOf {μ : Type} (mult : μ → MultdivIn → MultOut μ) (idle : μ) : MultdivUnit where
  State := State μ
  reset := ⟨.reset, idle⟩
  aluOperands s := aluOperands s.div
  step := step mult

/-- The unit with one multiplier. -/
def fast : MultdivUnit := unitOf fastMult .albl

/-- The unit with three multipliers. -/
def singleCycle : MultdivUnit := unitOf singleMult .mull

/-- Of the answer of the adder the unit takes bits 32 to 1 of the sum, the result and the
comparison with zero. -/
theorem step_congr {μ : Type} (mult : μ → MultdivIn → MultOut μ) (s : State μ) (x : MultdivIn)
    {a a' : AdderOut} (he : resAdderH a = resAdderH a') (hr : a.result = a'.result)
    (hz : a.isEqual = a'.isEqual) : step mult s x a = step mult s x a' := by
  have hge : isGreaterEqual s.div x a = isGreaterEqual s.div x a' := by
    simp only [isGreaterEqual, he]
  have hdiv : division s.div x a = division s.div x a' := by
    simp only [division, nextQuotient, nextRemainder, hge, he, hr, hz]
  simp only [step, hdiv]

/-- When no division is selected, the unit does not look at the answer of the adder. -/
theorem step_adder {μ : Type} (mult : μ → MultdivIn → MultOut μ) (s : State μ) {x : MultdivIn}
    (a a' : AdderOut) (he : x.divEn = false) (hs : x.divSel = false) :
    step mult s x a = step mult s x a' := by
  have hv : (division s.div x a).divValid = (division s.div x a').divValid := by
    simp only [division]
    split <;> rfl
  simp only [step, he, hs, hv, Bool.false_and, Bool.or_false]
  rfl

/-- The first cycle of a division: the answer of the adder says whether the divisor is
zero. -/
theorem step_start {μ : Type} (mult : μ → MultdivIn → MultOut μ) {s : State μ} {x : MultdivIn}
    (a : AdderOut) (hs : s.div.mdState = .idle) (hen : x.divEn = true) :
    (step mult s x a).2.div.mdState = if a.isEqual then .finish else .absA := by
  simp [step, division, hs, hen]

end MultdivFast

end CocoIbex
