import CocoIbex.Multdiv

/-!
# The Slow Multiplier and Divider

`ibex_multdiv_slow`: multiplication and division bit by bit in one machine, every addition and
subtraction of which is made by the adder of the ALU. The accumulator is the intermediate value
register.

A low product shifts one operand to the left and the other one to the right and is done when
nothing is left of that; a high product shifts the accumulator to the right. The partial
products have an offset, so that none of them is negative, and the last one has the opposite
sign for a signed multiplier (`opABwPp`, `opABwLastPp`). The shift registers serve the division
too, with the quotient and the divisor in them.

`selected` is the cycle of a unit that is selected, one case for each state as in the source,
and `comb` keeps everything as it is without a selection.

## Main results

* `step_idle` — a unit that is neither selected nor enabled keeps its registers;
* `step_start` — in the first cycle of a division the answer of the adder says whether the
  divisor is zero.
-/

namespace CocoIbex

namespace MultdivSlow

/-- The registers of the unit. -/
structure State where
  multdivState : BitVec 5
  mdState : MdFsm
  opBShift : BitVec 33
  opAShift : BitVec 33
  opNumerator : BitVec 32
  deriving DecidableEq, Repr

/-- The registers after a reset. -/
def State.reset : State := ⟨0#5, .idle, 0#33, 0#33, 0#32⟩

variable (s : State) (x : MultdivIn) (a : AdderOut)

/-- `accum_window_q`. -/
def accumWindowQ : BitVec 33 := x.imdValQ.extractLsb' 0 33

/-- `op_a_ext`. -/
def opAExt : BitVec 33 := BitVec.ofBool x.signA ++ x.opA

/-- `op_b_ext`. -/
def opBExt : BitVec 33 := BitVec.ofBool x.signB ++ x.opB

/-- `op_a_bw_pp`, a partial product. -/
def opABwPp : BitVec 33 :=
  BitVec.ofBool (!(s.opAShift.getLsbD 32 && s.opBShift.getLsbD 0))
    ++ (s.opAShift.extractLsb' 0 32 &&& Bits.fill 32 (s.opBShift.getLsbD 0))

/-- `op_a_bw_last_pp`, the last partial product. -/
def opABwLastPp : BitVec 33 :=
  BitVec.ofBool (s.opAShift.getLsbD 32 && s.opBShift.getLsbD 0)
    ++ ~~~(s.opAShift.extractLsb' 0 32 &&& Bits.fill 32 (s.opBShift.getLsbD 0))

/-- `alu_operand_a_o` and `alu_operand_b_o`. -/
def aluOperands : BitVec 33 × BitVec 33 :=
  let accum : BitVec 32 := (accumWindowQ x).extractLsb' 0 32
  match x.operator with
  | .mull => (accumWindowQ x, opABwPp s)
  | .mulh => (accumWindowQ x, if s.mdState = .last then opABwLastPp s else opABwPp s)
  | _ =>
    match s.mdState with
    -- 0 - B = 0 iff B == 0
    | .idle => subOperands 0#32 x.opB
    | .absA => subOperands 0#32 x.opA
    | .absB => subOperands 0#32 x.opB
    | .changeSign => subOperands 0#32 accum
    -- the remainder less the denominator
    | _ => subOperands accum (s.opBShift.extractLsb' 0 32)

/-- `res_adder_l`. -/
def resAdderL : BitVec 33 := a.ext.extractLsb' 0 33

/-- `res_adder_h`. -/
def resAdderH : BitVec 33 := a.ext.extractLsb' 1 33

/-- `is_greater_equal`: the remainder is not below the denominator. -/
def isGreaterEqual : Bool :=
  if ((accumWindowQ x).getLsbD 31 ^^ s.opBShift.getLsbD 31) = false then
    !(resAdderH a).getLsbD 31
  else (accumWindowQ x).getLsbD 31

/-- `next_reminder`. -/
def nextReminder : BitVec 33 := if isGreaterEqual s x a then resAdderH a else accumWindowQ x

/-- `next_quotient`. -/
def nextQuotient : BitVec 33 :=
  if isGreaterEqual s x a then s.opAShift ||| (1#33 <<< s.multdivState.toNat) else s.opAShift

/-- The combinational part: the next registers, `accum_window_d` and `multdiv_hold`. -/
structure Comb where
  next : State
  accumWindowD : BitVec 33
  multdivHold : Bool
  deriving DecidableEq, Repr

/-- The cycle of a selected unit. -/
def selected : Comb :=
  let keep : Comb := ⟨s, accumWindowQ x, false⟩
  match s.mdState with
  | .idle =>
    let next : State := { s with multdivState := 31#5 }
    let b0 := x.opB.getLsbD 0
    match x.operator with
    | .mull =>
      { keep with
        next := { next with opAShift := opAExt x <<< 1, opBShift := opBExt x >>> 1,
                            mdState := if opBExt x >>> 1 = 0#33 then .last else .comp }
        accumWindowD := BitVec.ofBool (!((opAExt x).getLsbD 32 && b0))
          ++ ((opAExt x).extractLsb' 0 32 &&& Bits.fill 32 b0) }
    | .mulh =>
      { keep with
        next := { next with opAShift := opAExt x, opBShift := opBExt x >>> 1, mdState := .comp }
        accumWindowD := 1#1 ++ (BitVec.ofBool (!((opAExt x).getLsbD 32 && b0))
          ++ ((opAExt x).extractLsb' 1 31 &&& Bits.fill 31 b0) : BitVec 32) }
    -- quotient and remainder of a division by zero
    | .div =>
      { keep with
        next := { next with mdState := if a.isEqual then .finish else .absA }
        accumWindowD := BitVec.allOnes 33 }
    | .rem =>
      { keep with
        next := { next with mdState := if a.isEqual then .finish else .absA }
        accumWindowD := opAExt x }
  | .absA =>
    { keep with
      next := { s with opAShift := 0#33, mdState := .absB,
                       opNumerator := if x.signA then a.result else x.opA } }
  | .absB =>
    { keep with
      next := { s with opBShift := (if x.signB then a.result else x.opB).setWidth 33,
                       mdState := .comp }
      accumWindowD := (BitVec.ofBool (s.opNumerator.getLsbD 31)).setWidth 33 }
  | .comp =>
    let m1 := s.multdivState - 1#5
    let next : State := { s with multdivState := m1 }
    match x.operator with
    | .mull =>
      { keep with
        next := { next with opAShift := s.opAShift <<< 1, opBShift := s.opBShift >>> 1,
                            mdState := if s.opBShift >>> 1 = 0#33 then .last else .comp }
        accumWindowD := resAdderL a }
    | .mulh =>
      { keep with
        next := { next with opBShift := s.opBShift >>> 1,
                            mdState := if s.multdivState = 1#5 then .last else .comp }
        accumWindowD := resAdderH a }
    | _ =>
      { keep with
        next := { next with opAShift := nextQuotient s x a,
                            mdState := if s.multdivState = 1#5 then .last else .comp }
        accumWindowD := (nextReminder s x a).extractLsb' 0 32
          ++ BitVec.ofBool (s.opNumerator.getLsbD m1.toNat) }
  | .last =>
    match x.operator with
    | .mull | .mulh =>
      ⟨{ s with mdState := .idle }, resAdderL a, !x.multdivReadyId⟩
    -- the quotient or the remainder, whichever is asked for, moves to the accumulator
    | .div => ⟨{ s with mdState := .changeSign }, nextQuotient s x a, false⟩
    | .rem =>
      ⟨{ s with mdState := .changeSign }, ((nextReminder s x a).extractLsb' 0 32).setWidth 33,
        false⟩
  | .changeSign =>
    { keep with
      next := { s with mdState := .finish }
      accumWindowD :=
        if (if x.operator = .div then x.signA ^^ x.signB else x.signA) then a.result.setWidth 33
        else accumWindowQ x }
  | .finish => { keep with next := { s with mdState := .idle }, multdivHold := !x.multdivReadyId }

/-- The combinational part in any cycle. -/
def comb : Comb :=
  if x.multSel || x.divSel then selected s x a else ⟨s, accumWindowQ x, false⟩

/-- One cycle of the unit. -/
def step : MultdivOut × State :=
  let c := comb s x a
  ({ imdValD := c.accumWindowD.setWidth 34
     imdValWe := !c.multdivHold
     multdivResult :=
       if x.divSel then (accumWindowQ x).extractLsb' 0 32 else (resAdderL a).extractLsb' 0 32
     valid := s.mdState == .finish
       || (s.mdState == .last && (x.operator == .mull || x.operator == .mulh)) },
   if (x.multEn || x.divEn) && !c.multdivHold then c.next else s)

/-- The unit. -/
def slow : MultdivUnit where
  State := State
  reset := .reset
  aluOperands := aluOperands
  step := step

/-- A unit that is neither selected nor enabled keeps its registers. -/
theorem step_idle {x : MultdivIn} (hm : x.multEn = false) (hd : x.divEn = false) :
    (step s x a).2 = s := by
  simp [step, hm, hd]

/-- The first cycle of a division: the answer of the adder says whether the divisor is
zero. -/
theorem step_start {s : State} {x : MultdivIn} (hs : s.mdState = .idle) (hsel : x.divSel = true)
    (hen : x.divEn = true) (hop : x.operator = .div) :
    (step s x a).2.mdState = if a.isEqual then .finish else .absA := by
  simp [step, comb, selected, hs, hsel, hen, hop]

end MultdivSlow

end CocoIbex
