import CocoIbex.Bits
import CocoIbex.Pkg

/-!
# The Arithmetic Logic Unit

`ibex_alu`: one adder and one shifter, shared by all operations, and the units of RV32B. The
adder also serves the multiplier and divider (`multdivSel`). In the secure build the operands of
the adder and of the shifter are masked with an enable each; a set enable is the build without
the mask.

The signals of the source are functions of the inputs `AluIn`, in the order and under the names
in which the source has them, and each looks only at those before it. The shifter goes to the
right only. A shift to the left reverses its operand and its result, and a shift that fills with
ones, the rotations, the funnel shifts and the single-bit operations are settings of the same
shifter. The generic stages of the reversal and of the shuffle are one definition each, applied
to the masks of the source.

The multi-cycle operations read the intermediate value register, which the ALU writes in the
first of their cycles (`imdValD`, `imdValWe`).

## Main results

* `result_withAdder`, `imdValWe_withAdder` and `imdValD_withAdder` — an operation that does not
  use the adder has the same result, and leaves the same behind, whatever the adder sums up. The
  mask of the adder is a change of its operands, so it does not show there.
-/

namespace CocoIbex

/-- The inputs of the ALU. -/
structure AluIn where
  operator : AluOp
  operandA : BitVec 32
  operandB : BitVec 32
  instrFirstCycle : Bool
  multdivOperandA : BitVec 33
  multdivOperandB : BitVec 33
  multdivSel : Bool
  shiftEnable : Bool
  adderEnable : Bool
  imdValQ : BitVec 32
  deriving DecidableEq, Repr

namespace Alu

variable (rv32b : Bool) (x : AluIn)

/-- `operand_a_rev`. -/
def operandARev : BitVec 32 := Bits.gen 32 fun k => x.operandA.getLsbD (31 - k)

/-- `operand_b_neg`. -/
def operandBNeg : BitVec 33 := (x.operandB ++ 0#1 : BitVec 33) ^^^ BitVec.allOnes 33

/-! ### The adder -/

/-- `adder_op_b_negate`: the subtraction, and all that compares. -/
def adderOpBNegate (op : AluOp) : Bool :=
  match op with
  | .sub | .eq | .ne | .ge | .geu | .lt | .ltu | .slt | .sltu
  | .min | .minu | .max | .maxu => true
  | _ => false

/-- `adder_in_a`; the one below the operand is the carry of a subtraction. -/
def adderInA : BitVec 33 :=
  if x.multdivSel then Bits.gate x.adderEnable x.multdivOperandA
  else Bits.gate x.adderEnable x.operandA ++ 1#1

/-- `adder_in_b`. -/
def adderInB : BitVec 33 :=
  if x.multdivSel then Bits.gate x.adderEnable x.multdivOperandB
  else if adderOpBNegate x.operator then Bits.gate x.adderEnable (operandBNeg x)
  else Bits.gate x.adderEnable x.operandB ++ 0#1

/-- `adder_result_ext_o`. -/
def adderResultExt : BitVec 34 := (adderInA x).setWidth 34 + (adderInB x).setWidth 34

/-- `adder_result_o`. -/
def adderResult : BitVec 32 := (adderResultExt x).extractLsb' 1 32

/-! ### The shifter -/

/-- `shift_operand_a`. -/
def shiftOperandA : BitVec 32 := Bits.gate x.shiftEnable x.operandA

/-- `shift_operand_b`. -/
def shiftOperandB : BitVec 32 := Bits.gate x.shiftEnable x.operandB

/-- `shift_funnel`. -/
def shiftFunnel : Bool := rv32b && (x.operator == .fsl || x.operator == .fsr)

/-- `shift_amt_compl`, 32 less the shift amount. -/
def shiftAmtCompl : BitVec 6 := 32#6 - ((shiftOperandB x).extractLsb' 0 5).setWidth 6

/-- `shift_amt[5]`: the word swap of a funnel shift. -/
def shiftAmt5 : Bool := (shiftOperandB x).getLsbD 5 && shiftFunnel rv32b x

/-- `shift_amt[4:0]`: the amount, or its complement in the other cycle of a rotation or a
funnel shift. -/
def shiftAmt : BitVec 5 :=
  let amt := (shiftOperandB x).extractLsb' 0 5
  let compl := (shiftAmtCompl x).extractLsb' 0 5
  if x.instrFirstCycle then if shiftAmt5 rv32b x then compl else amt
  else if shiftAmt5 rv32b x then amt else compl

/-- `shift_sbmode`: a single bit is shifted to its place. -/
def shiftSbmode : Bool :=
  rv32b && (x.operator == .sbset || x.operator == .sbclr || x.operator == .sbinv)

/-- `shift_left`. -/
def shiftLeft : Bool :=
  let left :=
    match x.operator with
    | .sll => true
    | .slo => rv32b
    | .rol => rv32b && x.instrFirstCycle
    | .ror => rv32b && !x.instrFirstCycle
    | .fsl => rv32b && (if shiftAmt5 rv32b x then !x.instrFirstCycle else x.instrFirstCycle)
    | .fsr => rv32b && (if shiftAmt5 rv32b x then x.instrFirstCycle else !x.instrFirstCycle)
    | _ => false
  if shiftSbmode rv32b x then true else left

/-- `shift_arith`. -/
def shiftArith : Bool := x.operator == .sra

/-- `shift_ones`. -/
def shiftOnes : Bool := rv32b && (x.operator == .slo || x.operator == .sro)

/-- `grev_op`. -/
def grevOp : Bool := rv32b && x.operator == .grev

/-- `gorc_op`. -/
def gorcOp : Bool := rv32b && x.operator == .gorc

/-- One stage of the reversal: the bits under `lo` and `hi` change places, `k` apart; an
or-combine also keeps them. -/
def reverseStage (gorc : Bool) (k : ℕ) (lo hi v : BitVec 32) : BitVec 32 :=
  (if gorc then v else 0#32) ||| ((v &&& lo) <<< k) ||| ((v &&& hi) >>> k)

/-- The reversal structure: `sel` says which of the five stages are active. -/
def reverse (gorc : Bool) (sel : ℕ → Bool) (v : BitVec 32) : BitVec 32 :=
  let v := if sel 0 then reverseStage gorc 1 0x55555555#32 0xaaaaaaaa#32 v else v
  let v := if sel 1 then reverseStage gorc 2 0x33333333#32 0xcccccccc#32 v else v
  let v := if sel 2 then reverseStage gorc 4 0x0f0f0f0f#32 0xf0f0f0f0#32 v else v
  let v := if sel 3 then reverseStage gorc 8 0x00ff00ff#32 0xff00ff00#32 v else v
  if sel 4 then reverseStage gorc 16 0x0000ffff#32 0xffff0000#32 v else v

/-- The operand that enters the shifter. -/
def shiftInput : BitVec 32 :=
  if shiftSbmode rv32b x then 0x80000000#32
  else if shiftLeft rv32b x then Bits.gate x.shiftEnable (operandARev x)
  else shiftOperandA x

/-- `shift_result_ext`: the shift to the right, with the extension bit in front. -/
def shiftResultExt : BitVec 33 :=
  let v := shiftInput rv32b x
  BitVec.sshiftRight
    (BitVec.ofBool (shiftOnes rv32b x || (shiftArith x && v.getLsbD 31)) ++ v : BitVec 33)
    (shiftAmt rv32b x).toNat

/-- `shift_result`: the shifter, and the reversal that a left shift, grev and gorc use. -/
def shiftResult : BitVec 32 :=
  let rev := grevOp rv32b x || gorcOp rv32b x
  let v := if rev then shiftOperandA x else (shiftResultExt rv32b x).extractLsb' 0 32
  reverse (gorcOp rv32b x)
    (fun k => shiftLeft rv32b x || (rev && (shiftAmt rv32b x).getLsbD k)) v

/-! ### Comparison -/

/-- `cmp_signed`. -/
def cmpSigned (op : AluOp) : Bool :=
  match op with
  | .ge | .lt | .slt | .min | .max => true
  | _ => false

/-- `is_equal_result_o`. -/
def isEqual : Bool := adderResult x == 0#32

/-- `is_greater_equal`, signed or unsigned. -/
def isGreaterEqual : Bool :=
  if (x.operandA.getLsbD 31 ^^ x.operandB.getLsbD 31) = false then
    !(adderResult x).getLsbD 31
  else x.operandA.getLsbD 31 ^^ cmpSigned x.operator

/-- `comparison_result_o`. -/
def cmpResult : Bool :=
  match x.operator with
  | .eq => isEqual x
  | .ne => !isEqual x
  | .ge | .geu | .max | .maxu => isGreaterEqual x
  | .lt | .ltu | .min | .minu | .slt | .sltu => !isGreaterEqual x
  | _ => isEqual x

/-! ### Bitwise logic -/

/-- `bwlogic_op_b_negate`. -/
def bwlogicOpBNegate : Bool :=
  match x.operator with
  | .xnor | .orn | .andn => rv32b
  | .cmix => rv32b && !x.instrFirstCycle
  | _ => false

/-- `bwlogic_operand_b`. -/
def bwlogicOperandB : BitVec 32 :=
  if bwlogicOpBNegate rv32b x then (operandBNeg x).extractLsb' 1 32 else x.operandB

/-- `bwlogic_and_result`. -/
def bwlogicAndResult : BitVec 32 := x.operandA &&& bwlogicOperandB rv32b x

/-- `bwlogic_result`. -/
def bwlogicResult : BitVec 32 :=
  if x.operator = .or ∨ x.operator = .orn then x.operandA ||| bwlogicOperandB rv32b x
  else if x.operator = .and ∨ x.operator = .andn then bwlogicAndResult rv32b x
  else x.operandA ^^^ bwlogicOperandB rv32b x

/-! ### The units of RV32B -/

/-- One stage of a shuffle: the bits under `maskL` and `maskR` move by `k`. -/
def shuffleStage (k : ℕ) (maskL maskR v : BitVec 32) : BitVec 32 :=
  (v &&& ~~~(maskL ||| maskR)) ||| (((v <<< k) &&& maskL) ||| ((v >>> k) &&& maskR))

/-- The flip ahead of and behind the shuffle that makes it an unshuffle. -/
def shuffleFlip (v : BitVec 32) : BitVec 32 :=
  (v &&& 0x88224411#32)
    ||| ((v <<< 6) &&& 0x22001100#32) ||| ((v >>> 6) &&& 0x00880044#32)
    ||| ((v <<< 9) &&& 0x00440000#32) ||| ((v >>> 9) &&& 0x00002200#32)
    ||| ((v <<< 15) &&& 0x44110000#32) ||| ((v >>> 15) &&& 0x00008822#32)
    ||| ((v <<< 21) &&& 0x11000000#32) ||| ((v >>> 21) &&& 0x00000088#32)

/-- The four stages of a shuffle, selected by `shuffle_mode`. -/
def shuffle (mode : ℕ → Bool) (v : BitVec 32) : BitVec 32 :=
  let v := if mode 3 then shuffleStage 8 0x00ff0000#32 0x0000ff00#32 v else v
  let v := if mode 2 then shuffleStage 4 0x0f000f00#32 0x00f000f0#32 v else v
  let v := if mode 1 then shuffleStage 2 0x30303030#32 0x0c0c0c0c#32 v else v
  if mode 0 then shuffleStage 1 0x44444444#32 0x22222222#32 v else v

/-- `shuffle_result`. -/
def shuffleResult : BitVec 32 :=
  let amt := shiftAmt rv32b x
  if x.operator = .unshfl then
    shuffleFlip (shuffle (fun k => amt.getLsbD (3 - k)) (shuffleFlip x.operandA))
  else shuffle (fun k => amt.getLsbD k) x.operandA

/-- `multicycle_result`: the result of the second cycle of a two-cycle instruction. -/
def multicycleResult : BitVec 32 :=
  match x.operator with
  | .cmov => if x.operandB = 0#32 then x.operandA else x.imdValQ
  | .cmix => x.imdValQ ||| bwlogicAndResult rv32b x
  | .fsr | .fsl | .rol | .ror =>
    if shiftAmt rv32b x = 0#5 then if shiftAmt5 rv32b x then x.operandA else x.imdValQ
    else x.imdValQ ||| shiftResult rv32b x
  | _ => x.operandA

/-- `imd_val_d_o`: what the first cycle leaves to the second. -/
def imdValD : BitVec 32 :=
  if rv32b then
    match x.operator with
    | .cmix => bwlogicAndResult rv32b x
    | .fsr | .fsl | .rol | .ror => shiftResult rv32b x
    | _ => x.operandA
  else 0#32

/-- `imd_val_we_o`. -/
def imdValWe : Bool :=
  match x.operator with
  | .cmov | .cmix | .fsr | .fsl | .rol | .ror => rv32b && x.instrFirstCycle
  | _ => false

/-- `singlebit_result`. -/
def singlebitResult : BitVec 32 :=
  match x.operator with
  | .sbset => x.operandA ||| shiftResult rv32b x
  | .sbclr => x.operandA &&& ~~~shiftResult rv32b x
  | .sbinv => x.operandA ^^^ shiftResult rv32b x
  | _ => (BitVec.ofBool ((shiftResult rv32b x).getLsbD 0)).setWidth 32

/-- `minmax_result`. -/
def minmaxResult : BitVec 32 := if cmpResult x then x.operandA else x.operandB

/-- `bitcnt_bits`. -/
def bitcntBits : BitVec 32 :=
  if x.operator = .pcnt then x.operandA
  else if x.operator = .ctz then ~~~x.operandA
  else ~~~operandARev x

/-- One bit of the count: the enable of the next bit, and the sum so far. -/
def bitcntStep (pcnt : Bool) (bits : BitVec 32) (s : Bool × BitVec 6) (i : ℕ) :
    Bool × BitVec 6 :=
  (pcnt || (s.1 && bits.getLsbD i),
    if s.1 then s.2 + (BitVec.ofBool (bits.getLsbD i)).setWidth 6 else s.2)

/-- `bitcnt_result`. -/
def bitcntResult : BitVec 6 :=
  ((List.range 32).foldl (bitcntStep (x.operator == .pcnt) (bitcntBits x)) (true, 0#6)).2

/-- `pack_result`. -/
def packResult : BitVec 32 :=
  match x.operator with
  | .packu => x.operandB.extractLsb' 16 16 ++ x.operandA.extractLsb' 16 16
  | .packh => (x.operandB.extractLsb' 0 8 ++ x.operandA.extractLsb' 0 8).setWidth 32
  | _ => x.operandB.extractLsb' 0 16 ++ x.operandA.extractLsb' 0 16

/-! ### The result -/

/-- A result of the units that only an ALU with RV32B has. -/
def rv32bOnly (v : BitVec 32) : BitVec 32 := if rv32b then v else 0#32

/-- `result_o`. -/
def result : BitVec 32 :=
  match x.operator with
  | .xor | .xnor | .or | .orn | .and | .andn => bwlogicResult rv32b x
  | .add | .sub => adderResult x
  | .sll | .srl | .sra | .slo | .sro | .grev | .gorc => shiftResult rv32b x
  | .shfl | .unshfl => rv32bOnly rv32b (shuffleResult rv32b x)
  | .eq | .ne | .ge | .geu | .lt | .ltu | .slt | .sltu =>
    (BitVec.ofBool (cmpResult x)).setWidth 32
  | .min | .max | .minu | .maxu => rv32bOnly rv32b (minmaxResult x)
  | .clz | .ctz | .pcnt => rv32bOnly rv32b ((bitcntResult x).setWidth 32)
  | .pack | .packh | .packu => rv32bOnly rv32b (packResult x)
  | .cmix | .cmov | .fsl | .fsr | .rol | .ror => rv32bOnly rv32b (multicycleResult rv32b x)
  | .sbset | .sbclr | .sbinv | .sbext => rv32bOnly rv32b (singlebitResult rv32b x)

/-! ### The mask of the adder -/

/-- The inputs with another enable of the adder. -/
def withAdder (e : Bool) : AluIn := { x with adderEnable := e }

/-- The operations whose result comes from the adder. -/
def usesAdder (op : AluOp) : Bool :=
  match op with
  | .add | .sub | .eq | .ne | .ge | .geu | .lt | .ltu | .slt | .sltu
  | .min | .minu | .max | .maxu => true
  | _ => false

/-- The shifter does not look at the mask of the adder. -/
@[simp] theorem shiftAmt_withAdder (e : Bool) :
    shiftAmt rv32b (withAdder x e) = shiftAmt rv32b x := rfl

/-- The direction of a shift does not look at the adder enable. -/
@[simp] theorem shiftLeft_withAdder (e : Bool) :
    shiftLeft rv32b (withAdder x e) = shiftLeft rv32b x := rfl

/-- Neither does the word that is shifted. -/
@[simp] theorem shiftInput_withAdder (e : Bool) :
    shiftInput rv32b (withAdder x e) = shiftInput rv32b x := by
  simp only [shiftInput, shiftLeft_withAdder]
  rfl

/-- Neither does the shifter. -/
@[simp] theorem shiftResult_withAdder (e : Bool) :
    shiftResult rv32b (withAdder x e) = shiftResult rv32b x := by
  simp only [shiftResult, shiftResultExt, shiftInput_withAdder, shiftAmt_withAdder,
    shiftLeft_withAdder]
  rfl

/-- Neither do the bitwise operations. -/
@[simp] theorem bwlogicResult_withAdder (e : Bool) :
    bwlogicResult rv32b (withAdder x e) = bwlogicResult rv32b x := rfl

/-- Neither does the shuffle. -/
@[simp] theorem shuffleResult_withAdder (e : Bool) :
    shuffleResult rv32b (withAdder x e) = shuffleResult rv32b x := by
  simp only [shuffleResult, shiftAmt_withAdder]
  rfl

/-- Neither do the operations of two cycles. -/
@[simp] theorem multicycleResult_withAdder (e : Bool) :
    multicycleResult rv32b (withAdder x e) = multicycleResult rv32b x := by
  simp only [multicycleResult, shiftAmt_withAdder, shiftResult_withAdder]
  rfl

/-- Neither do the operations on single bits. -/
@[simp] theorem singlebitResult_withAdder (e : Bool) :
    singlebitResult rv32b (withAdder x e) = singlebitResult rv32b x := by
  simp only [singlebitResult, shiftResult_withAdder]
  rfl

/-- Neither do the bit counts. -/
@[simp] theorem bitcntResult_withAdder (e : Bool) :
    bitcntResult (withAdder x e) = bitcntResult x := rfl

/-- Neither does packing. -/
@[simp] theorem packResult_withAdder (e : Bool) :
    packResult (withAdder x e) = packResult x := rfl

/-- The mask of the adder does not show in the result of the other operations. -/
theorem result_withAdder (e : Bool) (h : usesAdder x.operator = false) :
    result rv32b (withAdder x e) = result rv32b x := by
  have hop : (withAdder x e).operator = x.operator := rfl
  simp only [result, hop]
  cases ho : x.operator <;> simp_all [usesAdder]

/-- The intermediate value does not come from the adder. -/
theorem imdValD_withAdder (e : Bool) :
    imdValD rv32b (withAdder x e) = imdValD rv32b x := by
  simp only [imdValD, shiftResult_withAdder]
  rfl

/-- Neither does the write of the intermediate register. -/
theorem imdValWe_withAdder (e : Bool) :
    imdValWe rv32b (withAdder x e) = imdValWe rv32b x := rfl

end Alu

end CocoIbex
