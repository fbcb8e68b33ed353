import CocoIbex.Rv32

/-!
# The Compressed Instructions

The instructions of the C extension of RV32 without floating point, as syntax: their encoding as
halfwords and the instructions of RV32I for which they stand. What the extension reserves cannot
be written; its hints are instructions without an effect on a register. An immediate is kept
without the low bits that are zero in it.

Where the extension excludes a value, the type of the field does: a register of the short form
has three bits, and an immediate or a register that must not be zero comes with a proof of it.
So the expansion is a total function, and every expansion is an instruction of RV32I.

The bits of an immediate are scattered over a halfword in an order of their own for each format;
the encodings have them in the order of the specification.

No result is stated in this module; the compressed decoder is compared with it in
`RvcExpansion`.
-/

namespace Rvc

open Rv32

/-- The registers that have three bits, x8 to x15. -/
def reg (r : BitVec 3) : BitVec 5 := 0b01#2 ++ r

/-- The operations on two registers. -/
inductive RegOp
  | sub | xor | or | and
  deriving DecidableEq, Repr

/-- The function code of an operation. -/
def RegOp.bits : RegOp → BitVec 2
  | .sub => 0b00#2
  | .xor => 0b01#2
  | .or => 0b10#2
  | .and => 0b11#2

/-- The operation of RV32I. -/
def RegOp.expand : RegOp → Rv32.RegOp
  | .sub => .sub
  | .xor => .imm .xor
  | .or => .imm .or
  | .and => .imm .and

/-- The compressed instructions. -/
inductive Insn
  | addi4spn (rd : BitVec 3) (imm : BitVec 8) (h : imm ≠ 0#8)
  | lw (rd rs1 : BitVec 3) (imm : BitVec 5)
  | sw (rs2 rs1 : BitVec 3) (imm : BitVec 5)
  /-- `c.addi` and `c.nop` -/
  | addi (rd : BitVec 5) (imm : BitVec 6)
  | jal (off : BitVec 11)
  | li (rd : BitVec 5) (imm : BitVec 6)
  | addi16sp (imm : BitVec 6) (h : imm ≠ 0#6)
  | lui (rd : BitVec 5) (imm : BitVec 6) (hrd : rd ≠ 2#5) (h : imm ≠ 0#6)
  /-- `c.srli` and `c.srai` -/
  | shiftRight (arith : Bool) (rd : BitVec 3) (shamt : BitVec 5)
  | andi (rd : BitVec 3) (imm : BitVec 6)
  | op (o : RegOp) (rd rs2 : BitVec 3)
  | j (off : BitVec 11)
  /-- `c.beqz` and `c.bnez` -/
  | branch (ne : Bool) (rs1 : BitVec 3) (off : BitVec 8)
  | slli (rd shamt : BitVec 5)
  | lwsp (rd : BitVec 5) (imm : BitVec 6) (h : rd ≠ 0#5)
  | jr (rs1 : BitVec 5) (h : rs1 ≠ 0#5)
  | mv (rd rs2 : BitVec 5) (h : rs2 ≠ 0#5)
  | ebreak
  | jalr (rs1 : BitVec 5) (h : rs1 ≠ 0#5)
  | add (rd rs2 : BitVec 5) (h : rs2 ≠ 0#5)
  | swsp (rs2 : BitVec 5) (imm : BitVec 6)
  deriving DecidableEq

/-- A halfword with the fields of the CI format. -/
def ciType (f3 : BitVec 3) (b12 : BitVec 1) (rd imm : BitVec 5) (quadrant : BitVec 2) :
    BitVec 16 :=
  f3 ++ b12 ++ rd ++ imm ++ quadrant

/-- A halfword with the fields of the CB format. -/
def cbType (f3 high rs1 : BitVec 3) (low : BitVec 5) (quadrant : BitVec 2) : BitVec 16 :=
  f3 ++ high ++ rs1 ++ low ++ quadrant

/-- The field of a jump offset, `[11|4|9:8|10|6|7|3:1|5]`. -/
def jumpField (off : BitVec 11) : BitVec 11 :=
  off.extractLsb' 10 1 ++ off.extractLsb' 3 1 ++ off.extractLsb' 7 2 ++ off.extractLsb' 9 1
    ++ off.extractLsb' 5 1 ++ off.extractLsb' 6 1 ++ off.extractLsb' 0 3 ++ off.extractLsb' 4 1

/-- The halfword of an instruction; the comments give the bits of the scattered immediates. -/
def Insn.encode : Insn → BitVec 16
  -- [5:4|9:6|2|3]
  | .addi4spn rd imm _ =>
    0b000#3 ++ imm.extractLsb' 2 2 ++ imm.extractLsb' 4 4 ++ imm.extractLsb' 0 1
      ++ imm.extractLsb' 1 1 ++ rd ++ 0b00#2
  -- [5:3] and [2|6]
  | .lw rd rs1 imm =>
    cbType 0b010#3 (imm.extractLsb' 1 3) rs1
      (imm.extractLsb' 0 1 ++ imm.extractLsb' 4 1 ++ rd) 0b00#2
  | .sw rs2 rs1 imm =>
    cbType 0b110#3 (imm.extractLsb' 1 3) rs1
      (imm.extractLsb' 0 1 ++ imm.extractLsb' 4 1 ++ rs2) 0b00#2
  | .addi rd imm => ciType 0b000#3 (imm.extractLsb' 5 1) rd (imm.extractLsb' 0 5) 0b01#2
  | .jal off => 0b001#3 ++ jumpField off ++ 0b01#2
  | .li rd imm => ciType 0b010#3 (imm.extractLsb' 5 1) rd (imm.extractLsb' 0 5) 0b01#2
  -- [9] and [4|6|8:7|5]
  | .addi16sp imm _ =>
    ciType 0b011#3 (imm.extractLsb' 5 1) 2#5
      (imm.extractLsb' 0 1 ++ imm.extractLsb' 2 1 ++ imm.extractLsb' 3 2 ++ imm.extractLsb' 1 1)
      0b01#2
  -- [17] and [16:12]
  | .lui rd imm _ _ => ciType 0b011#3 (imm.extractLsb' 5 1) rd (imm.extractLsb' 0 5) 0b01#2
  | .shiftRight arith rd shamt =>
    cbType 0b100#3 (0b00#2 ++ BitVec.ofBool arith) rd shamt 0b01#2
  | .andi rd imm =>
    cbType 0b100#3 (imm.extractLsb' 5 1 ++ 0b10#2) rd (imm.extractLsb' 0 5) 0b01#2
  | .op o rd rs2 => cbType 0b100#3 0b011#3 rd (o.bits ++ rs2) 0b01#2
  | .j off => 0b101#3 ++ jumpField off ++ 0b01#2
  -- [8|4:3] and [7:6|2:1|5]
  | .branch ne rs1 off =>
    cbType (0b11#2 ++ BitVec.ofBool ne) (off.extractLsb' 7 1 ++ off.extractLsb' 2 2) rs1
      (off.extractLsb' 5 2 ++ off.extractLsb' 0 2 ++ off.extractLsb' 4 1) 0b01#2
  | .slli rd shamt => ciType 0b000#3 0#1 rd shamt 0b10#2
  -- [5] and [4:2|7:6]
  | .lwsp rd imm _ =>
    ciType 0b010#3 (imm.extractLsb' 3 1) rd (imm.extractLsb' 0 3 ++ imm.extractLsb' 4 2) 0b10#2
  | .jr rs1 _ => ciType 0b100#3 0#1 rs1 0#5 0b10#2
  | .mv rd rs2 _ => ciType 0b100#3 0#1 rd rs2 0b10#2
  | .ebreak => ciType 0b100#3 1#1 0#5 0#5 0b10#2
  | .jalr rs1 _ => ciType 0b100#3 1#1 rs1 0#5 0b10#2
  | .add rd rs2 _ => ciType 0b100#3 1#1 rd rs2 0b10#2
  -- [5:2|7:6]
  | .swsp rs2 imm => 0b110#3 ++ imm.extractLsb' 0 4 ++ imm.extractLsb' 4 2 ++ rs2 ++ 0b10#2

/-- The instruction of RV32I. -/
def Insn.expand : Insn → Base
  | .addi4spn rd imm _ => .opImm .add (0#2 ++ imm ++ 0#2) 2#5 (reg rd)
  | .lw rd rs1 imm => .load (.signed .word) (0#5 ++ imm ++ 0#2) (reg rs1) (reg rd)
  | .sw rs2 rs1 imm => .store .word (0#5 ++ imm ++ 0#2) (reg rs2) (reg rs1)
  | .addi rd imm => .opImm .add (imm.signExtend 12) rd rd
  | .jal off => .jal (off.signExtend 20) 1#5
  | .li rd imm => .opImm .add (imm.signExtend 12) 0#5 rd
  | .addi16sp imm _ => .opImm .add ((imm ++ 0#4).signExtend 12) 2#5 2#5
  | .lui rd imm _ _ => .lui (imm.signExtend 20) rd
  | .shiftRight arith rd shamt =>
    .shiftImm (if arith then .arith else .right) shamt (reg rd) (reg rd)
  | .andi rd imm => .opImm .and (imm.signExtend 12) (reg rd) (reg rd)
  | .op o rd rs2 => .op o.expand (reg rs2) (reg rd) (reg rd)
  | .j off => .jal (off.signExtend 20) 0#5
  | .branch ne rs1 off => .branch (if ne then .ne else .eq) (off.signExtend 12) 0#5 (reg rs1)
  | .slli rd shamt => .shiftImm .left shamt rd rd
  | .lwsp rd imm _ => .load (.signed .word) (0#4 ++ imm ++ 0#2) 2#5 rd
  | .jr rs1 _ => .jalr 0#12 rs1 0#5
  | .mv rd rs2 _ => .op (.imm .add) rs2 0#5 rd
  | .ebreak => .ebreak
  | .jalr rs1 _ => .jalr 0#12 rs1 1#5
  | .add rd rs2 _ => .op (.imm .add) rs2 rd rd
  | .swsp rs2 imm => .store .word (0#4 ++ imm ++ 0#2) rs2 2#5

end Rvc
