import Mathlib.Tactic

/-!
# The RV32 Instruction Set

The 32-bit instructions of RV32I, M, Zicsr and Zifencei with the return and wait instructions,
as syntax: their encoding as words, the registers they read, and for RV32I what they do. A word
is legal if it encodes an instruction. Fields that an implementation has to ignore are part of
the syntax, all others that are fixed are not.

Nothing here is taken from the decoders. An immediate has the width that its format has room
for, and an offset is kept without the low bit that is always zero. The encoding puts a word
together from fields, as in the tables of the specification.

The effect of an instruction is a function of its address, the registers and the memory: the
register that is written, the access that is made, whether control is transferred, and the
address of the next instruction. ECALL and EBREAK have none, since they trap. The effect of the
multiplications and divisions is in `Rv32M`.

No result is stated in this module; the decoders are compared with it in `Legality`, and the
datapath in `Execution`.
-/

namespace Rv32

/-! ### Words -/

/-- A word of the R format. -/
def rType (f7 : BitVec 7) (rs2 rs1 : BitVec 5) (f3 : BitVec 3) (rd : BitVec 5)
    (opcode : BitVec 7) : BitVec 32 :=
  f7 ++ rs2 ++ rs1 ++ f3 ++ rd ++ opcode

/-- A word of the I format. -/
def iType (imm : BitVec 12) (rs1 : BitVec 5) (f3 : BitVec 3) (rd : BitVec 5)
    (opcode : BitVec 7) : BitVec 32 :=
  imm ++ rs1 ++ f3 ++ rd ++ opcode

/-- A word of the S format, with the immediate in two parts. -/
def sType (imm : BitVec 12) (rs2 rs1 : BitVec 5) (f3 : BitVec 3) (opcode : BitVec 7) :
    BitVec 32 :=
  rType (imm.extractLsb' 5 7) rs2 rs1 f3 (imm.extractLsb' 0 5) opcode

/-- A word of the B format; `off` is the offset in halfwords. -/
def bType (off : BitVec 12) (rs2 rs1 : BitVec 5) (f3 : BitVec 3) (opcode : BitVec 7) :
    BitVec 32 :=
  rType (off.extractLsb' 11 1 ++ off.extractLsb' 4 6) rs2 rs1 f3
    (off.extractLsb' 0 4 ++ off.extractLsb' 10 1) opcode

/-- A word of the U format. -/
def uType (imm : BitVec 20) (rd : BitVec 5) (opcode : BitVec 7) : BitVec 32 :=
  imm ++ rd ++ opcode

/-- A word of the J format; `off` is the offset in halfwords. -/
def jType (off : BitVec 20) (rd : BitVec 5) (opcode : BitVec 7) : BitVec 32 :=
  uType (off.extractLsb' 19 1 ++ off.extractLsb' 0 10 ++ off.extractLsb' 10 1
    ++ off.extractLsb' 11 8) rd opcode

/-! ### RV32I -/

/-- The conditions of a branch. -/
inductive Cond
  | eq | ne | lt | ge | ltu | geu
  deriving DecidableEq, Repr

/-- All conditions of branches. -/
instance : Fintype Cond where
  elems := {.eq, .ne, .lt, .ge, .ltu, .geu}
  complete := fun x => by cases x <;> decide

/-- The funct3 of a branch. -/
def Cond.funct3 : Cond → BitVec 3
  | .eq => 0b000#3
  | .ne => 0b001#3
  | .lt => 0b100#3
  | .ge => 0b101#3
  | .ltu => 0b110#3
  | .geu => 0b111#3

/-- The condition holds of the sources. -/
def Cond.holds (a b : BitVec 32) : Cond → Bool
  | .eq => a == b
  | .ne => a != b
  | .lt => a.slt b
  | .ge => !a.slt b
  | .ltu => a.ult b
  | .geu => !a.ult b

/-- The sizes of a memory access. -/
inductive Size
  | byte | half | word
  deriving DecidableEq, Repr

/-- All widths of stores. -/
instance : Fintype Size where
  elems := {.byte, .half, .word}
  complete := fun x => by cases x <;> decide

/-- The size in a funct3. -/
def Size.bits : Size → BitVec 2
  | .byte => 0b00#2
  | .half => 0b01#2
  | .word => 0b10#2

/-- The loads: `lb`, `lh`, `lw`, `lbu` and `lhu`. -/
inductive Load
  | signed (size : Size)
  | byteU | halfU
  deriving DecidableEq, Repr

/-- All kinds of loads. -/
instance : Fintype Load where
  elems := {.signed .byte, .signed .half, .signed .word, .byteU, .halfU}
  complete := fun x => by rcases x with (_ | _ | _) | _ | _ <;> decide

/-- The funct3 of a load. -/
def Load.funct3 : Load → BitVec 3
  | .signed size => 0#1 ++ size.bits
  | .byteU => 0b100#3
  | .halfU => 0b101#3

/-- The size of a load. -/
def Load.size : Load → Size
  | .signed size => size
  | .byteU => .byte
  | .halfU => .half

/-- The loaded value is extended with its sign. -/
def Load.isSigned : Load → Bool
  | .signed _ => true
  | _ => false

/-- The operations on a register and an immediate, but for the shifts. -/
inductive ImmOp
  | add | slt | sltu | xor | or | and
  deriving DecidableEq, Repr

/-- All operations with an immediate. -/
instance : Fintype ImmOp where
  elems := {.add, .slt, .sltu, .xor, .or, .and}
  complete := fun x => by cases x <;> decide

/-- The funct3 of an operation. -/
def ImmOp.funct3 : ImmOp → BitVec 3
  | .add => 0b000#3
  | .slt => 0b010#3
  | .sltu => 0b011#3
  | .xor => 0b100#3
  | .or => 0b110#3
  | .and => 0b111#3

/-- The result of an operation. -/
def ImmOp.apply (a b : BitVec 32) : ImmOp → BitVec 32
  | .add => a + b
  | .slt => (BitVec.ofBool (a.slt b)).setWidth 32
  | .sltu => (BitVec.ofBool (a.ult b)).setWidth 32
  | .xor => a ^^^ b
  | .or => a ||| b
  | .and => a &&& b

/-- The shifts. -/
inductive Shift
  | left | right | arith
  deriving DecidableEq, Repr

/-- All shifts by a constant. -/
instance : Fintype Shift where
  elems := {.left, .right, .arith}
  complete := fun x => by cases x <;> decide

/-- The funct3 of a shift. -/
def Shift.funct3 : Shift → BitVec 3
  | .left => 0b001#3
  | .right | .arith => 0b101#3

/-- The funct7 of a shift. -/
def Shift.funct7 : Shift → BitVec 7
  | .left | .right => 0b0000000#7
  | .arith => 0b0100000#7

/-- The result of a shift. -/
def Shift.apply (a : BitVec 32) (shamt : BitVec 5) : Shift → BitVec 32
  | .left => a <<< shamt.toNat
  | .right => a >>> shamt.toNat
  | .arith => a.sshiftRight shamt.toNat

/-- The operations on two registers. -/
inductive RegOp
  | imm (op : ImmOp)
  | shift (op : Shift)
  | sub
  deriving DecidableEq, Repr

/-- All operations on two registers. -/
instance : Fintype RegOp where
  elems := Finset.univ.image .imm ∪ Finset.univ.image .shift ∪ {.sub}
  complete := fun x => by rcases x with x | x | _ <;> simp

/-- The funct3 of an operation. -/
def RegOp.funct3 : RegOp → BitVec 3
  | .imm op => op.funct3
  | .shift op => op.funct3
  | .sub => 0b000#3

/-- The funct7 of an operation. -/
def RegOp.funct7 : RegOp → BitVec 7
  | .imm _ => 0b0000000#7
  | .shift op => op.funct7
  | .sub => 0b0100000#7

/-- The result of an operation; a shift takes the low bits of its amount. -/
def RegOp.apply (a b : BitVec 32) : RegOp → BitVec 32
  | .imm op => op.apply a b
  | .shift op => op.apply a (b.setWidth 5)
  | .sub => a - b

/-- The instructions of RV32I. -/
inductive Base
  | lui (imm : BitVec 20) (rd : BitVec 5)
  | auipc (imm : BitVec 20) (rd : BitVec 5)
  | jal (off : BitVec 20) (rd : BitVec 5)
  | jalr (imm : BitVec 12) (rs1 rd : BitVec 5)
  | branch (cond : Cond) (off : BitVec 12) (rs2 rs1 : BitVec 5)
  | load (kind : Load) (imm : BitVec 12) (rs1 rd : BitVec 5)
  | store (size : Size) (imm : BitVec 12) (rs2 rs1 : BitVec 5)
  | opImm (op : ImmOp) (imm : BitVec 12) (rs1 rd : BitVec 5)
  | shiftImm (op : Shift) (shamt rs1 rd : BitVec 5)
  | op (o : RegOp) (rs2 rs1 rd : BitVec 5)
  /-- all fields but the opcode and funct3 are hints or ignored -/
  | fence (fields : BitVec 12) (rs1 rd : BitVec 5)
  | ecall
  | ebreak
  deriving DecidableEq, Repr

/-- The word of an instruction of RV32I. -/
def Base.encode : Base → BitVec 32
  | .lui imm rd => uType imm rd 0x37#7
  | .auipc imm rd => uType imm rd 0x17#7
  | .jal off rd => jType off rd 0x6f#7
  | .jalr imm rs1 rd => iType imm rs1 0b000#3 rd 0x67#7
  | .branch cond off rs2 rs1 => bType off rs2 rs1 cond.funct3 0x63#7
  | .load kind imm rs1 rd => iType imm rs1 kind.funct3 rd 0x03#7
  | .store size imm rs2 rs1 => sType imm rs2 rs1 (0#1 ++ size.bits) 0x23#7
  | .opImm o imm rs1 rd => iType imm rs1 o.funct3 rd 0x13#7
  | .shiftImm o shamt rs1 rd => rType o.funct7 shamt rs1 o.funct3 rd 0x13#7
  | .op o rs2 rs1 rd => rType o.funct7 rs2 rs1 o.funct3 rd 0x33#7
  | .fence fields rs1 rd => iType fields rs1 0b000#3 rd 0x0f#7
  | .ecall => iType 0x000#12 0#5 0b000#3 0#5 0x73#7
  | .ebreak => iType 0x001#12 0#5 0b000#3 0#5 0x73#7

/-! ### The other instructions -/

/-- The operations of Zicsr. -/
inductive CsrOp
  | write | set | clear
  deriving DecidableEq, Repr

/-- All forms of CSR instructions. -/
instance : Fintype CsrOp where
  elems := {.write, .set, .clear}
  complete := fun x => by cases x <;> decide

/-- The operation in a funct3. -/
def CsrOp.bits : CsrOp → BitVec 2
  | .write => 0b01#2
  | .set => 0b10#2
  | .clear => 0b11#2

/-- The instructions. -/
inductive Insn
  | base (i : Base)
  /-- `mul`, `mulh`, `mulhsu`, `mulhu`, `div`, `divu`, `rem` and `remu`, by funct3 -/
  | mulDiv (f3 : BitVec 3) (rs2 rs1 rd : BitVec 5)
  | csr (op : CsrOp) (addr : BitVec 12) (rs1 rd : BitVec 5)
  | csrImm (op : CsrOp) (addr : BitVec 12) (uimm rd : BitVec 5)
  /-- all fields but the opcode and funct3 are ignored -/
  | fenceI (fields : BitVec 12) (rs1 rd : BitVec 5)
  | mret
  | dret
  | wfi
  deriving DecidableEq, Repr

/-- The word of an instruction. -/
def Insn.encode : Insn → BitVec 32
  | .base i => i.encode
  | .mulDiv f3 rs2 rs1 rd => rType 0b0000001#7 rs2 rs1 f3 rd 0x33#7
  | .csr op addr rs1 rd => iType addr rs1 (0#1 ++ op.bits) rd 0x73#7
  | .csrImm op addr uimm rd => iType addr uimm (1#1 ++ op.bits) rd 0x73#7
  | .fenceI fields rs1 rd => iType fields rs1 0b001#3 rd 0x0f#7
  | .mret => iType 0x302#12 0#5 0b000#3 0#5 0x73#7
  | .dret => iType 0x7b2#12 0#5 0b000#3 0#5 0x73#7
  | .wfi => iType 0x105#12 0#5 0b000#3 0#5 0x73#7

/-- The word encodes an instruction. -/
def Legal (w : BitVec 32) : Prop := ∃ i : Insn, i.encode = w

/-! ### Sources -/

/-- The source registers of an instruction of RV32I. -/
def Base.sources : Base → List (BitVec 5)
  | .jalr _ rs1 _ => [rs1]
  | .branch _ _ rs2 rs1 => [rs1, rs2]
  | .load _ _ rs1 _ => [rs1]
  | .store _ _ rs2 rs1 => [rs1, rs2]
  | .opImm _ _ rs1 _ => [rs1]
  | .shiftImm _ _ rs1 _ => [rs1]
  | .op _ rs2 rs1 _ => [rs1, rs2]
  | _ => []

/-- The source registers of an instruction. -/
def Insn.sources : Insn → List (BitVec 5)
  | .base i => i.sources
  | .mulDiv _ rs2 rs1 _ => [rs1, rs2]
  | .csr _ _ rs1 _ => [rs1]
  | _ => []

/-- The source registers in the format of a word, by its opcode and funct3. -/
def sourcesOf (w : BitVec 32) : List (BitVec 5) :=
  let rs1 := w.extractLsb' 15 5
  let rs2 := w.extractLsb' 20 5
  let opcode := w.extractLsb' 0 7
  let f3 := w.extractLsb' 12 3
  if opcode ∈ [0x67#7, 0x03#7, 0x13#7] then [rs1]
  else if opcode ∈ [0x63#7, 0x23#7, 0x33#7] then [rs1, rs2]
  else if opcode = 0x73#7 ∧ f3 ∈ [0b001#3, 0b010#3, 0b011#3] then [rs1]
  else []

/-- The destination register in the format of a word. -/
def destinationOf (w : BitVec 32) : List (BitVec 5) :=
  let rd := w.extractLsb' 7 5
  let opcode := w.extractLsb' 0 7
  if opcode ∈ [0x37#7, 0x17#7, 0x6f#7, 0x67#7, 0x03#7, 0x13#7, 0x33#7] then [rd]
  else if opcode = 0x73#7 ∧ w.extractLsb' 12 3 ≠ 0b000#3 then [rd]
  else []

/-! ### The meaning of RV32I -/

/-- A load or store. -/
structure Access where
  addr : BitVec 32
  size : Size
  /-- the data of a store -/
  store : Option (BitVec 32)
  /-- the register of a load, and whether the value is extended with its sign -/
  load : Option (BitVec 5 × Bool)
  deriving DecidableEq, Repr

/-- What an instruction does, besides a load or store: the register it writes, whether a
branch is taken, and where the hart goes on. -/
structure Effect where
  write : Option (BitVec 5 × BitVec 32) := none
  access : Option Access := none
  taken : Bool := false
  nextPc : BitVec 32
  deriving DecidableEq, Repr

/-- The effect of an instruction that is `len` bytes long at `pc`, with the registers `reg`;
`ecall` and `ebreak` trap. -/
def Base.effect (pc len : BitVec 32) (reg : BitVec 5 → BitVec 32) : Base → Option Effect
  | .lui imm rd => some { write := some (rd, imm ++ 0#12), nextPc := pc + len }
  | .auipc imm rd => some { write := some (rd, pc + (imm ++ 0#12)), nextPc := pc + len }
  | .jal off rd =>
    some { write := some (rd, pc + len), nextPc := pc + (off ++ 0#1).signExtend 32 }
  | .jalr imm rs1 rd =>
    some { write := some (rd, pc + len), nextPc := (reg rs1 + imm.signExtend 32) &&& ~~~1#32 }
  | .branch cond off rs2 rs1 =>
    let taken := cond.holds (reg rs1) (reg rs2)
    some { taken := taken
           nextPc := pc + if taken then (off ++ 0#1).signExtend 32 else len }
  | .load kind imm rs1 rd =>
    some { access := some { addr := reg rs1 + imm.signExtend 32, size := kind.size, store := none
                            load := some (rd, kind.isSigned) }
           nextPc := pc + len }
  | .store size imm rs2 rs1 =>
    some { access := some { addr := reg rs1 + imm.signExtend 32, size := size
                            store := some (reg rs2), load := none }
           nextPc := pc + len }
  | .opImm o imm rs1 rd =>
    some { write := some (rd, o.apply (reg rs1) (imm.signExtend 32)), nextPc := pc + len }
  | .shiftImm o shamt rs1 rd =>
    some { write := some (rd, o.apply (reg rs1) shamt), nextPc := pc + len }
  | .op o rs2 rs1 rd =>
    some { write := some (rd, o.apply (reg rs1) (reg rs2)), nextPc := pc + len }
  | .fence _ _ _ => some { nextPc := pc + len }
  | .ecall | .ebreak => none

end Rv32
