import Mathlib.Logic.Basic

/-!
# The Package of Constants

The enumerations of `ibex_pkg.sv` that the modelled units exchange. Each enumeration is an
inductive type with the constructors in the order of the package; where the source compares an
encoding rather than a name, the encoding is a function of its own.

With types in the place of bits an encoding that the package does not have cannot occur, and
where the source has a default for such an encoding, the model does not. Two kinds of values
come from a program as words and are decoded to a constructor with an option: the opcode of an
instruction and the privilege level of a register.

`Config` has the parameters of the source that choose the instructions that are implemented, and
the branch target ALU.

No result is stated in this module but that the decoding of an opcode undoes its encoding.
-/

namespace CocoIbex

/-! ### Instruction decoding -/

/-- The opcodes, `opcode_e`. -/
inductive Opcode
  | load | miscMem | opImm | auipc | store | op | lui | branch | jalr | jal | system
  deriving DecidableEq, Repr

/-- The encoding of an opcode in the low seven bits of an instruction. -/
def Opcode.bits : Opcode → BitVec 7
  | .load => 0x03#7
  | .miscMem => 0x0f#7
  | .opImm => 0x13#7
  | .auipc => 0x17#7
  | .store => 0x23#7
  | .op => 0x33#7
  | .lui => 0x37#7
  | .branch => 0x63#7
  | .jalr => 0x67#7
  | .jal => 0x6f#7
  | .system => 0x73#7

/-- The cast `opcode_e'(instr[6:0])`, undefined on the other encodings. -/
def Opcode.ofBits (b : BitVec 7) : Option Opcode :=
  [.load, .miscMem, .opImm, .auipc, .store, .op, .lui, .branch, .jalr, .jal, .system].find?
    fun o => o.bits == b

/-- Casting the encoding of an opcode gives it back. -/
@[simp] theorem Opcode.ofBits_bits (o : Opcode) : Opcode.ofBits o.bits = some o := by
  cases o <;> rfl

/-- ALU operations, `alu_op_e`. -/
inductive AluOp
  | add | sub
  | xor | or | and | xnor | orn | andn
  | sra | srl | sll | sro | slo | ror | rol | grev | gorc | shfl | unshfl
  | lt | ltu | ge | geu | eq | ne | min | minu | max | maxu
  | pack | packu | packh
  | clz | ctz | pcnt
  | slt | sltu
  | cmov | cmix | fsl | fsr
  | sbset | sbclr | sbinv | sbext
  deriving DecidableEq, Repr

/-- Multiplier and divider operations, `md_op_e`. -/
inductive MdOp
  | mull | mulh | div | rem
  deriving DecidableEq, Repr

/-- CSR operations, `csr_op_e`. -/
inductive CsrOp
  | read | write | set | clear
  deriving DecidableEq, Repr

/-- Selection of ALU operand a, `op_a_sel_e`. -/
inductive OpASel
  | regA | fwd | currPc | imm
  deriving DecidableEq, Repr

/-- Selection of the immediate for operand a, `imm_a_sel_e`. -/
inductive ImmASel
  | z | zero
  deriving DecidableEq, Repr

/-- Selection of ALU operand b, `op_b_sel_e`. -/
inductive OpBSel
  | regB | imm
  deriving DecidableEq, Repr

/-- Selection of the immediate for operand b, `imm_b_sel_e`. -/
inductive ImmBSel
  | i | s | b | u | j | incrPc | incrAddr
  deriving DecidableEq, Repr

/-- Selection of the register write data, `rf_wd_sel_e`. -/
inductive RfWdSel
  | ex | csr
  deriving DecidableEq, Repr

/-- The parameters of the core that the decoders take. The register file is that of
RV32I (`RV32E = 0`), the pipeline that without a write-back stage. -/
structure Config where
  rv32m : Bool
  rv32b : Bool
  branchTargetALU : Bool
  deriving DecidableEq, Repr

/-! ### The IF stage and the controller -/

/-- Selection of the next fetch address, `pc_sel_e`. -/
inductive PcSel
  | boot | jump | exc | eret | dret
  deriving DecidableEq, Repr

/-- Selection of the address of an exception, `exc_pc_sel_e`. -/
inductive ExcPcSel
  | exc | irq | dbd | dbgExc
  deriving DecidableEq, Repr

/-- Interrupt requests, `irqs_t`. -/
structure Irqs where
  irqSoftware : Bool
  irqTimer : Bool
  irqExternal : Bool
  irqFast : BitVec 15
  deriving DecidableEq, Repr

/-- The causes of an exception, `exc_cause_e`; `irqFast n` is the fast interrupt `n`. -/
inductive ExcCause
  | irqSoftwareM | irqTimerM | irqExternalM | irqFast (n : BitVec 4) | irqNm
  | insnAddrMisa | instrAccessFault | illegalInsn | breakpoint
  | loadAccessFault | storeAccessFault | ecallUmode | ecallMmode
  deriving DecidableEq, Repr

/-- The encoding of a cause: whether it is an interrupt, and its number. -/
def ExcCause.bits : ExcCause → BitVec 6
  | .irqSoftwareM => 0b100011#6
  | .irqTimerM => 0b100111#6
  | .irqExternalM => 0b101011#6
  | .irqFast n => 0b11#2 ++ n
  | .irqNm => 0b111111#6
  | .insnAddrMisa => 0#6
  | .instrAccessFault => 1#6
  | .illegalInsn => 2#6
  | .breakpoint => 3#6
  | .loadAccessFault => 5#6
  | .storeAccessFault => 7#6
  | .ecallUmode => 8#6
  | .ecallMmode => 11#6

/-- The causes of an entry to debug mode, `dbg_cause_e`. -/
inductive DbgCause
  | none | ebreak | trigger | haltreq | step
  deriving DecidableEq, Repr

/-- The encoding of a cause in `dcsr`. -/
def DbgCause.bits : DbgCause → BitVec 3
  | .none => 0#3
  | .ebreak => 1#3
  | .trigger => 2#3
  | .haltreq => 3#3
  | .step => 4#3

/-! ### Privilege and memory protection -/

/-- Privilege levels, `priv_lvl_e`. -/
inductive PrivLvl
  | m | h | s | u
  deriving DecidableEq, Repr

/-- The encoding of a privilege level. -/
def PrivLvl.bits : PrivLvl → BitVec 2
  | .m => 0b11#2
  | .h => 0b10#2
  | .s => 0b01#2
  | .u => 0b00#2

/-- The cast `priv_lvl_e'(b)`. -/
def PrivLvl.ofBits (b : BitVec 2) : PrivLvl :=
  if b = 0b11#2 then .m else if b = 0b10#2 then .h else if b = 0b01#2 then .s else .u

/-- Types of a PMP checked access, `pmp_req_e`. -/
inductive PmpReq
  | exec | write | read
  deriving DecidableEq, Repr

/-- Address matching modes of a PMP region, `pmp_cfg_mode_e`. -/
inductive PmpCfgMode
  | off | tor | na4 | napot
  deriving DecidableEq, Repr

/-- The encoding of a matching mode. -/
def PmpCfgMode.bits : PmpCfgMode → BitVec 2
  | .off => 0b00#2
  | .tor => 0b01#2
  | .na4 => 0b10#2
  | .napot => 0b11#2

/-- The configuration of one PMP region, `pmp_cfg_t`. -/
structure PmpCfg where
  lock : Bool
  mode : PmpCfgMode
  exec : Bool
  write : Bool
  read : Bool
  deriving DecidableEq, Repr

end CocoIbex
