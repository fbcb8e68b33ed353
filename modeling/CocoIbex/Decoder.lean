import CocoIbex.Instr
import Mathlib.Tactic.SplitIfs

/-!
# The Instruction Decoder

`ibex_decoder`: the main decode of an instruction word, and the decode of its ALU controls. The
two `always_comb` blocks of the source are `mainDecode` and `aluDecode`. Both are combinational
in the word and in `instr_first_cycle_i`, which tells the first cycle of an instruction from the
later ones.

The cases of an opcode are a function each. The main decode ends as in the source with the
squash of an illegal instruction, whose enables are all taken back (`MainOut.squash`); the ALU
controls are not squashed, since nothing takes their result. What a register-register operation
is, is looked up in the tables of the source (`opRv32i`, `opRv32b`, `opTernary`, `opMultdiv`),
from which the legality, the operator and the number of cycles are read.

The check of the registers of RV32E is not part of `mainDecode`; it has a module of its own.

## Main results

* `mainDecode_system` — what a system instruction is does not depend on the cycle;
* `mainDecode_csrAccess` — a CSR instruction is legal and no other system instruction;
* `systemOut_dataReq`, `systemOut_rfWe` and `systemOut_rfRen` — the other system instructions
  neither access memory nor registers.
-/

namespace CocoIbex

/-! ### The main decode -/

/-- The signals that the main decode assigns. -/
structure MainOut where
  illegalInsn : Bool := false
  ebrkInsn : Bool := false
  mretInsn : Bool := false
  dretInsn : Bool := false
  ecallInsn : Bool := false
  wfiInsn : Bool := false
  jumpSet : Bool := false
  icacheInval : Bool := false
  multdivOperator : MdOp := .mull
  multdivSignedMode : BitVec 2 := 0b00#2
  rfWdataSel : RfWdSel := .ex
  rfWe : Bool := false
  rfRenA : Bool := false
  rfRenB : Bool := false
  csrAccess : Bool := false
  csrOp : CsrOp := .read
  dataReq : Bool := false
  dataWe : Bool := false
  dataType : BitVec 2 := 0b00#2
  dataSignExtension : Bool := false
  jumpInDec : Bool := false
  branchInDec : Bool := false
  deriving DecidableEq, Repr

/-- Legality of the register-immediate operations. -/
def opImmIllegal (cfg : Config) (f7 : BitVec 7) (rs2 : BitVec 5) (f3 : BitVec 3) : Bool :=
  -- instr[31:27] and instr[26]
  let f5 : BitVec 5 := f7.extractLsb 6 2
  let i26 : Bool := f7.getLsbD 1
  match f3 with
  | 0b001#3 =>
    if f5 = 0b00000#5 then false                             -- slli
    else if f5 ∈ [0b00100#5, 0b01001#5, 0b00101#5, 0b01101#5] then !cfg.rv32b
    else if f5 = 0b00001#5 then if i26 then true else !cfg.rv32b   -- shfl
    else if f5 = 0b01100#5 then
      -- clz, ctz and pcnt, by instr[26:20]
      if (f7.extractLsb 1 0 ++ rs2 : BitVec 7) ∈ [0#7, 1#7, 2#7] then !cfg.rv32b else true
    else true
  | 0b101#3 =>
    if i26 then !cfg.rv32b                                   -- fsri
    else if f5 ∈ [0b00000#5, 0b01000#5] then false           -- srli, srai
    else if f5 ∈ [0b00100#5, 0b01100#5, 0b01001#5, 0b01101#5, 0b00101#5, 0b00001#5] then
      !cfg.rv32b
    else true
  | _ => false

/-- The register-register operations of RV32I, by `{instr[31:25], instr[14:12]}`. -/
def opRv32i : List (BitVec 7 × BitVec 3) :=
  [(0b0000000#7, 0b000#3), (0b0100000#7, 0b000#3), (0b0000000#7, 0b010#3),
    (0b0000000#7, 0b011#3), (0b0000000#7, 0b100#3), (0b0000000#7, 0b110#3),
    (0b0000000#7, 0b111#3), (0b0000000#7, 0b001#3), (0b0000000#7, 0b101#3),
    (0b0100000#7, 0b101#3)]

/-- The register-register operations of RV32B that are legal with it. -/
def opRv32b : List (BitVec 7 × BitVec 3) :=
  [(0b0100000#7, 0b111#3), (0b0100000#7, 0b110#3), (0b0100000#7, 0b100#3),
    (0b0010000#7, 0b001#3), (0b0010000#7, 0b101#3), (0b0110000#7, 0b001#3),
    (0b0110000#7, 0b101#3), (0b0000101#7, 0b100#3), (0b0000101#7, 0b101#3),
    (0b0000101#7, 0b110#3), (0b0000101#7, 0b111#3), (0b0000100#7, 0b100#3),
    (0b0100100#7, 0b100#3), (0b0000100#7, 0b111#3), (0b0100100#7, 0b001#3),
    (0b0010100#7, 0b001#3), (0b0110100#7, 0b001#3), (0b0100100#7, 0b101#3),
    (0b0110100#7, 0b101#3), (0b0010100#7, 0b101#3), (0b0000100#7, 0b001#3),
    (0b0000100#7, 0b101#3)]

/-- A cmix, cmov, fsl or fsr: `{instr[26], instr[13:12]} == {1'b1, 2'b01}`. -/
def opTernary (f7 : BitVec 7) (f3 : BitVec 3) : Bool :=
  f7.getLsbD 1 && f3.extractLsb 1 0 == 0b01#2

/-- Legality of the register-register operations. -/
def opIllegal (cfg : Config) (f7 : BitVec 7) (f3 : BitVec 3) : Bool :=
  if opTernary f7 f3 then !cfg.rv32b
  else if (f7, f3) ∈ opRv32i then false
  else if (f7, f3) ∈ opRv32b then !cfg.rv32b
  else if f7 = 0b0000001#7 then !cfg.rv32m
  else true

/-- The operation and the signedness of the multiplier and divider instructions. -/
def opMultdiv (f3 : BitVec 3) : MdOp × BitVec 2 :=
  match f3 with
  | 0b000#3 => (.mull, 0b00#2)
  | 0b001#3 => (.mulh, 0b11#2)
  | 0b010#3 => (.mulh, 0b01#2)
  | 0b011#3 => (.mulh, 0b00#2)
  | 0b100#3 => (.div, 0b11#2)
  | 0b101#3 => (.div, 0b00#2)
  | 0b110#3 => (.rem, 0b11#2)
  | _ => (.rem, 0b00#2)

/-- The non-CSR instructions of the system opcode, by `instr[31:20]`. -/
def systemOut (f12 : BitVec 12) : MainOut :=
  if f12 = 0x000#12 then { ecallInsn := true }
  else if f12 = 0x001#12 then { ebrkInsn := true }
  else if f12 = 0x302#12 then { mretInsn := true }
  else if f12 = 0x7b2#12 then { dretInsn := true }
  else if f12 = 0x105#12 then { wfiInsn := true }
  else { illegalInsn := true }

/-- The non-CSR system instructions write no register. -/
theorem systemOut_rfWe (f12 : BitVec 12) : (systemOut f12).rfWe = false := by
  rw [systemOut]
  split_ifs <;> rfl

/-- The non-CSR system instructions read no register. -/
theorem systemOut_rfRen (f12 : BitVec 12) :
    (systemOut f12).rfRenA = false ∧ (systemOut f12).rfRenB = false := by
  rw [systemOut]
  split_ifs <;> exact ⟨rfl, rfl⟩

/-- The non-CSR system instructions do not access memory. -/
theorem systemOut_dataReq (f12 : BitVec 12) : (systemOut f12).dataReq = false := by
  rw [systemOut]
  split_ifs <;> rfl

/-- The case distinction of the main decode, ahead of the squashing of illegal
instructions. -/
def mainDecodeRaw (cfg : Config) (first : Bool) (i : BitVec 32) : MainOut :=
  match Opcode.ofBits (opcodeBits i) with
  | some .jal =>
    -- the link register is written in the first cycle only with the branch target ALU
    { jumpInDec := true, rfWe := if first then cfg.branchTargetALU else true, jumpSet := first }
  | some .jalr =>
    { jumpInDec := true, rfWe := if first then cfg.branchTargetALU else true, jumpSet := first,
      illegalInsn := funct3 i != 0b000#3, rfRenA := true }
  | some .branch =>
    { branchInDec := true, illegalInsn := funct3 i == 0b010#3 || funct3 i == 0b011#3,
      rfRenA := true, rfRenB := true }
  | some .store =>
    { rfRenA := true, rfRenB := true, dataReq := true, dataWe := true,
      illegalInsn := i.getLsbD 14 || (i.extractLsb 13 12 : BitVec 2) == 0b11#2,
      dataType := match (i.extractLsb 13 12 : BitVec 2) with
        | 0b00#2 => 0b10#2 | 0b01#2 => 0b01#2 | _ => 0b00#2 }
  | some .load =>
    { rfRenA := true, dataReq := true, dataSignExtension := !i.getLsbD 14,
      illegalInsn := (i.extractLsb 13 12 : BitVec 2) == 0b11#2
        || ((i.extractLsb 13 12 : BitVec 2) == 0b10#2 && i.getLsbD 14),
      dataType := match (i.extractLsb 13 12 : BitVec 2) with
        | 0b00#2 => 0b10#2 | 0b01#2 => 0b01#2 | _ => 0b00#2 }
  | some .lui => { rfWe := true }
  | some .auipc => { rfWe := true }
  | some .opImm =>
    { rfRenA := true, rfWe := true,
      illegalInsn := opImmIllegal cfg (funct7 i) (regS2 i) (funct3 i) }
  | some .op =>
    { rfRenA := true, rfRenB := true, rfWe := true,
      illegalInsn := opIllegal cfg (funct7 i) (funct3 i),
      multdivOperator := if funct7 i = 0b0000001#7 then (opMultdiv (funct3 i)).1 else .mull,
      multdivSignedMode := if funct7 i = 0b0000001#7 then (opMultdiv (funct3 i)).2 else 0b00#2 }
  | some .miscMem =>
    match funct3 i with
    | 0b000#3 => {}
    -- fence.i is a jump to the next instruction
    | 0b001#3 => { jumpInDec := true, jumpSet := first, icacheInval := first }
    | _ => { illegalInsn := true }
  | some .system =>
    if funct3 i = 0b000#3 then
      let o := systemOut (funct12 i)
      { o with illegalInsn := o.illegalInsn || regS1 i != 0#5 || regD i != 0#5 }
    else
      { csrAccess := true, rfWdataSel := .csr, rfWe := true, rfRenA := !i.getLsbD 14,
        csrOp := match (i.extractLsb 13 12 : BitVec 2) with
          | 0b01#2 => .write | 0b10#2 => .set | 0b11#2 => .clear | _ => .read,
        illegalInsn := (i.extractLsb 13 12 : BitVec 2) == 0b00#2 }
  | none => { illegalInsn := true }

/-- Illegal instructions do not reach the register file, the LSU, the CSRs or the PC. -/
def MainOut.squash (o : MainOut) : MainOut :=
  if o.illegalInsn then
    { o with rfWe := false, dataReq := false, dataWe := false, jumpInDec := false,
             jumpSet := false, branchInDec := false, csrAccess := false }
  else o

/-- The main decode; an illegal compressed instruction is illegal. The register check of RV32E is
not in it: `checkedDecode` adds it. -/
def mainDecode (cfg : Config) (first illegalC : Bool) (i : BitVec 32) : MainOut :=
  let o := mainDecodeRaw cfg first i
  { o with illegalInsn := o.illegalInsn || illegalC }.squash

/-- `csr_op_o`: set and clear operations with a zero source only read. -/
def csrOperandCheck (o : MainOut) (i : BitVec 32) : CsrOp :=
  if (o.csrOp = .set ∨ o.csrOp = .clear) ∧ regS1 i = 0#5 then .read else o.csrOp

/-! ### The decode of the ALU controls -/

/-- The signals that the ALU decode assigns. -/
structure AluOut where
  aluOperator : AluOp := .sltu
  aluOpAMuxSel : OpASel := .imm
  aluOpBMuxSel : OpBSel := .imm
  immAMuxSel : ImmASel := .zero
  immBMuxSel : ImmBSel := .i
  btAMuxSel : OpASel := .currPc
  btBMuxSel : ImmBSel := .i
  useRs3 : Bool := false
  aluMulticycle : Bool := false
  multSel : Bool := false
  divSel : Bool := false
  deriving DecidableEq, Repr

/-- The operator, the need of several cycles and the use of a third source of the
register-immediate operations. -/
def opImmAlu (cfg : Config) (first : Bool) (f7 : BitVec 7) (rs2 : BitVec 5) (f3 : BitVec 3) :
    AluOp × Bool × Bool :=
  let f5 : BitVec 5 := f7.extractLsb 6 2
  let i26 : Bool := f7.getLsbD 1
  match f3 with
  | 0b000#3 => (.add, false, false)
  | 0b010#3 => (.slt, false, false)
  | 0b011#3 => (.sltu, false, false)
  | 0b100#3 => (.xor, false, false)
  | 0b110#3 => (.or, false, false)
  | 0b111#3 => (.and, false, false)
  | 0b001#3 =>
    if cfg.rv32b then
      (match f5 with
        | 0b00000#5 => .sll
        | 0b00100#5 => .slo
        | 0b01001#5 => .sbclr
        | 0b00101#5 => .sbset
        | 0b01101#5 => .sbinv
        | 0b00001#5 => if i26 then .sltu else .shfl
        | 0b01100#5 =>
          (match (f7.extractLsb 1 0 ++ rs2 : BitVec 7) with
            | 0#7 => .clz | 1#7 => .ctz | 2#7 => .pcnt | _ => .sltu)
        | _ => .sltu, false, false)
    else (.sll, false, false)
  | 0b101#3 =>
    if cfg.rv32b then
      if i26 then (.fsr, true, !first)
      else match f5 with
        | 0b00000#5 => (.srl, false, false)
        | 0b01000#5 => (.sra, false, false)
        | 0b00100#5 => (.sro, false, false)
        | 0b01001#5 => (.sbext, false, false)
        | 0b01100#5 => (.ror, true, false)
        | 0b01101#5 => (.grev, false, false)
        | 0b00101#5 => (.gorc, false, false)
        | 0b00001#5 => (.unshfl, false, false)
        | _ => (.sltu, false, false)
    else if f5 = 0b00000#5 then (.srl, false, false)
    else if f5 = 0b01000#5 then (.sra, false, false)
    else (.sltu, false, false)
  | _ => (.sltu, false, false)

/-- The operator of the RV32I register-register operations. -/
def opRv32iAlu (f7 : BitVec 7) (f3 : BitVec 3) : Option AluOp :=
  match f7, f3 with
  | 0b0000000#7, 0b000#3 => some .add
  | 0b0100000#7, 0b000#3 => some .sub
  | 0b0000000#7, 0b010#3 => some .slt
  | 0b0000000#7, 0b011#3 => some .sltu
  | 0b0000000#7, 0b100#3 => some .xor
  | 0b0000000#7, 0b110#3 => some .or
  | 0b0000000#7, 0b111#3 => some .and
  | 0b0000000#7, 0b001#3 => some .sll
  | 0b0000000#7, 0b101#3 => some .srl
  | 0b0100000#7, 0b101#3 => some .sra
  | _, _ => none

/-- The operator of the RV32B register-register operations with two sources. -/
def opRv32bAlu (f7 : BitVec 7) (f3 : BitVec 3) : Option AluOp :=
  match f7, f3 with
  | 0b0010000#7, 0b001#3 => some .slo
  | 0b0010000#7, 0b101#3 => some .sro
  | 0b0110000#7, 0b001#3 => some .rol
  | 0b0110000#7, 0b101#3 => some .ror
  | 0b0000101#7, 0b100#3 => some .min
  | 0b0000101#7, 0b101#3 => some .max
  | 0b0000101#7, 0b110#3 => some .minu
  | 0b0000101#7, 0b111#3 => some .maxu
  | 0b0000100#7, 0b100#3 => some .pack
  | 0b0100100#7, 0b100#3 => some .packu
  | 0b0000100#7, 0b111#3 => some .packh
  | 0b0100000#7, 0b100#3 => some .xnor
  | 0b0100000#7, 0b110#3 => some .orn
  | 0b0100000#7, 0b111#3 => some .andn
  | 0b0110100#7, 0b101#3 => some .grev
  | 0b0010100#7, 0b101#3 => some .gorc
  | 0b0000100#7, 0b001#3 => some .shfl
  | 0b0000100#7, 0b101#3 => some .unshfl
  | 0b0100100#7, 0b001#3 => some .sbclr
  | 0b0010100#7, 0b001#3 => some .sbset
  | 0b0110100#7, 0b001#3 => some .sbinv
  | 0b0100100#7, 0b101#3 => some .sbext
  | _, _ => none

/-- The ternary operations of RV32B, by `{instr_alu[26:25], instr_alu[14:12]}`. -/
def opTernaryAlu (b : BitVec 2) (f3 : BitVec 3) : Option AluOp :=
  match b, f3 with
  | 0b11#2, 0b001#3 => some .cmix
  | 0b11#2, 0b101#3 => some .cmov
  | 0b10#2, 0b001#3 => some .fsl
  | 0b10#2, 0b101#3 => some .fsr
  | _, _ => none

/-- The ALU controls of the register-register operations; both operands are registers. -/
def opAlu (cfg : Config) (first : Bool) (f7 : BitVec 7) (f3 : BitVec 3) : AluOut :=
  let o : AluOut := { aluOpAMuxSel := .regA, aluOpBMuxSel := .regB }
  if f7.getLsbD 1 then
    if cfg.rv32b then
      match opTernaryAlu (f7.extractLsb 1 0) f3 with
      | some a => { o with aluOperator := a, aluMulticycle := true, useRs3 := !first }
      | none => o
    else o
  else match opRv32iAlu f7 f3 with
    | some a => { o with aluOperator := a }
    | none =>
      match opRv32bAlu f7 f3 with
      | some a =>
        if cfg.rv32b then
          { o with aluOperator := a, aluMulticycle := a == .rol || a == .ror }
        else o
      | none =>
        if f7 = 0b0000001#7 then
          -- the multiplications are the operations with instr[14] clear
          { o with aluOperator := .add, multSel := cfg.rv32m && !f3.getLsbD 2,
                   divSel := cfg.rv32m && f3.getLsbD 2 }
        else o

/-- The comparison of a branch. -/
def branchAlu (f3 : BitVec 3) : AluOp :=
  match f3 with
  | 0b000#3 => .eq
  | 0b001#3 => .ne
  | 0b100#3 => .lt
  | 0b101#3 => .ge
  | 0b110#3 => .ltu
  | 0b111#3 => .geu
  | _ => .sltu

/-- The controls that add an immediate to the PC. -/
def pcPlus (sel : ImmBSel) : AluOut :=
  { aluOpAMuxSel := .currPc, aluOpBMuxSel := .imm, immBMuxSel := sel, aluOperator := .add }

/-- The decode of the ALU controls. -/
def aluDecode (cfg : Config) (first branchTaken : Bool) (i : BitVec 32) : AluOut :=
  match Opcode.ofBits (opcodeBits i) with
  | some .jal =>
    let o := pcPlus (if first && !cfg.branchTargetALU then .j else .incrPc)
    if cfg.branchTargetALU then { o with btAMuxSel := .currPc, btBMuxSel := .j } else o
  | some .jalr =>
    let o : AluOut :=
      if first && !cfg.branchTargetALU then
        { aluOpAMuxSel := .regA, aluOpBMuxSel := .imm, immBMuxSel := .i, aluOperator := .add }
      else pcPlus .incrPc
    if cfg.branchTargetALU then { o with btAMuxSel := .regA, btBMuxSel := .i } else o
  | some .branch =>
    let target : ImmBSel := if branchTaken then .b else .incrPc
    let o : AluOut :=
      if first then
        -- first evaluate the branch condition
        { aluOperator := branchAlu (funct3 i), aluOpAMuxSel := .regA, aluOpBMuxSel := .regB }
      else
        -- then calculate the jump target
        pcPlus target
    if cfg.branchTargetALU then { o with btAMuxSel := .currPc, btBMuxSel := target } else o
  | some .store =>
    let o : AluOut := { aluOpAMuxSel := .regA, aluOpBMuxSel := .regB, aluOperator := .add }
    if i.getLsbD 14 then o else { o with immBMuxSel := .s, aluOpBMuxSel := .imm }
  | some .load =>
    { aluOpAMuxSel := .regA, aluOperator := .add, aluOpBMuxSel := .imm, immBMuxSel := .i }
  | some .lui =>
    { aluOpAMuxSel := .imm, aluOpBMuxSel := .imm, immAMuxSel := .zero, immBMuxSel := .u,
      aluOperator := .add }
  | some .auipc => pcPlus .u
  | some .opImm =>
    let a := opImmAlu cfg first (funct7 i) (regS2 i) (funct3 i)
    { aluOpAMuxSel := .regA, aluOpBMuxSel := .imm, immBMuxSel := .i, aluOperator := a.1,
      aluMulticycle := a.2.1, useRs3 := a.2.2 }
  | some .op => opAlu cfg first (funct7 i) (funct3 i)
  | some .miscMem =>
    match funct3 i with
    | 0b000#3 => { aluOperator := .add, aluOpAMuxSel := .regA, aluOpBMuxSel := .imm }
    | 0b001#3 =>
      if cfg.branchTargetALU then { btAMuxSel := .currPc, btBMuxSel := .incrPc }
      else pcPlus .incrPc
    | _ => {}
  | some .system =>
    if funct3 i = 0b000#3 then { aluOpAMuxSel := .regA, aluOpBMuxSel := .imm }
    else
      { aluOpBMuxSel := .imm, immAMuxSel := .z, immBMuxSel := .i,
        aluOpAMuxSel := if i.getLsbD 14 then .imm else .regA }
  | none => {}

/-! ### Register addresses -/

/-- `rf_raddr_a_o` of the build without secure reads: rs3 in the second cycle of a
ternary instruction, else rs1. -/
def rfRaddrA (cfg : Config) (first branchTaken : Bool) (i : BitVec 32) : BitVec 5 :=
  if (aluDecode cfg first branchTaken i).useRs3 then regS3 i else regS1 i

/-- `rf_raddr_b_o` of the build without secure reads. -/
def rfRaddrB (i : BitVec 32) : BitVec 5 := regS2 i

/-- `rf_waddr_o`. -/
def rfWaddr (i : BitVec 32) : BitVec 5 := regD i

/-! ### System instructions -/

/-- What the decoder makes of a CSR instruction. -/
def csrOut (i : BitVec 32) : MainOut :=
  { csrAccess := true, rfWdataSel := .csr, rfWe := true, rfRenA := !i.getLsbD 14,
    csrOp := match (i.extractLsb 13 12 : BitVec 2) with
      | 0b01#2 => .write | 0b10#2 => .set | 0b11#2 => .clear | _ => .read }

/-- The words that access a CSR: the six forms of the system opcode. -/
theorem mainDecode_csrAccess_iff {cfg : Config} {first illegalC : Bool} {i : BitVec 32} :
    (mainDecode cfg first illegalC i).csrAccess = true ↔
      illegalC = false ∧ Opcode.ofBits (opcodeBits i) = some .system ∧ funct3 i ≠ 0b000#3 ∧
        (i.extractLsb 13 12 : BitVec 2) ≠ 0b00#2 := by
  constructor
  · intro h
    have hl : ((mainDecodeRaw cfg first i).illegalInsn || illegalC) = false := by
      cases hi : (mainDecodeRaw cfg first i).illegalInsn || illegalC with
      | false => rfl
      | true => simp [mainDecode, MainOut.squash, hi] at h
    have hraw : (mainDecodeRaw cfg first i).csrAccess = true := by
      simpa [mainDecode, MainOut.squash, hl] using h
    have hcsr : Opcode.ofBits (opcodeBits i) = some .system ∧ funct3 i ≠ 0b000#3 := by
      cases ho : Opcode.ofBits (opcodeBits i) with
      | none => simp [mainDecodeRaw, ho] at hraw
      | some o =>
          cases o
          case system =>
            refine ⟨rfl, fun hf => ?_⟩
            simp only [mainDecodeRaw, ho, hf, if_true, systemOut] at hraw
            split_ifs at hraw
          case miscMem =>
            simp only [mainDecodeRaw, ho] at hraw
            split at hraw <;> simp at hraw
          all_goals simp [mainDecodeRaw, ho] at hraw
    obtain ⟨ho, hf⟩ := hcsr
    rw [Bool.or_eq_false_iff] at hl
    refine ⟨hl.2, ho, hf, ?_⟩
    simpa [mainDecodeRaw, ho, hf] using hl.1
  · rintro ⟨rfl, ho, hf, hop⟩
    simp [mainDecode, MainOut.squash, mainDecodeRaw, ho, hf, hop]

/-- What accesses the CSRs is decoded as a CSR instruction. -/
theorem mainDecode_of_csrAccess {cfg : Config} {first illegalC : Bool} {i : BitVec 32}
    (h : (mainDecode cfg first illegalC i).csrAccess = true) :
    mainDecode cfg first illegalC i = csrOut i := by
  obtain ⟨rfl, ho, hf, hop⟩ := mainDecode_csrAccess_iff.mp h
  simp [mainDecode, MainOut.squash, mainDecodeRaw, ho, hf, hop, csrOut]

/-- A CSR instruction is legal and no other system instruction. -/
theorem mainDecode_csrAccess {cfg : Config} {first illegalC : Bool} {i : BitVec 32}
    (h : (mainDecode cfg first illegalC i).csrAccess = true) :
    (mainDecode cfg first illegalC i).illegalInsn = false ∧
      (mainDecode cfg first illegalC i).ecallInsn = false ∧
      (mainDecode cfg first illegalC i).ebrkInsn = false ∧
      (mainDecode cfg first illegalC i).mretInsn = false ∧
      (mainDecode cfg first illegalC i).dretInsn = false ∧
      (mainDecode cfg first illegalC i).wfiInsn = false := by
  rw [mainDecode_of_csrAccess h]
  exact ⟨rfl, rfl, rfl, rfl, rfl, rfl⟩

/-- It uses neither the multiplier nor a second cycle of the ALU. -/
theorem aluDecode_of_system {cfg : Config} {first branchTaken : Bool} {i : BitVec 32}
    (h : Opcode.ofBits (opcodeBits i) = some .system) :
    (aluDecode cfg first branchTaken i).aluMulticycle = false ∧
      (aluDecode cfg first branchTaken i).multSel = false ∧
      (aluDecode cfg first branchTaken i).divSel = false := by
  simp only [aluDecode, h]
  split_ifs <;> exact ⟨rfl, rfl, rfl⟩

/-- An ebreak is neither a branch nor a jump. -/
theorem mainDecode_ebrkInsn {cfg : Config} {first illegalC : Bool} {i : BitVec 32}
    (h : (mainDecode cfg first illegalC i).ebrkInsn = true) :
    (mainDecode cfg first illegalC i).branchInDec = false ∧
      (mainDecode cfg first illegalC i).jumpInDec = false := by
  have hsquash : (mainDecodeRaw cfg first i).ebrkInsn = true := by
    simp only [mainDecode, MainOut.squash] at h
    split_ifs at h <;> exact h
  have hraw : (mainDecodeRaw cfg first i).branchInDec = false ∧
      (mainDecodeRaw cfg first i).jumpInDec = false := by
    cases ho : Opcode.ofBits (opcodeBits i) with
    | none => simp [mainDecodeRaw, ho] at hsquash
    | some o =>
        cases o
        case system =>
          simp only [mainDecodeRaw, ho, systemOut]
          split_ifs <;> exact ⟨rfl, rfl⟩
        case miscMem =>
          simp only [mainDecodeRaw, ho] at hsquash
          split at hsquash <;> simp at hsquash
        all_goals simp [mainDecodeRaw, ho] at hsquash
  simp only [mainDecode, MainOut.squash]
  split_ifs
  · exact ⟨rfl, rfl⟩
  · exact hraw

/-- Whether an instruction is an ecall or an ebreak does not depend on its cycle. -/
theorem mainDecode_system (cfg : Config) (first first' illegalC : Bool) (i : BitVec 32) :
    (mainDecode cfg first illegalC i).ecallInsn = (mainDecode cfg first' illegalC i).ecallInsn ∧
      (mainDecode cfg first illegalC i).ebrkInsn
        = (mainDecode cfg first' illegalC i).ebrkInsn := by
  have hraw : (mainDecodeRaw cfg first i).ecallInsn = (mainDecodeRaw cfg first' i).ecallInsn ∧
      (mainDecodeRaw cfg first i).ebrkInsn = (mainDecodeRaw cfg first' i).ebrkInsn ∧
      (mainDecodeRaw cfg first i).illegalInsn = (mainDecodeRaw cfg first' i).illegalInsn := by
    simp only [mainDecodeRaw]
    split <;> (try split) <;> exact ⟨rfl, rfl, rfl⟩
  obtain ⟨hecall, hebrk, hill⟩ := hraw
  simp only [mainDecode, MainOut.squash, hill]
  split_ifs <;> exact ⟨hecall, hebrk⟩

end CocoIbex
