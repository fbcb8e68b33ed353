import Mathlib.Tactic.Simps.Basic
import CocoIbex.Instr

/-!
# The Compressed Decoder

`ibex_compressed_decoder`: the expansion of a fetched word into a 32-bit instruction, and, from
the same fetched word, the enables of the secure register file, of the shifter, of the adder, of
the multiplier and of the CSRs. The enables are decoded here a second time, from a word that is
not yet expanded; whether they agree with the main decoder is the subject of the gating modules.

The source is one `always_comb` with nested cases. Here each quadrant is a function of its own,
and each case changes the outputs of the one around it (`withReadA`, `withWrite`, `withShift`
and the others), so that what a case leaves alone is seen to be the default. A word that the
decoder rejects is forwarded as it is (`forward`), like every default of the source.

## Main results

* `quadrant_cases` and `compressedDecoder_c0` to `compressedDecoder_c3` — the four quadrants, by
  which all later case distinctions start;
* `rfWriteEnable_toNat` — the one-hot write enable as a number. The read enables are compared
  register by register in the modules that use them.
-/

namespace CocoIbex

/-- The signals that the decoder's `always_comb` block assigns. -/
structure CompressedOut where
  instr : BitVec 32
  illegalInstr : Bool
  readA : Bool
  readB : Bool
  readAddressA : BitVec 5
  readAddressB : BitVec 5
  writeReg : Bool
  writeAddress : BitVec 5
  mdEnable : Bool
  shiftEnable : Bool
  isBwOp : Bool
  csrEnable : Bool
  deriving DecidableEq, Repr

namespace CompressedOut

/-- The values assigned ahead of the case distinction, with the expansion `e`. -/
@[simps] def forward (e : BitVec 32) : CompressedOut where
  instr := e
  illegalInstr := false
  readA := false
  readB := false
  readAddressA := 0#5
  readAddressB := 0#5
  writeReg := false
  writeAddress := 0#5
  mdEnable := false
  shiftEnable := false
  isBwOp := false
  csrEnable := false

/-- `read_a = 1; read_address_a = r`. -/
@[simps] def withReadA (o : CompressedOut) (r : BitVec 5) : CompressedOut :=
  { o with readA := true, readAddressA := r }

/-- `read_b = 1; read_address_b = r`. -/
@[simps] def withReadB (o : CompressedOut) (r : BitVec 5) : CompressedOut :=
  { o with readB := true, readAddressB := r }

/-- `write_reg = 1; write_address = r`. -/
@[simps] def withWrite (o : CompressedOut) (r : BitVec 5) : CompressedOut :=
  { o with writeReg := true, writeAddress := r }

/-- `shift_enable = 1`. -/
@[simps] def withShift (o : CompressedOut) : CompressedOut := { o with shiftEnable := true }

/-- `is_bw_op = 1`. -/
@[simps] def withBwOp (o : CompressedOut) : CompressedOut := { o with isBwOp := true }

/-- `if (b) illegal_instr_o = 1`. -/
@[simps] def illegalIf (o : CompressedOut) (b : Bool) : CompressedOut :=
  { o with illegalInstr := o.illegalInstr || b }

end CompressedOut

open CompressedOut

/-! ### Fields of a compressed word -/

/-- The quadrant, `instr_i[1:0]`. -/
def quadrant (i : BitVec 32) : BitVec 2 := i.extractLsb 1 0

/-- `instr_i[15:13]`. -/
def funct3C (i : BitVec 32) : BitVec 3 := i.extractLsb 15 13

/-- The register `{2'b01, instr_i[4:2]}`. -/
def regLowC (i : BitVec 32) : BitVec 5 := 0b01#2 ++ i.extractLsb 4 2

/-- The register `{2'b01, instr_i[9:7]}`. -/
def regHighC (i : BitVec 32) : BitVec 5 := 0b01#2 ++ i.extractLsb 9 7

/-- `instr_i[6:2]`, the second source of a compressed word or the major opcode of a
32-bit one. -/
def field62 (i : BitVec 32) : BitVec 5 := i.extractLsb 6 2

/-- Bit `k` of the word as a vector, for concatenations. -/
def bit (i : BitVec 32) (k : ℕ) : BitVec 1 := BitVec.ofBool (i.getLsbD k)

/-- Bit 12 repeated, the sign extension of the immediates of quadrant C1. -/
def sign12 (i : BitVec 32) (n : ℕ) : BitVec n := if i.getLsbD 12 then BitVec.allOnes n else 0

/-! ### The four quadrants -/

/-- Quadrant C0. -/
def decodeC0 (i : BitVec 32) : CompressedOut :=
  match funct3C i with
  | 0b000#3 =>
    -- c.addi4spn -> addi rd', x2, imm
    (forward (encI (0#2 ++ i.extractLsb 10 7 ++ i.extractLsb 12 11 ++ bit i 5 ++ bit i 6 ++ 0#2)
      2#5 0#3 (regLowC i) .opImm)).illegalIf (i.extractLsb 12 5 == 0#8)
      |>.withReadA 2#5 |>.withWrite (regLowC i)
  | 0b010#3 =>
    -- c.lw -> lw rd', imm(rs1')
    forward (encI (0#5 ++ bit i 5 ++ i.extractLsb 12 10 ++ bit i 6 ++ 0#2)
      (regHighC i) 0b010#3 (regLowC i) .load)
      |>.withReadA (regHighC i) |>.withWrite (regLowC i)
  | 0b110#3 =>
    -- c.sw -> sw rs2', imm(rs1')
    forward (encR (0#5 ++ bit i 5 ++ bit i 12) (regLowC i) (regHighC i) 0b010#3
      (i.extractLsb 11 10 ++ bit i 6 ++ 0#2) .store)
      |>.withReadA (regHighC i) |>.withReadB (regLowC i)
  | _ => (forward i).illegalIf true

/-- The immediate of c.addi, c.li and c.andi, `{{6 {instr_i[12]}}, instr_i[12], instr_i[6:2]}`. -/
def immC1 (i : BitVec 32) : BitVec 12 := sign12 i 6 ++ bit i 12 ++ field62 i

/-- The register-register operations of quadrant C1, decoded by
`{instr_i[12], instr_i[6:5]}`. -/
def decodeC1Reg (i : BitVec 32) : CompressedOut :=
  let arith (f7 : BitVec 7) (f3 : BitVec 3) : CompressedOut :=
    forward (encR f7 (regLowC i) (regHighC i) f3 (regHighC i) .op)
      |>.withReadA (regHighC i) |>.withReadB (regLowC i) |>.withWrite (regHighC i)
  match (bit i 12 ++ i.extractLsb 6 5 : BitVec 3) with
  | 0b000#3 => arith 0b0100000#7 0b000#3        -- c.sub
  | 0b001#3 => (arith 0#7 0b100#3).withBwOp     -- c.xor
  | 0b010#3 => (arith 0#7 0b110#3).withBwOp     -- c.or
  | 0b011#3 => (arith 0#7 0b111#3).withBwOp     -- c.and
  | _ => (forward i).illegalIf true

/-- The operations of quadrant C1 with `instr_i[15:13] = 100`, decoded by
`instr_i[11:10]`. -/
def decodeC1Arith (i : BitVec 32) : CompressedOut :=
  let shift (f7 : BitVec 7) : CompressedOut :=
    (forward (encR f7 (field62 i) (regHighC i) 0b101#3 (regHighC i) .opImm)).illegalIf
      (i.getLsbD 12)
      |>.withReadA (regHighC i) |>.withWrite (regHighC i) |>.withShift
  match (i.extractLsb 11 10 : BitVec 2) with
  | 0b00#2 => shift 0b0000000#7                 -- c.srli
  | 0b01#2 => shift 0b0100000#7                 -- c.srai
  | 0b10#2 =>
    -- c.andi -> andi rd, rd, imm
    forward (encI (immC1 i) (regHighC i) 0b111#3 (regHighC i) .opImm)
      |>.withReadA (regHighC i) |>.withWrite (regHighC i) |>.withBwOp
  | _ => decodeC1Reg i

/-- The offset of c.jal and c.j in the immediate field of `jal`. -/
def immCJ (i : BitVec 32) : BitVec 20 :=
  bit i 12 ++ bit i 8 ++ i.extractLsb 10 9 ++ bit i 6 ++ bit i 7 ++ bit i 2 ++ bit i 11
    ++ i.extractLsb 5 3 ++ sign12 i 9

/-- The link register of c.jal and c.j, `{4'b0, ~instr_i[15]}`. -/
def linkC1 (i : BitVec 32) : BitVec 5 := 0#4 ++ BitVec.ofBool (!i.getLsbD 15)

/-- The operations of quadrant C1 with `instr_i[15:13] = 011`. -/
def decodeC1Lui (i : BitVec 32) : CompressedOut :=
  let immZero := (bit i 12 ++ field62 i : BitVec 6) == 0#6
  if regD i = 2#5 then
    -- c.addi16sp -> addi x2, x2, nzimm
    (forward (encI (sign12 i 3 ++ i.extractLsb 4 3 ++ bit i 5 ++ bit i 2 ++ bit i 6 ++ 0#4)
      2#5 0#3 2#5 .opImm)).withReadA 2#5 |>.withWrite 2#5 |>.illegalIf immZero
  else
    -- c.lui -> lui rd, imm
    (forward (encU (sign12 i 15 ++ field62 i) (regD i) .lui)).illegalIf immZero

/-- Quadrant C1. -/
def decodeC1 (i : BitVec 32) : CompressedOut :=
  match funct3C i with
  | 0b000#3 =>
    -- c.addi -> addi rd, rd, nzimm
    forward (encI (immC1 i) (regD i) 0#3 (regD i) .opImm)
      |>.withReadA (regD i) |>.withWrite (regD i)
  | 0b001#3 | 0b101#3 =>
    -- 001: c.jal -> jal x1, imm; 101: c.j -> jal x0, imm
    forward (encU (immCJ i) (linkC1 i) .jal)
  | 0b010#3 =>
    -- c.li -> addi rd, x0, nzimm
    forward (encI (immC1 i) 0#5 0#3 (regD i) .opImm)
      |>.withReadA 0#5 |>.withWrite (regD i)
  | 0b011#3 => decodeC1Lui i
  | 0b100#3 => decodeC1Arith i
  | _ =>
    -- 110: c.beqz -> beq rs1', x0, imm; 111: c.bnez -> bne rs1', x0, imm
    forward (encR (sign12 i 4 ++ i.extractLsb 6 5 ++ bit i 2) 0#5 (regHighC i)
      (0#2 ++ bit i 13) (i.extractLsb 11 10 ++ i.extractLsb 4 3 ++ bit i 12) .branch)
      |>.withReadA (regHighC i) |>.withReadB 0#5

/-- Bit 15 of a word with a known `instr_i[15:13]`. -/
theorem linkC1_eq {i : BitVec 32} {f : BitVec 3} (h : funct3C i = f) :
    linkC1 i = 0#4 ++ BitVec.ofBool (!f.getLsbD 2) := by
  rw [linkC1, ← h]
  simp [funct3C]

/-- The operations of quadrant C2 with `instr_i[15:13] = 100`. -/
def decodeC2Arith (i : BitVec 32) : CompressedOut :=
  if i.getLsbD 12 = false then
    if field62 i ≠ 0#5 then
      -- c.mv -> add rd, x0, rs2
      forward (encR 0#7 (field62 i) 0#5 0#3 (regD i) .op)
        |>.withReadA 0#5 |>.withReadB (field62 i) |>.withWrite (regD i)
    else
      -- c.jr -> jalr x0, rs1, 0
      (forward (encI 0#12 (regD i) 0#3 0#5 .jalr)).illegalIf (regD i == 0#5)
        |>.withReadA (regD i)
  else if field62 i ≠ 0#5 then
    -- c.add -> add rd, rd, rs2
    forward (encR 0#7 (field62 i) (regD i) 0#3 (regD i) .op)
      |>.withReadA (regD i) |>.withReadB (field62 i) |>.withWrite (regD i)
  else if regD i = 0#5 then
    -- c.ebreak -> ebreak
    forward 0x00100073#32
  else
    -- c.jalr -> jalr x1, rs1, 0
    forward (encI 0#12 (regD i) 0#3 1#5 .jalr) |>.withReadA (regD i) |>.withWrite 1#5

/-- Quadrant C2. -/
def decodeC2 (i : BitVec 32) : CompressedOut :=
  match funct3C i with
  | 0b000#3 =>
    -- c.slli -> slli rd, rd, shamt
    (forward (encR 0#7 (field62 i) (regD i) 0b001#3 (regD i) .opImm)).illegalIf (i.getLsbD 12)
      |>.withReadA (regD i) |>.withShift
  | 0b010#3 =>
    -- c.lwsp -> lw rd, imm(x2)
    (forward (encI (0#4 ++ i.extractLsb 3 2 ++ bit i 12 ++ i.extractLsb 6 4 ++ 0#2) 2#5 0b010#3
      (regD i) .load)).illegalIf (regD i == 0#5)
      |>.withReadA 2#5 |>.withWrite (regD i)
  | 0b100#3 => decodeC2Arith i
  | 0b110#3 =>
    -- c.swsp -> sw rs2, imm(x2)
    forward (encR (0#4 ++ i.extractLsb 8 7 ++ bit i 12) (field62 i) 2#5 0b010#3
      (i.extractLsb 11 9 ++ 0#2) .store)
      |>.withReadA 2#5 |>.withReadB (field62 i)
  | _ => (forward i).illegalIf true

/-- A word that is not compressed: the enables by its major opcode. -/
def decodeC3 (i : BitVec 32) : CompressedOut where
  instr := i
  illegalInstr := false
  -- LUI, AUIPC, JAL and the system instructions
  readA := !(field62 i == 0b01101#5 || field62 i == 0b00101#5 || field62 i == 0b11011#5
    || field62 i == 0b11100#5)
  -- branches, stores and register-register operations
  readB := field62 i == 0b11000#5 || field62 i == 0b01000#5 || field62 i == 0b01100#5
  readAddressA := regS1 i
  readAddressB := regS2 i
  writeReg := field62 i != 0b01000#5 && field62 i != 0b11000#5 && field62 i != 0b11100#5
  writeAddress :=
    if field62 i != 0b01000#5 && field62 i != 0b11000#5 && field62 i != 0b11100#5 then regD i
    else 0#5
  mdEnable := field62 i == 0b01100#5 && i.getLsbD 25
  shiftEnable :=
    (field62 i == 0b00100#5 && (funct3 i == 0b001#3 || funct3 i == 0b101#3))
    || (field62 i == 0b01100#5
      && (funct3 i == 0b001#3 || funct3 i == 0b010#3 || funct3 i == 0b011#3
        || funct3 i == 0b101#3))
  isBwOp :=
    (field62 i == 0b00100#5
      && (funct3 i == 0b100#3 || funct3 i == 0b110#3 || funct3 i == 0b111#3))
    || (field62 i == 0b01100#5
      && (funct3 i == 0b100#3 || funct3 i == 0b110#3 || funct3 i == 0b111#3)
      && !i.getLsbD 25)
  csrEnable := field62 i == 0b11100#5

/-- The decoder: the case distinction on the quadrant of the fetched word. -/
def compressedDecoder (i : BitVec 32) : CompressedOut :=
  match quadrant i with
  | 0b00#2 => decodeC0 i
  | 0b01#2 => decodeC1 i
  | 0b10#2 => decodeC2 i
  | _ => decodeC3 i

/-- The four quadrants. -/
theorem quadrant_cases (i : BitVec 32) :
    quadrant i = 0b00#2 ∨ quadrant i = 0b01#2 ∨ quadrant i = 0b10#2 ∨ quadrant i = 0b11#2 := by
  have h : ∀ q : BitVec 2, q = 0b00#2 ∨ q = 0b01#2 ∨ q = 0b10#2 ∨ q = 0b11#2 := by decide
  exact h _

/-- A word of quadrant C0 is decoded there. -/
theorem compressedDecoder_c0 {i : BitVec 32} (h : quadrant i = 0b00#2) :
    compressedDecoder i = decodeC0 i := by
  simp only [compressedDecoder, h]

/-- A word of quadrant C1 is decoded there. -/
theorem compressedDecoder_c1 {i : BitVec 32} (h : quadrant i = 0b01#2) :
    compressedDecoder i = decodeC1 i := by
  simp only [compressedDecoder, h]

/-- A word of quadrant C2 is decoded there. -/
theorem compressedDecoder_c2 {i : BitVec 32} (h : quadrant i = 0b10#2) :
    compressedDecoder i = decodeC2 i := by
  simp only [compressedDecoder, h]

/-- A word of full length is passed on. -/
theorem compressedDecoder_c3 {i : BitVec 32} (h : quadrant i = 0b11#2) :
    compressedDecoder i = decodeC3 i := by
  rw [compressedDecoder, h]
  rfl

/-- A word that is not compressed is its own expansion. -/
@[simp] theorem decodeC3_instr (i : BitVec 32) : (decodeC3 i).instr = i := rfl

/-- `is_compressed_o`. -/
def isCompressed (i : BitVec 32) : Bool := quadrant i != 0b11#2

namespace CompressedOut

/-- `rf_read_enable_a_o`, the read enables of port a. -/
def rfReadEnableA (o : CompressedOut) : BitVec 32 :=
  Bits.gen 32 fun k => if o.readAddressA = BitVec.ofNat 5 k then o.readA else false

/-- `rf_read_enable_b_o`, the read enables of port b. -/
def rfReadEnableB (o : CompressedOut) : BitVec 32 :=
  Bits.gen 32 fun k => if o.readAddressB = BitVec.ofNat 5 k then o.readB else false

/-- `rf_write_enable_o`, the write enables. -/
def rfWriteEnable (o : CompressedOut) : BitVec 32 :=
  Bits.gen 32 fun k => if o.writeAddress = BitVec.ofNat 5 k then o.writeReg else false

/-- `adder_enable_o`. -/
def adderEnable (o : CompressedOut) : Bool := !(o.shiftEnable || o.isBwOp)

/-- The write enable of one register. -/
theorem rfWriteEnable_toNat (o : CompressedOut) (r : BitVec 5) :
    o.rfWriteEnable.getLsbD r.toNat = (decide (o.writeAddress = r) && o.writeReg) := by
  have hr : r.toNat < 32 := r.isLt
  by_cases h : o.writeAddress = r
  · simp [rfWriteEnable, hr, h]
  · simp [rfWriteEnable, hr, h]

/-- The read enable of one register at port a. -/
theorem rfReadEnableA_toNat (o : CompressedOut) (r : BitVec 5) :
    o.rfReadEnableA.getLsbD r.toNat = (decide (o.readAddressA = r) && o.readA) := by
  have hr : r.toNat < 32 := r.isLt
  by_cases h : o.readAddressA = r
  · simp [rfReadEnableA, hr, h]
  · simp [rfReadEnableA, hr, h]

/-- The read enable of one register at port b. -/
theorem rfReadEnableB_toNat (o : CompressedOut) (r : BitVec 5) :
    o.rfReadEnableB.getLsbD r.toNat = (decide (o.readAddressB = r) && o.readB) := by
  have hr : r.toNat < 32 := r.isLt
  by_cases h : o.readAddressB = r
  · simp [rfReadEnableB, hr, h]
  · simp [rfReadEnableB, hr, h]

end CompressedOut

end CocoIbex
