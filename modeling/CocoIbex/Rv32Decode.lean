import CocoIbex.AluSpec
import CocoIbex.Datapath
import CocoIbex.Legality

/-!
# Decoding RV32I

What the decoders make of the instructions of RV32I: their immediates, the main decode and the
decode of the ALU controls, each as a function of the instruction instead of its word.

The functions `mainOf` and `aluOf` have one case for each instruction of the syntax, with the
outputs of the decoder in it. So a proof about an instruction never looks at its word again, and
what the two cycles of a jump or branch have in common is seen at once. A shift by an immediate
has its amount in the low bits of the immediate, with funct7 in the others.

## Main results

* `immIType_encI`, `immSType_encR`, `immBType_encR`, `immUType_encU` and `immJType_encU` — the
  immediates of the formats;
* `mainDecode_base` — the main decode is that of the instruction;
* `aluDecode_base` — and so is the decode of the ALU controls.
-/

namespace CocoIbex

open Rv32

/-! ### The immediates of a word -/

section

variable (rs1 rs2 rd : BitVec 5) (f3 : BitVec 3) (o : Opcode)

/-- The immediate of a word in the I format. -/
theorem immIType_encI (imm : BitVec 12) :
    immIType (encI imm rs1 f3 rd o) = imm.signExtend 32 := by
  have h31 : (encI imm rs1 f3 rd o).getLsbD 31 = imm.msb := by
    simp only [encI, BitVec.getLsbD_append, BitVec.msb_eq_getLsbD_last]
    rfl
  rw [immIType, h31, show (encI imm rs1 f3 rd o).extractLsb 31 20 = imm from funct12_encI ..]
  exact Bits.fill_append_msb 20 imm

/-- The low bits of the immediate of a shift. -/
theorem immIType_encR (f7 : BitVec 7) :
    (immIType (encR f7 rs2 rs1 f3 rd o)).setWidth 5 = rs2 := by
  refine BitVec.eq_of_getLsbD_eq fun i hi => ?_
  simp only [immIType, encR, BitVec.getLsbD_setWidth, BitVec.getLsbD_append,
    BitVec.getLsbD_extractLsb]
  interval_cases i <;> rfl

/-- The immediate of a store. -/
theorem immSType_encR (imm : BitVec 12) :
    immSType (encR (immHigh imm) rs2 rs1 f3 (immLow imm) o) = imm.signExtend 32 := by
  have h31 : (encR (immHigh imm) rs2 rs1 f3 (immLow imm) o).getLsbD 31 = imm.msb := by
    simp only [encR, immHigh, BitVec.getLsbD_append, BitVec.getLsbD_extractLsb',
      BitVec.msb_eq_getLsbD_last]
    rfl
  have himm : immHigh imm ++ immLow imm = imm := by
    refine BitVec.eq_of_getLsbD_eq fun i hi => ?_
    simp only [immHigh, immLow, BitVec.getLsbD_append, BitVec.getLsbD_extractLsb']
    interval_cases i <;> rfl
  have hnat := congrArg BitVec.toNat himm
  rw [immSType, h31, ← Bits.fill_append_msb 20 imm,
    show (encR _ rs2 rs1 f3 _ o).extractLsb 31 25 = immHigh imm from funct7_encR ..,
    show (encR _ rs2 rs1 f3 _ o).extractLsb 11 7 = immLow imm from regD_encR ..]
  refine BitVec.eq_of_toNat_eq ?_
  simp only [Bits.toNat_append_eq] at hnat ⊢
  omega

/-- The offset of a branch. -/
theorem immBType_encR (off : BitVec 12) :
    immBType (encR (offHigh off) rs2 rs1 f3 (offLow off) o) = (off ++ 0#1).signExtend 32 := by
  have h31 : (encR (offHigh off) rs2 rs1 f3 (offLow off) o).getLsbD 31 = (off ++ 0#1).msb := by
    simp only [encR, offHigh, BitVec.getLsbD_append, BitVec.getLsbD_extractLsb',
      BitVec.msb_eq_getLsbD_last]
    rfl
  have hoff : ∀ w, w = encR (offHigh off) rs2 rs1 f3 (offLow off) o →
      bit w 31 ++ bit w 7 ++ w.extractLsb 30 25 ++ w.extractLsb 11 8 ++ 0#1 = off ++ 0#1 := by
    rintro w rfl
    refine BitVec.eq_of_getLsbD_eq fun i hi => ?_
    simp only [bit, encR, offHigh, offLow, BitVec.getLsbD_append, BitVec.getLsbD_extractLsb,
      BitVec.getLsbD_extractLsb', BitVec.getLsbD_ofBool]
    interval_cases i <;> rfl
  have hnat := congrArg BitVec.toNat (hoff _ rfl)
  rw [immBType, h31, ← Bits.fill_append_msb 19 (off ++ 0#1)]
  refine BitVec.eq_of_toNat_eq ?_
  simp only [Bits.toNat_append_eq] at hnat ⊢
  omega

/-- The immediate of a word in the U format. -/
theorem immUType_encU (imm : BitVec 20) : immUType (encU imm rd o) = imm ++ 0#12 := by
  refine BitVec.eq_of_getLsbD_eq fun i hi => ?_
  simp only [immUType, encU, BitVec.getLsbD_append, BitVec.getLsbD_extractLsb]
  interval_cases i <;> rfl

/-- The offset of a jump. -/
theorem immJType_encU (off : BitVec 20) :
    immJType (encU (offJ off) rd o) = (off ++ 0#1).signExtend 32 := by
  have h31 : (encU (offJ off) rd o).getLsbD 31 = (off ++ 0#1).msb := by
    simp only [encU, offJ, BitVec.getLsbD_append, BitVec.getLsbD_extractLsb',
      BitVec.msb_eq_getLsbD_last]
    rfl
  have hoff : ∀ w, w = encU (offJ off) rd o →
      BitVec.ofBool (off ++ 0#1).msb ++ w.extractLsb 19 12 ++ bit w 20 ++ w.extractLsb 30 21
        ++ 0#1 = off ++ 0#1 := by
    rintro w rfl
    refine BitVec.eq_of_getLsbD_eq fun i hi => ?_
    simp only [bit, encU, offJ, BitVec.getLsbD_append, BitVec.getLsbD_extractLsb,
      BitVec.getLsbD_extractLsb', BitVec.getLsbD_ofBool, BitVec.msb_eq_getLsbD_last]
    interval_cases i <;> rfl
  have hnat := congrArg BitVec.toNat (hoff _ rfl)
  have hfill : ∀ b, (Bits.fill 12 b).toNat
      = (Bits.fill 11 b).toNat * 2 + (BitVec.ofBool b).toNat := by decide
  rw [immJType, h31, ← Bits.fill_append_msb 11 (off ++ 0#1)]
  refine BitVec.eq_of_toNat_eq ?_
  simp only [Bits.toNat_append_eq, hfill] at hnat ⊢
  rw [← hnat]
  ring

end

/-! ### The decoders on RV32I -/

/-- `data_type_o` of a size. -/
def dataTypeOf : Size → BitVec 2
  | .byte => 0b10#2
  | .half => 0b01#2
  | .word => 0b00#2

/-- The main decode of an instruction. -/
def mainOf (cfg : Config) (first : Bool) : Base → MainOut
  | .lui _ _ | .auipc _ _ => { rfWe := true }
  | .jal _ _ =>
    { jumpInDec := true, rfWe := if first then cfg.branchTargetALU else true, jumpSet := first }
  | .jalr _ _ _ =>
    { jumpInDec := true, rfWe := if first then cfg.branchTargetALU else true, jumpSet := first,
      rfRenA := true }
  | .branch _ _ _ _ => { branchInDec := true, rfRenA := true, rfRenB := true }
  | .load kind _ _ _ =>
    { rfRenA := true, dataReq := true, dataSignExtension := kind.isSigned,
      dataType := dataTypeOf kind.size }
  | .store size _ _ _ =>
    { rfRenA := true, rfRenB := true, dataReq := true, dataWe := true,
      dataType := dataTypeOf size }
  | .opImm _ _ _ _ | .shiftImm _ _ _ _ => { rfRenA := true, rfWe := true }
  | .op _ _ _ _ => { rfRenA := true, rfRenB := true, rfWe := true }
  | .fence _ _ _ => {}
  | .ecall => { ecallInsn := true }
  | .ebreak => { ebrkInsn := true }

/-- The main decode is that of the instruction. -/
theorem mainDecode_base (cfg : Config) (first : Bool) (i : Base) :
    mainDecode cfg first false (baseWord i) = mainOf cfg first i := by
  cases i with
  | branch cond off rs2 rs1 =>
      have hc := (exists_cond cond.funct3).mp ⟨cond, rfl⟩
      simp [mainDecode, mainDecodeRaw, MainOut.squash, mainOf, baseWord, hc]
  | load kind imm rs1 rd =>
      simp only [mainDecode, mainDecodeRaw, getLsbD_14, extractLsb_13_12, baseWord,
        opcodeBits_encI, funct3_encI, Opcode.ofBits_bits]
      rcases kind with (_ | _ | _) | _ | _ <;> rfl
  | store size imm rs2 rs1 =>
      simp only [mainDecode, mainDecodeRaw, getLsbD_14, extractLsb_13_12, baseWord,
        opcodeBits_encR, funct3_encR, Opcode.ofBits_bits]
      cases size <;> rfl
  | opImm o imm rs1 rd =>
      cases o <;>
        simp [mainDecode, mainDecodeRaw, MainOut.squash, mainOf, baseWord, ImmOp.funct3,
          opImmIllegal]
  | shiftImm o shamt rs1 rd =>
      cases o <;>
        simp [mainDecode, mainDecodeRaw, MainOut.squash, mainOf, baseWord, Shift.funct3,
          Shift.funct7, opImmIllegal]
  | op o rs2 rs1 rd =>
      have hl : opIllegal cfg o.funct7 o.funct3 = false := by
        have ht : ∀ o : RegOp, opTernary o.funct7 o.funct3 = false := by decide
        rw [opIllegal, ht, if_pos ((mem_opRv32i_iff _ _).mpr ⟨o, rfl, rfl⟩)]
        rfl
      have h7 : ∀ o : RegOp, o.funct7 ≠ 0b0000001#7 := by decide
      simp [mainDecode, mainDecodeRaw, MainOut.squash, mainOf, baseWord, hl, h7 o]
  | _ => simp [mainDecode, mainDecodeRaw, MainOut.squash, mainOf, baseWord, systemOut]

/-- The ALU controls of an instruction, when branches are taken. -/
def aluOf (cfg : Config) (first : Bool) : Base → AluOut
  | .lui _ _ =>
    { aluOpAMuxSel := .imm, aluOpBMuxSel := .imm, immAMuxSel := .zero, immBMuxSel := .u,
      aluOperator := .add }
  | .auipc _ _ => pcPlus .u
  | .jal _ _ =>
    if cfg.branchTargetALU then { pcPlus .incrPc with btAMuxSel := .currPc, btBMuxSel := .j }
    else pcPlus (if first then .j else .incrPc)
  | .jalr _ _ _ =>
    if cfg.branchTargetALU then { pcPlus .incrPc with btAMuxSel := .regA, btBMuxSel := .i }
    else if first then
      { aluOpAMuxSel := .regA, aluOpBMuxSel := .imm, immBMuxSel := .i, aluOperator := .add }
    else pcPlus .incrPc
  | .branch cond _ _ _ =>
    let o : AluOut :=
      if first then
        { aluOperator := Alu.condOf cond, aluOpAMuxSel := .regA, aluOpBMuxSel := .regB }
      else pcPlus .b
    if cfg.branchTargetALU then { o with btAMuxSel := .currPc, btBMuxSel := .b } else o
  | .load _ _ _ _ =>
    { aluOpAMuxSel := .regA, aluOperator := .add, aluOpBMuxSel := .imm, immBMuxSel := .i }
  | .store _ _ _ _ =>
    { aluOpAMuxSel := .regA, aluOperator := .add, aluOpBMuxSel := .imm, immBMuxSel := .s }
  | .opImm o _ _ _ =>
    { aluOpAMuxSel := .regA, aluOpBMuxSel := .imm, immBMuxSel := .i, aluOperator := Alu.opOf o }
  | .shiftImm o _ _ _ =>
    { aluOpAMuxSel := .regA, aluOpBMuxSel := .imm, immBMuxSel := .i,
      aluOperator := Alu.shiftOf o }
  | .op o _ _ _ => { aluOpAMuxSel := .regA, aluOpBMuxSel := .regB, aluOperator := Alu.regOpOf o }
  | .fence _ _ _ => { aluOpAMuxSel := .regA, aluOpBMuxSel := .imm, aluOperator := .add }
  | .ecall | .ebreak => { aluOpAMuxSel := .regA, aluOpBMuxSel := .imm }

/-- The decode of the ALU controls is that of the instruction. -/
theorem aluDecode_base (cfg : Config) (first : Bool) (i : Base) :
    aluDecode cfg first true (baseWord i) = aluOf cfg first i := by
  cases i with
  | jal off rd =>
      cases first <;> cases h : cfg.branchTargetALU <;> simp [aluDecode, aluOf, baseWord, h]
  | jalr imm rs1 rd =>
      cases first <;> cases h : cfg.branchTargetALU <;> simp [aluDecode, aluOf, baseWord, h]
  | branch cond off rs2 rs1 =>
      have hc : branchAlu cond.funct3 = Alu.condOf cond := by cases cond <;> rfl
      simp [aluDecode, aluOf, baseWord, hc]
  | store size imm rs2 rs1 =>
      simp only [aluDecode, getLsbD_14, baseWord, opcodeBits_encR, funct3_encR,
        Opcode.ofBits_bits]
      cases size <;> rfl
  | opImm o imm rs1 rd =>
      have ho : ∀ f7 rs2, opImmAlu cfg first f7 rs2 o.funct3 = (Alu.opOf o, false, false) := by
        intro f7 rs2
        cases o <;> rfl
      simp [aluDecode, aluOf, baseWord, ho]
  | shiftImm o shamt rs1 rd =>
      have ho : opImmAlu cfg first o.funct7 shamt o.funct3 = (Alu.shiftOf o, false, false) := by
        cases o <;> cases h : cfg.rv32b <;> simp [opImmAlu, Shift.funct3, Shift.funct7, h] <;> rfl
      simp [aluDecode, aluOf, baseWord, ho]
  | op o rs2 rs1 rd =>
      have ho : opRv32iAlu o.funct7 o.funct3 = some (Alu.regOpOf o) := by
        revert o
        decide
      have h1 : ∀ o : RegOp, o.funct7.getLsbD 1 = false := by decide
      simp only [aluDecode, aluOf, baseWord, opcodeBits_encR, funct7_encR, funct3_encR,
        Opcode.ofBits_bits, opAlu, h1, ho, Bool.false_eq_true, if_false]
  | _ => simp [aluDecode, aluOf, baseWord]

end CocoIbex
