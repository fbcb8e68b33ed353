import CocoIbex.AluTwoCycle
import CocoIbex.Cycle
import CocoIbex.Execution

/-!
# The Two-Cycle Instructions

The instructions of RV32B that take two cycles in ID: what the decoders make of them, what the
two cycles leave in the intermediate value register and write to the register file, against the
reference functions of the instructions (`executes_long`).

Besides the ternary instructions these are the rotations, which have two sources or an
immediate. In the second cycle of a ternary instruction port a shows the third source instead of
the first, so the operand of the ALU changes between the cycles, and the first cycle has to
leave behind all that is needed of the first source.

The outputs of the two cycles come from the cycle of any instruction (`Cycle`), and the results
of the ALU from `AluTwoCycle`.

## Main results

* `executes_long` — for every such instruction and all registers, the two cycles write what the
  reference function gives, once, and leave ID then.
-/

namespace CocoIbex

/-! ### Decoding -/

/-- The word of an instruction as the decoders see it. -/
def longWord : Rvb.Long → BitVec 32
  | .rol rs2 rs1 rd => encR 0b0110000#7 rs2 rs1 0b001#3 rd .op
  | .ror rs2 rs1 rd => encR 0b0110000#7 rs2 rs1 0b101#3 rd .op
  | .rori imm rs1 rd => encI (0b011000#6 ++ imm) rs1 0b101#3 rd .opImm
  | .fsl rs3 rs2 rs1 rd => encR (rs3 ++ 0b10#2) rs2 rs1 0b001#3 rd .op
  | .fsr rs3 rs2 rs1 rd => encR (rs3 ++ 0b10#2) rs2 rs1 0b101#3 rd .op
  | .fsri rs3 imm rs1 rd => encI (rs3 ++ 1#1 ++ imm) rs1 0b101#3 rd .opImm
  | .cmix rs3 rs2 rs1 rd => encR (rs3 ++ 0b11#2) rs2 rs1 0b001#3 rd .op
  | .cmov rs3 rs2 rs1 rd => encR (rs3 ++ 0b11#2) rs2 rs1 0b101#3 rd .op

/-- The word of a two-cycle instruction by its fields. -/
theorem encode_long (i : Rvb.Long) : i.encode = longWord i := by cases i <;> rfl

/-- The operator of an instruction. -/
def longOp : Rvb.Long → AluOp
  | .rol _ _ _ => .rol
  | .ror _ _ _ | .rori _ _ _ => .ror
  | .fsl _ _ _ _ => .fsl
  | .fsr _ _ _ _ | .fsri _ _ _ _ => .fsr
  | .cmix _ _ _ _ => .cmix
  | .cmov _ _ _ _ => .cmov

/-- The second operand is an immediate. -/
def longImm : Rvb.Long → Bool
  | .rori _ _ _ | .fsri _ _ _ _ => true
  | _ => false

/-- There is a third source. -/
def longRs3 : Rvb.Long → Bool
  | .rol _ _ _ | .ror _ _ _ | .rori _ _ _ => false
  | _ => true

/-- The main decode of an instruction. -/
def longMain (i : Rvb.Long) : MainOut := { rfRenA := true, rfRenB := !longImm i, rfWe := true }

/-- The ALU controls of an instruction. -/
def longAlu (first : Bool) (i : Rvb.Long) : AluOut where
  aluOpAMuxSel := .regA
  aluOpBMuxSel := if longImm i then .imm else .regB
  aluOperator := longOp i
  aluMulticycle := true
  useRs3 := longRs3 i && !first

section

variable (rs3 : BitVec 5) (imm : BitVec 6)

/-- The fields of a ternary word. -/
theorem funct7_ternary : ∀ b ∈ [0b10#2, 0b11#2],
    (rs3 ++ b).getLsbD 1 = true ∧ (rs3 ++ b).extractLsb 1 0 = b ∧
      (rs3 ++ b).extractLsb 6 2 = rs3 := by
  revert rs3
  decide

/-- The fields of `fsri`. -/
theorem funct7_fsri : ((rs3 ++ 1#1 ++ imm).extractLsb 11 5).getLsbD 1 = true
    ∧ ((rs3 ++ 1#1 ++ imm).extractLsb 11 5).extractLsb 6 2 = rs3 := by
  constructor
  · rw [BitVec.getLsbD_extractLsb, BitVec.getLsbD_append, BitVec.getLsbD_append]
    rfl
  · refine BitVec.eq_of_getLsbD_eq fun i hi => ?_
    simp only [BitVec.getLsbD_extractLsb, BitVec.getLsbD_append]
    interval_cases i <;> rfl

/-- The fields of `rori`. -/
theorem funct7_rori : ((0b011000#6 ++ imm).extractLsb 11 5).getLsbD 1 = false
    ∧ ((0b011000#6 ++ imm).extractLsb 11 5).extractLsb 6 2 = 0b01100#5 := by
  revert imm
  decide

end

section

variable {cfg : Config} (hb : cfg.rv32b = true) (first : Bool)

include hb

/-- How the main decoder sees a two-cycle instruction. -/
theorem mainDecode_long (i : Rvb.Long) : mainDecode cfg first false i.encode = longMain i := by
  rw [encode_long]
  cases i with
  | rol | ror =>
      simp [longWord, longMain, longImm, mainDecode, mainDecodeRaw, MainOut.squash, opIllegal,
        opTernary, opRv32i, opRv32b, hb]
  | rori imm rs1 rd =>
      obtain ⟨h1, h5⟩ := funct7_rori imm
      have hl : ∀ rs2, opImmIllegal cfg ((0b011000#6 ++ imm).extractLsb 11 5) rs2 0b101#3
          = false := by
        intro rs2
        simp only [opImmIllegal, h1, h5, hb]
        decide
      simp [longWord, longMain, longImm, mainDecode, mainDecodeRaw, MainOut.squash, hl]
  | fsri rs3 imm rs1 rd =>
      obtain ⟨h1, -⟩ := funct7_fsri rs3 imm
      have hl : ∀ rs2, opImmIllegal cfg ((rs3 ++ 1#1 ++ imm).extractLsb 11 5) rs2 0b101#3
          = false := by
        intro rs2
        simp only [opImmIllegal, h1, hb, if_true, Bool.not_true]
      simp [longWord, longMain, longImm, mainDecode, mainDecodeRaw, MainOut.squash, hl]
  | fsl rs3 rs2 rs1 rd | fsr rs3 rs2 rs1 rd =>
      obtain ⟨h1, -⟩ := funct7_ternary rs3 0b10#2 (by decide)
      have h7 : rs3 ++ 0b10#2 ≠ 0b0000001#7 := fun he => by simp [he] at h1
      simp [longWord, longMain, longImm, mainDecode, mainDecodeRaw, MainOut.squash, opIllegal,
        opTernary, hb, h1, h7]
  | cmix rs3 rs2 rs1 rd | cmov rs3 rs2 rs1 rd =>
      obtain ⟨h1, -⟩ := funct7_ternary rs3 0b11#2 (by decide)
      have h7 : rs3 ++ 0b11#2 ≠ 0b0000001#7 := fun he => by simp [he] at h1
      simp [longWord, longMain, longImm, mainDecode, mainDecodeRaw, MainOut.squash, opIllegal,
        opTernary, hb, h1, h7]

/-- How the ALU decoder sees it. -/
theorem aluDecode_long (branchTaken : Bool) (i : Rvb.Long) :
    aluDecode cfg first branchTaken i.encode = longAlu first i := by
  rw [encode_long]
  cases i with
  | rol | ror =>
      simp [longWord, longAlu, longImm, longOp, longRs3, aluDecode, opAlu, opRv32iAlu, opRv32bAlu,
        hb]
  | rori imm rs1 rd =>
      obtain ⟨h1, h5⟩ := funct7_rori imm
      have ho : ∀ rs2, opImmAlu cfg first ((0b011000#6 ++ imm).extractLsb 11 5) rs2 0b101#3
          = (.ror, true, false) := by
        intro rs2
        simp only [opImmAlu, h1, h5, hb, if_true, Bool.false_eq_true, if_false]
      simp [longWord, longAlu, longImm, longOp, longRs3, aluDecode, ho]
  | fsri rs3 imm rs1 rd =>
      obtain ⟨h1, -⟩ := funct7_fsri rs3 imm
      have ho : ∀ rs2, opImmAlu cfg first ((rs3 ++ 1#1 ++ imm).extractLsb 11 5) rs2 0b101#3
          = (.fsr, true, !first) := by
        intro rs2
        simp only [opImmAlu, h1, hb, if_true]
      simp [longWord, longAlu, longImm, longOp, longRs3, aluDecode, ho]
  | fsl rs3 rs2 rs1 rd | fsr rs3 rs2 rs1 rd =>
      obtain ⟨h1, h0, -⟩ := funct7_ternary rs3 0b10#2 (by decide)
      simp [longWord, longAlu, longImm, longOp, longRs3, aluDecode, opAlu, opTernaryAlu, hb, h1, h0]
  | cmix rs3 rs2 rs1 rd | cmov rs3 rs2 rs1 rd =>
      obtain ⟨h1, h0, -⟩ := funct7_ternary rs3 0b11#2 (by decide)
      simp [longWord, longAlu, longImm, longOp, longRs3, aluDecode, opAlu, opTernaryAlu, hb, h1, h0]

end

/-! ### Operands -/

/-- The third source is in the upper bits of the funct7. -/
theorem regS3_eq (w : BitVec 32) : regS3 w = (funct7 w).extractLsb 6 2 := by
  refine BitVec.eq_of_getLsbD_eq fun i hi => ?_
  simp only [regS3, funct7, BitVec.getLsbD_extractLsb]
  interval_cases i <;> rfl

/-- The immediate of a shift by six bits. -/
theorem shamt6 (high imm : BitVec 6) : ((high ++ imm).signExtend 32).toNat % 64 = imm.toNat := by
  have hlow : ((high ++ imm).signExtend 32).setWidth 6 = imm := by
    refine BitVec.eq_of_getLsbD_eq fun i hi => ?_
    rw [BitVec.getLsbD_setWidth, BitVec.getLsbD_signExtend, BitVec.getLsbD_append,
      decide_eq_true hi,
      if_pos (by omega), if_pos hi, decide_eq_true (show i < 32 by omega), Bool.true_and,
      Bool.true_and]
  rw [← congrArg BitVec.toNat hlow, BitVec.toNat_setWidth]

/-- A rotation looks at five bits of its amount only. -/
theorem ror_congr {a b b' : BitVec 32} (h : b.toNat % 64 = b'.toNat % 64) :
    Rvb.ror a b = Rvb.ror a b' := by
  have hs : Rvb.shamt b = Rvb.shamt b' := by
    simp only [Rvb.shamt]
    omega
  rw [Rvb.ror, Rvb.ror, hs]

/-- A funnel shift looks at six bits of its amount only. -/
theorem fsr_congr {a b b' c : BitVec 32} (h : b.toNat % 64 = b'.toNat % 64) :
    Rvb.fsr a b c = Rvb.fsr a b' c := by
  rw [Rvb.fsr, Rvb.fsr, h]

/-! ### Execution -/

/-- An instruction in ID. -/
def longInstr (i : Rvb.Long) (compressed : Bool) (pc : BitVec 32) (reg : BitVec 5 → BitVec 32) :
    IdInstr where
  instr := i.encode
  instrIsCompressed := compressed
  pcId := pc
  reg := reg

/-- The first operand in the cycles of an instruction. -/
def longA (reg : BitVec 5 → BitVec 32) (first : Bool) (i : Rvb.Long) : BitVec 32 :=
  reg (if longRs3 i && !first then regS3 (longWord i) else regS1 (longWord i))

/-- The second operand. -/
def longB (reg : BitVec 5 → BitVec 32) (i : Rvb.Long) : BitVec 32 :=
  if longImm i then immIType (longWord i) else reg (regS2 (longWord i))

/-- The two cycles of the ALU give what the instruction writes. -/
theorem write_long (i : Rvb.Long) (reg : BitVec 5 → BitVec 32) {x y : AluIn}
    (h : Alu.TwoCycles x y) (ho : x.operator = longOp i) (hx : x.operandA = longA reg true i)
    (hy : y.operandA = longA reg false i) (hB : x.operandB = longB reg i) :
    (regD (longWord i), Alu.result true y) = i.write reg := by
  cases i with
  | rol rs2 rs1 rd =>
      rw [Alu.result_rol h ho (hy.trans hx.symm), hx, hB]
      simp [longA, longB, longImm, longRs3, longWord, Rvb.Long.write]
  | ror rs2 rs1 rd =>
      rw [Alu.result_ror h ho (hy.trans hx.symm), hx, hB]
      simp [longA, longB, longImm, longRs3, longWord, Rvb.Long.write]
  | rori imm rs1 rd =>
      have himm : ((0b011000#6 ++ imm).signExtend 32).toNat % 64
          = (imm.setWidth 32).toNat % 64 := by
        rw [shamt6, BitVec.toNat_setWidth]
        omega
      rw [Alu.result_ror h ho (hy.trans hx.symm), hx, hB]
      simp [longA, longB, longImm, longRs3, longWord, Rvb.Long.write, immIType_encI, ror_congr himm]
  | fsl rs3 rs2 rs1 rd =>
      have h3 := (funct7_ternary rs3 0b10#2 (by decide)).2.2
      rw [Alu.result_fsl h ho, hx, hy, hB]
      simp [longA, longB, longImm, longRs3, longWord, Rvb.Long.write, regS3_eq, h3]
  | fsr rs3 rs2 rs1 rd =>
      have h3 := (funct7_ternary rs3 0b10#2 (by decide)).2.2
      rw [Alu.result_fsr h ho, hx, hy, hB]
      simp [longA, longB, longImm, longRs3, longWord, Rvb.Long.write, regS3_eq, h3]
  | fsri rs3 imm rs1 rd =>
      have h3 := (funct7_fsri rs3 imm).2
      have himm : ((rs3 ++ 1#1 ++ imm).signExtend 32).toNat % 64
          = (imm.setWidth 32).toNat % 64 := by
        rw [shamt6, BitVec.toNat_setWidth]
        omega
      rw [Alu.result_fsr h ho, hx, hy, hB]
      simp [longA, longB, longImm, longRs3, longWord, Rvb.Long.write, immIType_encI, regS3_eq, h3,
        fsr_congr himm]
  | cmix rs3 rs2 rs1 rd =>
      have h3 := (funct7_ternary rs3 0b11#2 (by decide)).2.2
      rw [Alu.result_cmix h ho, hx, hy, hB]
      simp [longA, longB, longImm, longRs3, longWord, Rvb.Long.write, regS3_eq, h3]
  | cmov rs3 rs2 rs1 rd =>
      have h3 := (funct7_ternary rs3 0b11#2 (by decide)).2.2
      rw [Alu.result_cmov h ho, hx, hy, hB]
      simp [longA, longB, longImm, longRs3, longWord, Rvb.Long.write, regS3_eq, h3]

namespace Datapath

section

variable {cfg : Config} (hb : cfg.rv32b = true) {m : Multiplier} (i : Rvb.Long) (compressed : Bool)
  (pc : BitVec 32) (reg : BitVec 5 → BitVec 32) (s : Datapath m) {x : DatapathIn}

include hb

/-- The decode of an instruction in a cycle. -/
theorem decodes_long : Decodes cfg (longInstr i compressed pc reg) s x (longMain i)
    (longAlu (s.idFsm == .firstCycle) i) where
  main := mainDecode_long hb _ i
  alu := aluDecode_long hb _ _ i
  multSel := rfl
  divSel := rfl
  csrAccess := rfl

/-- The operands of the ALU in a cycle. -/
theorem operands_long (hincr : x.lsuAddrIncrReq = false) :
    (aluSees cfg (longInstr i compressed pc reg) s x).operandA
        = longA reg (s.idFsm == .firstCycle) i
      ∧ (aluSees cfg (longInstr i compressed pc reg) s x).operandB = longB reg i := by
  have hd := decodes_long hb i compressed pc reg s (x := x)
  have hrs : rfRaddrA cfg (s.idFsm == .firstCycle) (branchTaken s x) (longWord i)
      = if longRs3 i && !(s.idFsm == .firstCycle) then regS3 (longWord i)
        else regS1 (longWord i) := by
    rw [rfRaddrA, ← encode_long, aluDecode_long hb]
    rfl
  rw [hd.operandA, hd.operandB]
  simp only [operands, longInstr, encode_long, OperandIn.aluOperandA, OperandIn.aluOperandB,
    OperandIn.aluOpAMuxSel, OperandIn.aluOpBMuxSel, OperandIn.immB, OperandIn.immBMuxSel, hincr,
    longAlu, hrs, rfRaddrB, longA, longB, Bool.false_eq_true, if_false]
  cases longImm i <;> simp

/-- The two cycles of an instruction: the first leaves a half of the result in the intermediate
value register, the second writes the result. -/
theorem twoCycles_long {y : DatapathIn} (hfirst : s.idFsm = .firstCycle)
    (hx : x.lsuAddrIncrReq = false) (hy : y.lsuAddrIncrReq = false)
    (hmulti : (next cfg (longInstr i compressed pc reg) s x).idFsm = .multiCycle) :
    Alu.TwoCycles (aluSees cfg (longInstr i compressed pc reg) s x)
      (aluSees cfg (longInstr i compressed pc reg)
        (next cfg (longInstr i compressed pc reg) s x) y) := by
  have hd := decodes_long hb i compressed pc reg s (x := x)
  have hd' := decodes_long hb i compressed pc reg (next cfg (longInstr i compressed pc reg) s x)
    (x := y)
  have hwe : Alu.imdValWe cfg.rv32b (aluSees cfg (longInstr i compressed pc reg) s x) = true := by
    rw [Alu.imdValWe, hd.operator, Decodes.first, hfirst, hb]
    cases i <;> rfl
  refine
    { plain₁ := hd.plain
      plain₂ := hd'.plain
      first := by rw [Decodes.first, hfirst]; rfl
      second := by rw [Decodes.first, hmulti]; rfl
      operator := by rw [hd.operator, hd'.operator]; rfl
      operandB := by
        rw [(operands_long hb i compressed pc reg _ hx).2,
          (operands_long hb i compressed pc reg _ hy).2]
      imdValQ := ?_ }
  change (next cfg (longInstr i compressed pc reg) s x).ex.imdValQ.extractLsb' 0 32 = _
  rw [hd.imdValQ_next, hwe, if_pos rfl, hb]
  refine BitVec.eq_of_getLsbD_eq fun k hk => ?_
  rw [BitVec.getLsbD_extractLsb', BitVec.getLsbD_setWidth]
  simp [hk, show k < 34 by omega]

end

section

variable (cfg : Config) {m : Multiplier} (s : Datapath m) (ins : ℕ → DatapathIn)

/-- Every two-cycle instruction writes the value of its reference function, for all registers and
immediates: it leaves ID in its second cycle, in which it does nothing but write its register. -/
theorem executes_long (hb : cfg.rv32b = true) (i : Rvb.Long) (compressed : Bool) (pc : BitVec 32)
    (reg : BitVec 5 → BitVec 32) (hs : Starts s)
    (hlsu : ∀ k, (ins k).lsuBusy = false ∧ (ins k).lsuAddrIncrReq = false) :
    LeavesAt cfg (longInstr i compressed pc reg) s ins 1
      ∧ Performs (outs cfg (longInstr i compressed pc reg) s ins 2) pc (bytes compressed)
        (some { write := some (i.write reg), nextPc := pc + bytes compressed }) := by
  have hd := decodes_long hb i compressed pc reg s (x := ins 0)
  have hf := hd.fsmOut_first hs.idFsm
  simp only [longMain, longAlu, Bool.false_eq_true, if_false, if_true] at hf
  have ho : out cfg (longInstr i compressed pc reg) s (ins 0) =
      { rfWrite := none
        lsuRequest := none
        pcSet := none
        branchSet := false
        call := false
        done := false } := by
    rw [hd.out_eq, hf]
    simp [longMain, hs.branchSetQ]
  have hmulti : (after cfg (longInstr i compressed pc reg) s ins 1).idFsm = .multiCycle :=
    congrArg IdFsmOut.idFsmD hf
  have hq : (after cfg (longInstr i compressed pc reg) s ins 1).branchSetQ = false :=
    congrArg IdFsmOut.branchSetD hf
  have htwo := twoCycles_long hb i compressed pc reg s hs.idFsm (hlsu 0).2 (hlsu 1).2 hmulti
  have hd' := decodes_long hb i compressed pc reg
      (after cfg (longInstr i compressed pc reg) s ins 1)
    (x := ins 1)
  obtain ⟨hA, hB⟩ := operands_long hb i compressed pc reg s (hlsu 0).2
  obtain ⟨hA', -⟩ := operands_long hb i compressed pc reg
    (after cfg (longInstr i compressed pc reg) s ins 1) (hlsu 1).2
  rw [hs.idFsm] at hA
  rw [hmulti] at hA'
  have hw := write_long i reg htwo hd.operator hA hA' hB
  have hf' := hd'.fsmOut_later hmulti
  simp only [longMain, Bool.false_and, Bool.false_eq_true, if_false] at hf'
  have ho' : out cfg (longInstr i compressed pc reg)
        (after cfg (longInstr i compressed pc reg) s ins 1) (ins 1) =
      { rfWrite := some (i.write reg)
        lsuRequest := none
        pcSet := none
        branchSet := false
        call := false
        done := true } := by
    have hwaddr : rfWaddr (longInstr i compressed pc reg).instr = regD (longWord i) := by
      rw [← encode_long]
      rfl
    rw [hd'.out_eq, hf', hd'.exOut_eq, ← hw, hb, hwaddr]
    simp only [longMain, hq, (hlsu 1).1, hmulti, ite_self, if_true]
    rfl
  refine ⟨⟨congrArg DatapathOut.done ho', fun k hk => ?_⟩, ?_⟩
  · obtain rfl : k = 0 := by omega
    exact congrArg DatapathOut.done ho
  · have houts : outs cfg (longInstr i compressed pc reg) s ins 2 = [_, _] :=
      congrArg₂ (fun o o' => [o, o']) ho ho'
    rw [houts]
    exact ⟨rfl, rfl, rfl, Or.inl ⟨rfl, fun f hf => by cases hf; rfl⟩, rfl⟩

/-- `fsri x5, x6, x7, 33` in a core that comes out of reset: the words change places, and the third
source is shifted by one. -/
theorem executes_long_fsri :
    let h := longInstr (.fsri 7#5 33#6 6#5 5#5) false 0x80#32 fun r =>
      if r = 6#5 then 0x80000001#32 else 0x10#32
    let s : Datapath .fast := ⟨.firstCycle, false, false, ExBlock.reset .fast⟩
    LeavesAt ⟨true, true, true⟩ h s (fun _ => restIn) 1
      ∧ Performs (outs ⟨true, true, true⟩ h s (fun _ => restIn) 2) 0x80#32 4#32
        (some { write := some (5#5, 0x80000008#32), nextPc := 0x84#32 }) :=
  executes_long ⟨true, true, true⟩
    (⟨.firstCycle, false, false, ExBlock.reset .fast⟩ : Datapath .fast)
    (fun _ => restIn) rfl (.fsri 7#5 33#6 6#5 5#5) false 0x80#32 _ ⟨rfl, rfl⟩
    (fun _ => ⟨rfl, rfl⟩)

end

end Datapath

end CocoIbex
