import CocoIbex.AdderUse

/-!
# The Secure Shifter

With `SHIFT_SECURE` the operands of the shifter are masked with an enable that the compressed
decoder computes from opcode and funct3. Every instruction that looks at the shifter has its
enable, so that the mask does not show in the result (`shift_gating_transparent`). In an ALU
without RV32B the shifter is quiet for the other instructions but for those of
`ShiftMaskMissing`, which share opcode and funct3 with a shift.

The mask has two purposes, and each has its statement. It must not get in the way: the
compressed decoder does not see funct7, and so enables too much rather than too little. And it
should keep the operands of other instructions out of the shifter: what is compared is all
values between the operand muxes and the result of the shifter (`shifterValues`), for any two
pairs of operands.

With RV32B the shifter also serves the single-bit operations and the reversals, which all have
the enable.

## Main results

* `shiftEnable_of_usesShifter` — an accepted instruction that looks at the shifter has the
  enable;
* `shift_gating_transparent` — the mask does not show, in any cycle of any accepted word;
* `shifter_isolated_iff` — for which words the shifter is quiet.
-/

namespace CocoIbex

open Machine

namespace Alu

variable (rv32b : Bool) (x : AluIn)

/-! ### The mask of the shifter -/

/-- The inputs with another enable of the shifter. -/
def withShift (e : Bool) : AluIn := { x with shiftEnable := e }

/-- The operations that look at the result of the shifter or at its shift amount. -/
def usesShifter (op : AluOp) : Bool :=
  match op with
  | .sll | .srl | .sra | .slo | .sro | .rol | .ror | .fsl | .fsr | .grev | .gorc
  | .shfl | .unshfl | .sbset | .sbclr | .sbinv | .sbext => true
  | _ => false

/-- The adder does not look at the mask of the shifter. -/
@[simp] theorem adderResult_withShift (e : Bool) : adderResult (withShift x e) = adderResult x :=
  rfl

/-- The comparison does not look at the shift enable. -/
@[simp] theorem cmpResult_withShift (e : Bool) : cmpResult (withShift x e) = cmpResult x := rfl

/-- Neither do the bitwise operations. -/
@[simp] theorem bwlogicResult_withShift (e : Bool) :
    bwlogicResult rv32b (withShift x e) = bwlogicResult rv32b x := rfl

/-- Neither does the AND of the single-bit and multiplier paths. -/
@[simp] theorem bwlogicAndResult_withShift (e : Bool) :
    bwlogicAndResult rv32b (withShift x e) = bwlogicAndResult rv32b x := rfl

/-- Neither do minimum and maximum. -/
@[simp] theorem minmaxResult_withShift (e : Bool) :
    minmaxResult (withShift x e) = minmaxResult x := rfl

/-- Neither do the bit counts. -/
@[simp] theorem bitcntResult_withShift (e : Bool) :
    bitcntResult (withShift x e) = bitcntResult x := rfl

/-- Neither does packing. -/
@[simp] theorem packResult_withShift (e : Bool) : packResult (withShift x e) = packResult x := rfl

/-- The mask of the shifter does not show in the result of the other operations. -/
theorem result_withShift (e : Bool) (h : usesShifter x.operator = false) :
    result rv32b (withShift x e) = result rv32b x := by
  have hop : (withShift x e).operator = x.operator := rfl
  have hmulti : x.operator = .cmix ∨ x.operator = .cmov →
      multicycleResult rv32b (withShift x e) = multicycleResult rv32b x := by
    rintro (h | h)
    · simp only [multicycleResult, hop, h, bwlogicAndResult_withShift]
      rfl
    · simp only [multicycleResult, hop, h]
      rfl
  simp only [result, hop]
  cases ho : x.operator <;> simp_all [usesShifter]

/-- Nor does it show in their intermediate value. -/
theorem imdValD_withShift (e : Bool) (h : usesShifter x.operator = false) :
    imdValD rv32b (withShift x e) = imdValD rv32b x := by
  have hop : (withShift x e).operator = x.operator := rfl
  have ha : (withShift x e).operandA = x.operandA := rfl
  simp only [imdValD, hop, ha]
  cases ho : x.operator <;> simp_all [usesShifter]

end Alu

/-! ### The words that look at the shifter -/

/-- Opcode and funct3 of a shift. -/
def ShiftFields (i : BitVec 32) : Prop :=
  (Opcode.ofBits (opcodeBits i) = some .opImm ∨ Opcode.ofBits (opcodeBits i) = some .op) ∧
    (funct3 i = 0b001#3 ∨ funct3 i = 0b101#3)

/-- Among the operations with an immediate only the two shift codes use the shifter. -/
theorem opImmAlu_usesShifter {cfg : Config} {first : Bool} {f7 : BitVec 7} {rs2 : BitVec 5}
    {f3 : BitVec 3} (h : Alu.usesShifter (opImmAlu cfg first f7 rs2 f3).1 = true) :
    f3 = 0b001#3 ∨ f3 = 0b101#3 := by
  have hf3 : ∀ f : BitVec 3, f = 0b001#3 ∨ f = 0b101#3 ∨ f = 0b000#3 ∨ f = 0b010#3 ∨
      f = 0b011#3 ∨ f = 0b100#3 ∨ f = 0b110#3 ∨ f = 0b111#3 := by decide
  obtain h3 | h3 | rfl | rfl | rfl | rfl | rfl | rfl := hf3 f3
  · exact Or.inl h3
  · exact Or.inr h3
  all_goals simp [opImmAlu, Alu.usesShifter] at h

/-- Among the register operations only the two shift codes use the shifter. -/
theorem opAlu_usesShifter {cfg : Config} {first : Bool} {f7 : BitVec 7} {f3 : BitVec 3}
    (h : Alu.usesShifter (opAlu cfg first f7 f3).aluOperator = true) :
    f3 = 0b001#3 ∨ f3 = 0b101#3 := by
  have ht : ∀ b, (opTernaryAlu b f3).isSome = true → f3 = 0b001#3 ∨ f3 = 0b101#3 := by
    intro b
    simp only [opTernaryAlu]
    split <;> simp
  have hi : (opRv32iAlu f7 f3).any Alu.usesShifter = true → f3 = 0b001#3 ∨ f3 = 0b101#3 := by
    simp only [opRv32iAlu]
    split <;> simp [Alu.usesShifter]
  have hb : (opRv32bAlu f7 f3).any Alu.usesShifter = true → f3 = 0b001#3 ∨ f3 = 0b101#3 := by
    simp only [opRv32bAlu]
    split <;> simp [Alu.usesShifter]
  by_cases h1 : f7.getLsbD 1 = true
  · cases hx : opTernaryAlu (f7.extractLsb 1 0) f3 with
    | some a => exact ht _ (by rw [hx]; rfl)
    | none =>
        simp only [opAlu, if_pos h1, hx] at h
        split_ifs at h <;> simp [Alu.usesShifter] at h
  · simp only [opAlu, if_neg h1] at h
    cases hx : opRv32iAlu f7 f3 with
    | some a => exact hi (by simpa [hx] using h)
    | none =>
        cases hy : opRv32bAlu f7 f3 with
        | some a =>
            simp only [hx, hy] at h
            split_ifs at h
            · exact hb (by simpa [hy] using h)
            · simp [Alu.usesShifter] at h
        | none =>
            simp only [hx, hy] at h
            split_ifs at h <;> simp [Alu.usesShifter] at h

/-- No branch uses the shifter. -/
theorem branchAlu_usesShifter : ∀ f3 : BitVec 3, Alu.usesShifter (branchAlu f3) = false := by
  decide

/-- The main decoder chooses an operation of the shifter by opcode and funct3. -/
theorem shiftFields_of_usesShifter {cfg : Config} {first branchTaken : Bool} {i : BitVec 32}
    (h : Alu.usesShifter (aluDecode cfg first branchTaken i).aluOperator = true) :
    ShiftFields i := by
  cases ho : Opcode.ofBits (opcodeBits i) with
  | none => simp [aluDecode, ho, Alu.usesShifter] at h
  | some o =>
      cases o <;> simp only [aluDecode, ho] at h
      case opImm => exact ⟨Or.inl ho, opImmAlu_usesShifter h⟩
      case op => exact ⟨Or.inr ho, opAlu_usesShifter h⟩
      case branch =>
        have hb := branchAlu_usesShifter (funct3 i)
        split_ifs at h <;> simp_all [pcPlus, Alu.usesShifter]
      case miscMem =>
        split at h <;> (try split_ifs at h) <;> simp [pcPlus, Alu.usesShifter] at h
      all_goals
        (try split_ifs at h) <;> simp [pcPlus, Alu.usesShifter] at h

/-! ### The enable of a word -/

/-- The enable of an accepted expansion tells whether it has opcode and funct3 of a shift, and
the shift is by an immediate. -/
def ShiftServed (o : CompressedOut) : Prop :=
  o.illegalInstr = false → (o.shiftEnable = true ↔ ShiftFields o.instr) ∧
    (ShiftFields o.instr → Opcode.ofBits (opcodeBits o.instr) = some .opImm)

/-- Quadrant C0 has no shift. -/
theorem decodeC0_shift (w : BitVec 32) : ShiftServed (decodeC0 w) := by
  intro hl
  simp only [decodeC0] at hl ⊢
  split at hl <;> simp_all [ShiftFields]

/-- The register operations of quadrant C1 have no shift. -/
theorem decodeC1Reg_shift (w : BitVec 32) : ShiftServed (decodeC1Reg w) := by
  intro hl
  simp only [decodeC1Reg] at hl ⊢
  split at hl <;> simp_all [ShiftFields]

/-- The right shifts and `c.andi` of quadrant C1 enable the shifter where they use it. -/
theorem decodeC1Arith_shift (w : BitVec 32) : ShiftServed (decodeC1Arith w) := by
  have hreg := decodeC1Reg_shift w
  intro hl
  simp only [decodeC1Arith] at hl ⊢
  split at hl
  case h_4 => simp_all [ShiftServed]
  all_goals simp_all [ShiftFields]

/-- `c.lui` and `c.addi16sp` do not shift. -/
theorem decodeC1Lui_shift (w : BitVec 32) : ShiftServed (decodeC1Lui w) := by
  intro _
  simp only [decodeC1Lui]
  split_ifs <;> simp [ShiftFields]

/-- Every instruction of quadrant C1 that shifts enables the shifter. -/
theorem decodeC1_shift (w : BitVec 32) : ShiftServed (decodeC1 w) := by
  have hlui := decodeC1Lui_shift w
  have harith := decodeC1Arith_shift w
  intro hl
  simp only [decodeC1] at hl ⊢
  split at hl
  case h_5 => simp_all [ShiftServed]
  case h_6 => simp_all [ShiftServed]
  all_goals simp_all [ShiftFields]

/-- Every instruction of quadrant C2 that shifts enables the shifter. -/
theorem decodeC2_shift (w : BitVec 32) : ShiftServed (decodeC2 w) := by
  intro hl
  simp only [decodeC2] at hl ⊢
  split at hl
  case h_3 =>
    have hebreak : Opcode.ofBits (opcodeBits 0x00100073#32) = some .system := rfl
    simp only [decodeC2Arith]
    split_ifs <;> simp_all [ShiftFields]
  all_goals simp_all [ShiftFields]

variable {cfg : Config} {m : Multiplier} {w : BitVec 32}

/-- Of the words that are not compressed also slt, sltu and some operations of the multiplier
and divider have the enable. -/
theorem decodeC3_shift (hl : (mainDecodeRaw cfg true w).illegalInsn = false) :
    (decodeC3 w).shiftEnable = true ↔ ShiftFields w ∨
      (Opcode.ofBits (opcodeBits w) = some .op ∧ (funct3 w = 0b010#3 ∨ funct3 w = 0b011#3)) := by
  cases ho : Opcode.ofBits (opcodeBits w) with
  | none => simp [mainDecodeRaw, ho] at hl
  | some o =>
      have hf := field62_of_opcode ho
      cases o <;> simp [decodeC3, ShiftFields, ho, hf, Opcode.bits]
      tauto

/-- An accepted instruction that looks at the shifter has the enable. -/
theorem shiftEnable_of_usesShifter (hacc : Accepts cfg w) {first branchTaken : Bool}
    (h : Alu.usesShifter
      (aluDecode cfg first branchTaken (compressedDecoder w).instr).aluOperator = true) :
    (compressedDecoder w).shiftEnable = true := by
  have hs := shiftFields_of_usesShifter h
  obtain ⟨hc, hl⟩ := accepts_iff.mp hacc
  obtain hq | hq | hq | hq := quadrant_cases w
  · rw [compressedDecoder_c0 hq] at hs hc ⊢
    exact (decodeC0_shift w hc).1.mpr hs
  · rw [compressedDecoder_c1 hq] at hs hc ⊢
    exact (decodeC1_shift w hc).1.mpr hs
  · rw [compressedDecoder_c2 hq] at hs hc ⊢
    exact (decodeC2_shift w hc).1.mpr hs
  · rw [compressedDecoder_c3 hq] at hs hl ⊢
    exact (decodeC3_shift hl).mpr (Or.inl hs)

/-! ### Transparency -/

/-- In every cycle with the instruction of `s` in ID, for all operands, whatever the registers
of EX hold and whether or not the adder is masked, the ALU gives the same result and the same
intermediate value with the mask of `s` on the shifter and without a mask. -/
def ShiftTransparent (cfg : Config) (m : Multiplier) (s : IfIdReg) : Prop :=
  ∀ (st : ExState m) (adderEnable : Bool) fsm x d, InId s x →
    let i := ExBlock.aluIn cfg m st (exIn cfg s adderEnable fsm x d)
    Alu.result cfg.rv32b i = Alu.result cfg.rv32b (Alu.withShift i true) ∧
      Alu.imdValD cfg.rv32b i = Alu.imdValD cfg.rv32b (Alu.withShift i true) ∧
      Alu.imdValWe cfg.rv32b i = Alu.imdValWe cfg.rv32b (Alu.withShift i true)

/-- The ALU decode of the word in ID. -/
theorem alu_of_inId {fsm : IdFsm} {x : IdIn} (hx : InId (IfIdReg.ofWord w) x) :
    IdStage.alu cfg fsm x = aluDecode cfg (IdStage.instrFirstCycle fsm x) x.branchTaken
      (compressedDecoder w).instr := by
  rw [IdStage.alu, hx.2.1]
  rfl

/-- The mask of the shifter changes nothing for a word whose decoder serves it. -/
theorem shiftTransparent_ofWord (hacc : Accepts cfg w) :
    ShiftTransparent cfg m (IfIdReg.ofWord w) := by
  intro st e fsm x d hx i
  cases hu : Alu.usesShifter i.operator with
  | true =>
      have hen : i.shiftEnable = true := by
        have hop : i.operator = (IdStage.alu cfg fsm x).aluOperator := rfl
        rw [hop, alu_of_inId hx] at hu
        exact shiftEnable_of_usesShifter hacc hu
      have hi : Alu.withShift i true = i := by
        rw [Alu.withShift, ← hen]
      rw [hi]
      exact ⟨rfl, rfl, rfl⟩
  | false =>
      exact ⟨(Alu.result_withShift _ i true hu).symm, (Alu.imdValD_withShift _ i true hu).symm,
        rfl⟩

/-- **The secure shifter.** For an accepted word in ID, in any run of the pipeline registers,
the mask of the shifter does not show in the ALU, in any cycle and for any operands. -/
theorem shift_gating_transparent (cfg : Config) (m : Multiplier) {s : IfIdReg}
    (h0 : s.instrValidId = false) {ins : List IfIdIn} {w : BitVec 32}
    (hv : (run IfIdReg.next s ins).instrValidId = true) (hw : IfIdReg.lastWord ins = some w)
    (hacc : Accepts cfg w) : ShiftTransparent cfg m (run IfIdReg.next s ins) := by
  obtain ⟨w', hw', hs⟩ := IfIdReg.ifId_valid h0 ins hv
  obtain rfl : w' = w := Option.some.inj (hw'.symm.trans hw)
  rw [hs]
  exact shiftTransparent_ofWord hacc

/-- `rol x1, x2, x3` in ID, after one fetch. -/
theorem shift_gating_transparent_rol :
    ShiftTransparent ⟨true, true, true⟩ .fast
      (run IfIdReg.next .reset [.fetch 0x603110b3#32]) :=
  shift_gating_transparent (w := 0x603110b3#32) _ _ rfl (by decide) (by decide) (by decide)

/-! ### Isolation -/

/-- The internal values of the shifter. -/
structure ShifterValues where
  shiftOperandA : BitVec 32
  shiftOperandB : BitVec 32
  shiftAmt : BitVec 6
  shiftInput : BitVec 32
  shiftResultExt : BitVec 33
  shiftResult : BitVec 32
  deriving DecidableEq, Repr

/-- What the shifter of the ALU computes from the inputs `x`. -/
def shifterValues (rv32b : Bool) (x : AluIn) : ShifterValues where
  shiftOperandA := Alu.shiftOperandA x
  shiftOperandB := Alu.shiftOperandB x
  shiftAmt := BitVec.ofBool (Alu.shiftAmt5 rv32b x) ++ Alu.shiftAmt rv32b x
  shiftInput := Alu.shiftInput rv32b x
  shiftResultExt := Alu.shiftResultExt rv32b x
  shiftResult := Alu.shiftResult rv32b x

/-- Without RV32B the values of a masked shifter are all zero. -/
theorem shifterValues_masked {x : AluIn} (h : x.shiftEnable = false) :
    shifterValues false x = ⟨0#32, 0#32, 0#6, 0#32, 0#33, 0#32⟩ := by
  have ha : Alu.shiftOperandA x = 0#32 := by simp [Alu.shiftOperandA, h]
  have hb : Alu.shiftOperandB x = 0#32 := by simp [Alu.shiftOperandB, h]
  have h5 : Alu.shiftAmt5 false x = false := by simp [Alu.shiftAmt5, Alu.shiftFunnel]
  have hamt : Alu.shiftAmt false x = 0#5 := by
    simp [Alu.shiftAmt, Alu.shiftAmtCompl, hb, h5]
  have hin : Alu.shiftInput false x = 0#32 := by
    simp [Alu.shiftInput, Alu.shiftSbmode, ha, h]
  have hext : Alu.shiftResultExt false x = 0#33 := by
    simp [Alu.shiftResultExt, Alu.shiftOnes, hin, hamt]
  have hres : Alu.shiftResult false x = 0#32 := by
    simp [Alu.shiftResult, Alu.grevOp, Alu.gorcOp, hext, Alu.reverse, Alu.reverseStage]
  simp [shifterValues, ha, hb, h5, hamt, hin, hext, hres]

/-- The operand enters an open shifter. -/
theorem shifterValues_open {rv32b : Bool} {x : AluIn} (h : x.shiftEnable = true) :
    (shifterValues rv32b x).shiftOperandA = x.operandA := by
  simp [shifterValues, Alu.shiftOperandA, h]

/-- In any two cycles with the instruction of `s` in ID, for any two pairs of operands and
whatever EX did before, the values of the shifter are the same. -/
def ShiftIsolated (cfg : Config) (m : Multiplier) (s : IfIdReg) : Prop :=
  ∀ (st st' : ExState m) (adderEnable : Bool) fsm fsm' x x' d d', InId s x → InId s x' →
    shifterValues cfg.rv32b (ExBlock.aluIn cfg m st (exIn cfg s adderEnable fsm x d))
      = shifterValues cfg.rv32b (ExBlock.aluIn cfg m st' (exIn cfg s adderEnable fsm' x' d'))

/-- The register-register operations of RV32I that are shifts. -/
def opShifts : List (BitVec 7 × BitVec 3) :=
  [(0b0000000#7, 0b001#3), (0b0000000#7, 0b101#3), (0b0100000#7, 0b101#3)]

/-- The other register-register operations with the enable: slt, sltu, mulh, mulhsu, mulhu and
divu. -/
def opShiftMissing : List (BitVec 7 × BitVec 3) :=
  [(0b0000000#7, 0b010#3), (0b0000000#7, 0b011#3), (0b0000001#7, 0b001#3),
    (0b0000001#7, 0b010#3), (0b0000001#7, 0b011#3), (0b0000001#7, 0b101#3)]

/-- The instruction `i` is a shift of RV32I: sll, srl, sra or the form with an immediate. -/
def IsShift (i : BitVec 32) : Prop :=
  (Opcode.ofBits (opcodeBits i) = some .opImm ∧ (funct3 i = 0b001#3 ∨ funct3 i = 0b101#3)) ∨
    (Opcode.ofBits (opcodeBits i) = some .op ∧ (funct7 i, funct3 i) ∈ opShifts)

/-- It is a test of two fields. -/
instance (i : BitVec 32) : Decidable (IsShift i) := inferInstanceAs (Decidable (_ ∨ _))

/-- The words that are no shifts and open the shifter. -/
def ShiftMaskMissing (w : BitVec 32) : Prop :=
  quadrant w = 0b11#2 ∧ field62 w = 0b01100#5 ∧ (funct7 w, funct3 w) ∈ opShiftMissing

/-- It is a test of a few fields of the word. -/
instance (w : BitVec 32) : Decidable (ShiftMaskMissing w) := inferInstanceAs (Decidable (_ ∧ _))

/-- The operations with the enable, without RV32B. -/
theorem op_shiftEnable {f7 : BitVec 7} {f3 : BitVec 3} (hb : cfg.rv32b = false)
    (hl : opIllegal cfg f7 f3 = false) :
    f3 ∈ [0b001#3, 0b010#3, 0b011#3, 0b101#3] ↔
      (f7, f3) ∈ opShifts ∨ (f7, f3) ∈ opShiftMissing := by
  obtain ⟨-, h⟩ | hi | ⟨-, h⟩ | ⟨rfl, -⟩ := op_cases hl
  · simp [hb] at h
  · have hall : ∀ p ∈ opRv32i, p.2 ∈ [0b001#3, 0b010#3, 0b011#3, 0b101#3] ↔
        p ∈ opShifts ∨ p ∈ opShiftMissing := List.forall_iff_forall_mem.mp (by decide)
    exact hall _ hi
  · simp [hb] at h
  · simp [opShifts, opShiftMissing]

/-- A compressed word that is no shift is not listed and keeps the shifter closed. -/
theorem ShiftServed.shiftEnable_iff {o : CompressedOut} (h : ShiftServed o)
    (hl : o.illegalInstr = false) (hs : ¬ IsShift o.instr) (hq : quadrant w ≠ 0b11#2) :
    o.shiftEnable = true ↔ ShiftMaskMissing w := by
  obtain ⟨hen, himm⟩ := h hl
  refine ⟨fun he => ?_, fun hm => absurd hm.1 hq⟩
  have hf := hen.mp he
  exact absurd (Or.inl ⟨himm hf, hf.2⟩) hs

/-- Without RV32B an accepted word that is no shift opens the shifter when it is listed. -/
theorem shiftEnable_iff (hb : cfg.rv32b = false) (hacc : Accepts cfg w)
    (hs : ¬ IsShift (compressedDecoder w).instr) :
    (compressedDecoder w).shiftEnable = true ↔ ShiftMaskMissing w := by
  obtain ⟨hc, hl⟩ := accepts_iff.mp hacc
  obtain hq | hq | hq | hq := quadrant_cases w
  · rw [compressedDecoder_c0 hq] at hs hc ⊢
    exact (decodeC0_shift w).shiftEnable_iff hc hs (by rw [hq]; decide)
  · rw [compressedDecoder_c1 hq] at hs hc ⊢
    exact (decodeC1_shift w).shiftEnable_iff hc hs (by rw [hq]; decide)
  · rw [compressedDecoder_c2 hq] at hs hc ⊢
    exact (decodeC2_shift w).shiftEnable_iff hc hs (by rw [hq]; decide)
  · rw [compressedDecoder_c3 hq, decodeC3_instr] at hs hl
    rw [compressedDecoder_c3 hq]
    cases ho : Opcode.ofBits (opcodeBits w) with
    | none => simp [mainDecodeRaw, ho] at hl
    | some o =>
        have hf := field62_of_opcode ho
        cases o
        case op =>
          have hlo : opIllegal cfg (funct7 w) (funct3 w) = false := by
            simpa [mainDecodeRaw, ho] using hl
          have hns : (funct7 w, funct3 w) ∉ opShifts := fun h => hs (Or.inr ⟨ho, h⟩)
          have hop := op_shiftEnable hb hlo
          rw [or_iff_right hns] at hop
          have hw : ShiftMaskMissing w ↔ (funct7 w, funct3 w) ∈ opShiftMissing := by
            simp [ShiftMaskMissing, hq, hf, Opcode.bits]
          rw [hw, ← hop]
          simp [decodeC3, hf, Opcode.bits, or_assoc]
        case opImm =>
          have hns : ¬ (funct3 w = 0b001#3 ∨ funct3 w = 0b101#3) := fun h => hs (Or.inl ⟨ho, h⟩)
          simpa [decodeC3, ShiftMaskMissing, hf, Opcode.bits] using hns
        all_goals simp [decodeC3, ShiftMaskMissing, hf, Opcode.bits]

/-- The operands 0 and 1 of an open shifter show. -/
theorem not_isolated (hen : (IfIdReg.ofWord w).shiftEnable = true) :
    ¬ ShiftIsolated cfg m (IfIdReg.ofWord w) := by
  intro h
  let d (a : BitVec 32) : ExData := ⟨a, 0#32, 0#32, 0#32, 0#32, 0#32, true⟩
  have hd := congrArg ShifterValues.shiftOperandA (h (ExBlock.reset m) (ExBlock.reset m) true
    .firstCycle .firstCycle (lastCycle (IfIdReg.ofWord w) true)
    (lastCycle (IfIdReg.ofWord w) true) (d 0#32) (d 1#32) ⟨rfl, rfl, rfl⟩ ⟨rfl, rfl, rfl⟩)
  rw [shifterValues_open hen, shifterValues_open hen] at hd
  have hd' : (0#32 : BitVec 32) = 1#32 := hd
  exact absurd hd' (by decide)

/-- **Shifter isolation.** Without RV32B, for an accepted word in ID that is no shift, in any
run of the pipeline registers, the values of the shifter are independent of the operands
exactly when the word is none of the listed ones. -/
theorem shifter_isolated_iff (cfg : Config) (hb : cfg.rv32b = false) (m : Multiplier)
    {s : IfIdReg} (h0 : s.instrValidId = false) {ins : List IfIdIn} {w : BitVec 32}
    (hv : (run IfIdReg.next s ins).instrValidId = true) (hw : IfIdReg.lastWord ins = some w)
    (hacc : Accepts cfg w) (hs : ¬ IsShift (compressedDecoder w).instr) :
    ShiftIsolated cfg m (run IfIdReg.next s ins) ↔ ¬ ShiftMaskMissing w := by
  obtain ⟨w', hw', hof⟩ := IfIdReg.ifId_valid h0 ins hv
  obtain rfl : w' = w := Option.some.inj (hw'.symm.trans hw)
  rw [hof, ← shiftEnable_iff hb hacc hs]
  refine ⟨fun h hen => not_isolated hen h, fun hoff => ?_⟩
  have hen : (IfIdReg.ofWord w').shiftEnable = false := (Bool.not_eq_true _).mp hoff
  intro st st' e fsm fsm' x x' d d' _ _
  rw [hb, shifterValues_masked hen, shifterValues_masked hen]

/-- `xor x1, x2, x3` in ID, after one fetch. -/
theorem shifter_isolated_xor :
    ShiftIsolated ⟨true, false, true⟩ .fast (run IfIdReg.next .reset [.fetch 0x003140b3#32]) ↔
      ¬ ShiftMaskMissing 0x003140b3#32 :=
  shifter_isolated_iff _ rfl _ rfl (by decide) (by decide) (by decide) (by decide)

/-- `mulh x1, x2, x3` is accepted, is no shift, and takes its operands into the shifter. -/
theorem mulh_shifter_open :
    Accepts ⟨true, false, true⟩ 0x023110b3#32 ∧
      ¬ IsShift (compressedDecoder 0x023110b3#32).instr ∧
      IfIdReg.lastWord [.fetch 0x023110b3#32] = some 0x023110b3#32 ∧
      (run IfIdReg.next .reset [.fetch 0x023110b3#32]).instrValidId = true ∧
      ¬ ShiftIsolated ⟨true, false, true⟩ .fast
        (run IfIdReg.next .reset [.fetch 0x023110b3#32]) := by
  have hs : run IfIdReg.next .reset [.fetch 0x023110b3#32] = IfIdReg.ofWord 0x023110b3#32 := rfl
  refine ⟨by decide, by decide, rfl, rfl, ?_⟩
  rw [hs]
  exact not_isolated (by decide)

end CocoIbex
