import CocoIbex.ExBlock
import CocoIbex.Gating

/-!
# Who Uses the Adder

With `ADDER_SECURE` the operands of the adder are masked with an enable that the compressed
decoder computes: it is low for the shifts and the bitwise operations. This module says what an
instruction takes from EX, when none of it rests on the adder, and that every accepted word but
those of `AdderMaskMissing` has its enable or does without.

What an instruction takes is `ExUse`: the register write data, the address of a load or store,
the target and the decision of a branch, each only where the instruction has a use for it, and
whether EX is done and with what registers it goes on. A result that nothing reads is left out,
so that a cleared operand behind it does no harm. An instruction is `AdderFree` where its
operators select none of the units that read the sum.

## Main results

* `op_cases` — a legal register-register operation stands in one of the tables, which are those
  of the source: RV32I, the multiplications and divisions, RV32B, the ternary ones;
* `adderServed` — every accepted word but the listed ones is served: its enable is set, or it is
  free of the adder;
* `AdderTransparent.of_enable` — with a set enable there is nothing to compare.
-/

namespace CocoIbex

open Machine

/-! ### What an instruction takes from EX -/

/-- What EX sees in a cycle that the instruction does not fix: the operands and the
readiness of the next stage. -/
structure ExData where
  aluOperandA : BitVec 32
  aluOperandB : BitVec 32
  btAOperand : BitVec 32
  btBOperand : BitVec 32
  multdivOperandA : BitVec 32
  multdivOperandB : BitVec 32
  multdivReadyId : Bool

/-- The inputs of EX in the cycle `x` with the instruction of `s` in ID, its adder masked
with `adderEnable`. -/
def exIn (cfg : Config) (s : IfIdReg) (adderEnable : Bool) (fsm : IdFsm) (x : IdIn)
    (d : ExData) : ExIn :=
  let c := IdStage.main cfg fsm x
  let a := IdStage.alu cfg fsm x
  { aluOperator := a.aluOperator
    aluOperandA := d.aluOperandA
    aluOperandB := d.aluOperandB
    aluInstrFirstCycle := IdStage.instrFirstCycle fsm x
    btAOperand := d.btAOperand
    btBOperand := d.btBOperand
    multdivOperator := c.multdivOperator
    multEn := IdStage.instrExecuting x && (!c.illegalInsn && a.multSel)
    divEn := IdStage.instrExecuting x && (!c.illegalInsn && a.divSel)
    multSel := a.multSel
    divSel := a.divSel
    multdivSignedMode := c.multdivSignedMode
    multdivOperandA := d.multdivOperandA
    multdivOperandB := d.multdivOperandB
    multdivReadyId := d.multdivReadyId
    mdEnable := s.mdEnable
    shiftEnable := s.shiftEnable
    adderEnable := adderEnable }

/-- What the core takes from EX in a cycle, `none` where the instruction does not use the
output, and the registers that EX goes on with. -/
structure ExUse (m : Multiplier) where
  rfWdata : Option (BitVec 32)
  lsuAddress : Option (BitVec 32)
  branchTarget : Option (BitVec 32)
  branchDecision : Option Bool
  exValid : Bool
  next : ExState m

/-- What the core takes in the cycle `x`: the register write data, the address of a load or
store, the target of a jump or branch, and the decision of a branch. -/
def exUse (cfg : Config) (m : Multiplier) (st : ExState m) (fsm : IdFsm) (x : IdIn)
    (i : ExIn) : ExUse m :=
  let c := IdStage.main cfg fsm x
  let o := ExBlock.outputs cfg m st i
  { rfWdata :=
      if IdStage.rfWeId cfg fsm x ∧ c.rfWdataSel = .ex then some o.resultEx else none
    lsuAddress := if c.dataReq then some o.aluAdderResultEx else none
    branchTarget := if c.jumpInDec || c.branchInDec then some o.branchTarget else none
    branchDecision := if c.branchInDec then some o.branchDecision else none
    exValid := o.exValid
    next := ExBlock.next cfg m st i }

/-- In every cycle with the instruction of `s` in ID, for all operands and whatever EX did
before, the core takes the same from EX with the mask of `s` and without a mask. -/
def AdderTransparent (cfg : Config) (m : Multiplier) (s : IfIdReg) : Prop :=
  ∀ past fsm x d, InId s x →
    let st := run (ExBlock.next cfg m) (ExBlock.reset m) past
    exUse cfg m st fsm x (exIn cfg s s.adderEnable fsm x d)
      = exUse cfg m st fsm x (exIn cfg s true fsm x d)

/-- With a set enable there is nothing to compare. -/
theorem AdderTransparent.of_enable {cfg : Config} {m : Multiplier} {s : IfIdReg}
    (h : s.adderEnable = true) : AdderTransparent cfg m s := by
  intro past fsm x d _
  rw [h]

/-! ### Instructions without the adder -/

/-- The instruction `i` takes nothing from EX that rests on the adder. -/
structure AdderFree (cfg : Config) (m : Multiplier) (i : BitVec 32) : Prop where
  main : ∀ first, (mainDecodeRaw cfg first i).dataReq = false ∧
    (mainDecodeRaw cfg first i).jumpInDec = false ∧
    (mainDecodeRaw cfg first i).branchInDec = false
  divSel : ∀ first bt, (aluDecode cfg first bt i).divSel = false
  multSel : ∀ first bt, (aluDecode cfg first bt i).multSel = true →
    m ≠ .slow ∧ cfg.rv32m = true
  alu : ∀ first bt, (aluDecode cfg first bt i).multSel = false →
    Alu.usesAdder (aluDecode cfg first bt i).aluOperator = false

/-- EX works without the adder for an instruction without it. -/
theorem AdderFree.ex {cfg : Config} {m : Multiplier} {w : BitVec 32}
    (h : AdderFree cfg m (compressedDecoder w).instr) (e : Bool) (fsm : IdFsm) {x : IdIn}
    (d : ExData) (hx : InId (IfIdReg.ofWord w) x) :
    ExBlock.AdderFree cfg m (exIn cfg (IfIdReg.ofWord w) e fsm x d) := by
  have ha : IdStage.alu cfg fsm x
      = aluDecode cfg (IdStage.instrFirstCycle fsm x) x.branchTaken
          (compressedDecoder w).instr := by
    rw [IdStage.alu, hx.2.1]
    rfl
  have hdiv := h.divSel (IdStage.instrFirstCycle fsm x) x.branchTaken
  have hmul := h.multSel (IdStage.instrFirstCycle fsm x) x.branchTaken
  have halu := h.alu (IdStage.instrFirstCycle fsm x) x.branchTaken
  rw [← ha] at hdiv hmul halu
  refine ⟨hdiv, by simp [exIn, hdiv], fun hm => ?_, fun hs => halu ?_⟩
  · have hms : (IdStage.alu cfg fsm x).multSel = false := by
      cases hc : (IdStage.alu cfg fsm x).multSel with
      | false => rfl
      | true => exact absurd hm (hmul hc).1
    exact ⟨hms, by simp [exIn, hms]⟩
  · cases hc : (IdStage.alu cfg fsm x).multSel with
    | false => rfl
    | true => simp [ExBlock.multdivSel, exIn, (hmul hc).2, hc] at hs

/-- The mask is transparent for an instruction without the adder. -/
theorem AdderFree.transparent {cfg : Config} {m : Multiplier} {w : BitVec 32}
    (hacc : Accepts cfg w) (h : AdderFree cfg m (compressedDecoder w).instr) :
    AdderTransparent cfg m (IfIdReg.ofWord w) := by
  intro past fsm x d hx
  obtain ⟨hreq, hjump, hbranch⟩ := h.main (IdStage.instrFirstCycle fsm x)
  have hin : exIn cfg (IfIdReg.ofWord w) true fsm x d
      = ExBlock.withAdder
          (exIn cfg (IfIdReg.ofWord w) (IfIdReg.ofWord w).adderEnable fsm x d) true := rfl
  have hfree := h.ex (IfIdReg.ofWord w).adderEnable fsm d hx
  simp only [exUse, main_of_inId hacc hx, hreq, hjump, hbranch, hin, hfree.next, hfree.outputs,
    Bool.or_false, Bool.false_eq_true, if_false]

/-- An operation of the register-immediate opcode off the adder. -/
theorem adderFree_opImm {cfg : Config} (m : Multiplier) {i : BitVec 32}
    (ho : Opcode.ofBits (opcodeBits i) = some .opImm)
    (h : ∀ first, Alu.usesAdder (opImmAlu cfg first (funct7 i) (regS2 i) (funct3 i)).1 = false) :
    AdderFree cfg m i where
  main first := by simp [mainDecodeRaw, ho]
  divSel first bt := by simp [aluDecode, ho]
  multSel first bt := by simp [aluDecode, ho]
  alu first bt := by simp [aluDecode, ho, h]

/-- The ALU controls `a` make no use of the adder, neither in the ALU nor in the unit
`m`. -/
def AluOut.adderFree (m : Multiplier) (a : AluOut) : Bool :=
  !a.divSel && (if a.multSel then m != .slow else !Alu.usesAdder a.aluOperator)

/-- The multiplier is selected only where there is one. -/
theorem opAlu_multSel {cfg : Config} {first : Bool} {f7 : BitVec 7} {f3 : BitVec 3}
    (h : (opAlu cfg first f7 f3).multSel = true) : cfg.rv32m = true := by
  simp only [opAlu] at h
  split_ifs at h <;> (try split at h) <;> (try split at h) <;> simp_all

/-- An operation of the register-register opcode off the adder. -/
theorem adderFree_op {cfg : Config} {m : Multiplier} {i : BitVec 32}
    (ho : Opcode.ofBits (opcodeBits i) = some .op)
    (h : ∀ first, (opAlu cfg first (funct7 i) (funct3 i)).adderFree m = true) :
    AdderFree cfg m i where
  main first := by simp [mainDecodeRaw, ho]
  divSel first bt := by
    have hf := h first
    simp only [AluOut.adderFree, Bool.and_eq_true, Bool.not_eq_true'] at hf
    simpa [aluDecode, ho] using hf.1
  multSel first bt hs := by
    have hf := h first
    simp only [aluDecode, ho] at hs
    simp only [AluOut.adderFree, hs, if_true, Bool.and_eq_true, bne_iff_ne] at hf
    exact ⟨hf.2, opAlu_multSel hs⟩
  alu first bt hs := by
    have hf := h first
    simp only [aluDecode, ho] at hs ⊢
    simp only [AluOut.adderFree, hs, Bool.and_eq_true] at hf
    simpa using hf.2

/-! ### The enable of a word -/

/-- The enable of the adder is set, or the instruction does not need it. -/
def AdderServed (cfg : Config) (m : Multiplier) (o : CompressedOut) : Prop :=
  o.adderEnable = true ∨ AdderFree cfg m o.instr

variable {cfg : Config} {m : Multiplier} {w : BitVec 32}

/-- Quadrant C0 enables the adder where it uses it. -/
theorem decodeC0_adder : AdderServed cfg m (decodeC0 w) := by
  refine Or.inl ?_
  simp only [decodeC0]
  split <;> rfl

/-- So do the register operations of quadrant C1. -/
theorem decodeC1Reg_adder : AdderServed cfg m (decodeC1Reg w) := by
  simp only [decodeC1Reg]
  split
  case h_1 => exact Or.inl rfl
  case h_5 => exact Or.inl rfl
  all_goals
    exact Or.inr (adderFree_op (by simp) (by simp [opAlu, opRv32iAlu, AluOut.adderFree,
      Alu.usesAdder]))

/-- So do the other operations of quadrant C1. -/
theorem decodeC1Arith_adder : AdderServed cfg m (decodeC1Arith w) := by
  simp only [decodeC1Arith]
  split
  case h_4 => exact decodeC1Reg_adder
  case h_3 => exact Or.inr (adderFree_opImm m (by simp) (by simp [opImmAlu, Alu.usesAdder]))
  all_goals
    refine Or.inr (adderFree_opImm m (by simp) fun first => ?_)
    cases hb : cfg.rv32b <;> simp [opImmAlu, hb, Alu.usesAdder]

/-- Quadrant C1 enables the adder where it uses it. -/
theorem decodeC1_adder : AdderServed cfg m (decodeC1 w) := by
  simp only [decodeC1]
  split
  case h_6 => exact decodeC1Arith_adder
  case h_5 =>
    refine Or.inl ?_
    simp only [decodeC1Lui]
    split_ifs <;> rfl
  all_goals exact Or.inl rfl

/-- Quadrant C2 enables the adder where it uses it. -/
theorem decodeC2_adder : AdderServed cfg m (decodeC2 w) := by
  simp only [decodeC2]
  split
  case h_1 =>
    refine Or.inr (adderFree_opImm m (by simp) fun first => ?_)
    cases hb : cfg.rv32b <;> simp [opImmAlu, hb, Alu.usesAdder]
  case h_3 =>
    refine Or.inl ?_
    simp only [decodeC2Arith]
    split_ifs <;> rfl
  all_goals exact Or.inl rfl

/-! ### The operations that share their enable with a shift -/

/-- The operation `(f7, f3)` needs the adder though its enable is low. -/
def opAdderMissing (m : Multiplier) (f7 : BitVec 7) (f3 : BitVec 3) : Prop :=
  -- slt and sltu
  (f7 = 0b0000000#7 ∧ (f3 = 0b010#3 ∨ f3 = 0b011#3)) ∨
  -- max
  (f7 = 0b0000101#7 ∧ f3 = 0b101#3) ∨
  -- divu
  (f7 = 0b0000001#7 ∧ f3 = 0b101#3) ∨
  -- mulh, mulhsu and mulhu of the slow multiplier
  (m = .slow ∧ f7 = 0b0000001#7 ∧ (f3 = 0b001#3 ∨ f3 = 0b010#3 ∨ f3 = 0b011#3))

/-- It is a test of two function codes. -/
instance (m : Multiplier) (f7 : BitVec 7) (f3 : BitVec 3) :
    Decidable (opAdderMissing m f7 f3) :=
  inferInstanceAs (Decidable (_ ∨ _))

/-- The words that need the adder though their enable is low. -/
def AdderMaskMissing (m : Multiplier) (w : BitVec 32) : Prop :=
  quadrant w = 0b11#2 ∧ field62 w = 0b01100#5 ∧ opAdderMissing m (funct7 w) (funct3 w)

/-- It is a test of a few fields of the word. -/
instance (m : Multiplier) (w : BitVec 32) : Decidable (AdderMaskMissing m w) :=
  inferInstanceAs (Decidable (_ ∧ _))

/-- The register-register operations whose enable is low. -/
def opAdderOff (f7 : BitVec 7) (f3 : BitVec 3) : Bool :=
  f3 == 0b001#3 || f3 == 0b010#3 || f3 == 0b011#3 || f3 == 0b101#3
    || ((f3 == 0b100#3 || f3 == 0b110#3 || f3 == 0b111#3) && !f7.getLsbD 0)

/-- A legal register-register operation is in one of the tables. -/
theorem op_cases {f7 : BitVec 7} {f3 : BitVec 3} (hl : opIllegal cfg f7 f3 = false) :
    (opTernary f7 f3 = true ∧ cfg.rv32b = true) ∨ (f7, f3) ∈ opRv32i ∨
      ((f7, f3) ∈ opRv32b ∧ cfg.rv32b = true) ∨ (f7 = 0b0000001#7 ∧ cfg.rv32m = true) := by
  simp only [opIllegal] at hl
  split_ifs at hl <;> simp_all

/-- The RV32I operations whose enable is off leave the adder alone, but for the listed ones. -/
theorem opAlu_rv32i_adder : ∀ p ∈ opRv32i, ∀ rv32m rv32b bt first,
    opAdderOff p.1 p.2 = true → ¬ opAdderMissing .fast p.1 p.2 →
      (opAlu ⟨rv32m, rv32b, bt⟩ first p.1 p.2).adderFree .slow = true := by
  decide +kernel

/-- So do the RV32B operations of one cycle. -/
theorem opAlu_rv32b_adder : ∀ p ∈ opRv32b, ∀ rv32m bt first,
    opAdderOff p.1 p.2 = true → ¬ opAdderMissing .fast p.1 p.2 →
      (opAlu ⟨rv32m, true, bt⟩ first p.1 p.2).adderFree .slow = true := by
  decide +kernel

/-- So do the products and divisions, multiplier by multiplier. -/
theorem opAlu_rv32m_adder : ∀ f3 : BitVec 3, ∀ rv32b bt first,
    opAdderOff 0b0000001#7 f3 = true → ¬ opAdderMissing m 0b0000001#7 f3 →
      (opAlu ⟨true, rv32b, bt⟩ first 0b0000001#7 f3).adderFree m = true := by
  cases m <;> decide

/-- The ternary operations do not use the adder. -/
theorem opTernaryAlu_adder (b : BitVec 2) (f3 : BitVec 3) (hb : b.getLsbD 1 = true)
    (hf : (f3.extractLsb 1 0 : BitVec 2) = 0b01#2) :
    (opTernaryAlu b f3).any (fun a => !Alu.usesAdder a) = true := by
  revert b f3
  decide

/-- No ternary operation uses the adder. -/
theorem opAlu_ternary_adder {f7 : BitVec 7} {f3 : BitVec 3} (ht : opTernary f7 f3 = true)
    (hb : cfg.rv32b = true) (first : Bool) : (opAlu cfg first f7 f3).adderFree m = true := by
  simp only [opTernary, Bool.and_eq_true, beq_iff_eq] at ht
  have ha := opTernaryAlu_adder (f7.extractLsb 1 0) f3 (by simpa using ht.1) ht.2
  obtain ⟨a, ha, hu⟩ := (Option.any_eq_true _ _).mp ha
  simp only [opAlu, ht.1, hb, ha, if_true]
  simpa [AluOut.adderFree] using hu

/-- Every legal register-register operation with a low enable is off the adder, up to the
listed ones. -/
theorem opAlu_adderFree {f7 : BitVec 7} {f3 : BitVec 3} (hl : opIllegal cfg f7 f3 = false)
    (hoff : opAdderOff f7 f3 = true) (hm : ¬ opAdderMissing m f7 f3) (first : Bool) :
    (opAlu cfg first f7 f3).adderFree m = true := by
  have hfast : ¬ opAdderMissing .fast f7 f3 := fun h =>
    hm (h.imp_right (Or.imp_right (Or.imp_right fun h => absurd h.1 (by decide))))
  -- what is off the adder of the slow unit is off the adder of any
  have hslow : (opAlu cfg first f7 f3).adderFree .slow = true →
      (opAlu cfg first f7 f3).adderFree m = true := by
    simp only [AluOut.adderFree]
    split_ifs <;> simp
  obtain ⟨rv32m, rv32b, bt⟩ := cfg
  obtain ⟨ht, hb⟩ | h | ⟨h, rfl⟩ | ⟨rfl, rfl⟩ := op_cases hl
  · exact opAlu_ternary_adder ht hb first
  · exact hslow (opAlu_rv32i_adder _ h _ _ _ _ hoff hfast)
  · exact hslow (opAlu_rv32b_adder _ h _ _ _ hoff hfast)
  · exact opAlu_rv32m_adder f3 _ _ _ hoff hm

/-- The legal register-immediate operations other than addi, slti and sltiu are off the
adder. -/
theorem opImmAlu_adderFree {f7 : BitVec 7} {rs2 : BitVec 5} {f3 : BitVec 3}
    (hl : opImmIllegal cfg f7 rs2 f3 = false)
    (h3 : f3 ≠ 0b000#3 ∧ f3 ≠ 0b010#3 ∧ f3 ≠ 0b011#3) (first : Bool) :
    Alu.usesAdder (opImmAlu cfg first f7 rs2 f3).1 = false := by
  have hf3 : ∀ f : BitVec 3, f ≠ 0b000#3 ∧ f ≠ 0b010#3 ∧ f ≠ 0b011#3 →
      f = 0b001#3 ∨ f = 0b101#3 ∨ f = 0b100#3 ∨ f = 0b110#3 ∨ f = 0b111#3 := by decide
  obtain rfl | rfl | rfl | rfl | rfl := hf3 f3 h3
  · simp only [opImmAlu]
    cases hb : cfg.rv32b with
    | false => rfl
    | true =>
        simp only [opImmIllegal, hb] at hl
        simp only [if_true]
        split
        case h_7 => split <;> simp_all [Alu.usesAdder]
        all_goals first | rfl | simp_all [Alu.usesAdder]
  · simp only [opImmIllegal] at hl
    simp only [opImmAlu]
    cases hb : cfg.rv32b with
    | false => split_ifs <;> simp_all [Alu.usesAdder]
    | true =>
        simp only [if_true]
        split_ifs
        · rfl
        · split <;> simp_all [Alu.usesAdder]
  all_goals rfl

/-- Of the words that are not compressed only the listed ones need a closed adder. -/
theorem decodeC3_adder (hl : (mainDecodeRaw cfg true w).illegalInsn = false)
    (hm : ¬ (field62 w = 0b01100#5 ∧ opAdderMissing m (funct7 w) (funct3 w))) :
    AdderServed cfg m (decodeC3 w) := by
  cases ho : Opcode.ofBits (opcodeBits w) with
  | none => simp [mainDecodeRaw, ho] at hl
  | some o =>
      have hf := field62_of_opcode ho
      cases o
      case opImm =>
        by_cases h3 : funct3 w ≠ 0b000#3 ∧ funct3 w ≠ 0b010#3 ∧ funct3 w ≠ 0b011#3
        · have hli : opImmIllegal cfg (funct7 w) (regS2 w) (funct3 w) = false := by
            simpa [mainDecodeRaw, ho] using hl
          exact Or.inr (adderFree_opImm m ho (opImmAlu_adderFree hli h3))
        · refine Or.inl ?_
          have hv : funct3 w = 0b000#3 ∨ funct3 w = 0b010#3 ∨ funct3 w = 0b011#3 := by tauto
          obtain hv | hv | hv := hv <;>
            simp [CompressedOut.adderEnable, decodeC3, hf, Opcode.bits, hv]
      case op =>
        have hlo : opIllegal cfg (funct7 w) (funct3 w) = false := by
          simpa [mainDecodeRaw, ho] using hl
        have hmo : ¬ opAdderMissing m (funct7 w) (funct3 w) := by
          simpa [hf, Opcode.bits] using hm
        cases hoff : opAdderOff (funct7 w) (funct3 w) with
        | true => exact Or.inr (adderFree_op ho (opAlu_adderFree hlo hoff hmo))
        | false =>
            refine Or.inl ?_
            have hbit : w.getLsbD 25 = (funct7 w).getLsbD 0 := by simp [funct7]
            simp only [opAdderOff, Bool.or_eq_false_iff] at hoff
            simp_all [CompressedOut.adderEnable, decodeC3, Opcode.bits]
            tauto
      all_goals
        exact Or.inl (by simp [CompressedOut.adderEnable, decodeC3, hf, Opcode.bits])

/-- Every accepted word but the listed ones is served. -/
theorem adderServed (h : Accepts cfg w) (hm : ¬ AdderMaskMissing m w) :
    AdderServed cfg m (compressedDecoder w) := by
  obtain hq | hq | hq | hq := quadrant_cases w
  · rw [compressedDecoder_c0 hq]
    exact decodeC0_adder
  · rw [compressedDecoder_c1 hq]
    exact decodeC1_adder
  · rw [compressedDecoder_c2 hq]
    exact decodeC2_adder
  · have hl := (accepts_iff.mp h).2
    rw [compressedDecoder_c3 hq] at hl ⊢
    exact decodeC3_adder hl (by simpa [AdderMaskMissing, hq] using hm)

end CocoIbex
