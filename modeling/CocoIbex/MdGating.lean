import CocoIbex.AdderUse
import CocoIbex.MultdivRun
import CocoIbex.Rv32Decode

/-!
# The Gated Multiplier

With `MD_SECURE` the operands of the fast multiplier and divider and the answers of the adder to
it are masked with an enable from the compressed decoder. The enable is set for every word that
selects the unit (`mdEnable_or_mdFree`), and stays with it in ID; without an instruction for it
the unit stands still. So the masked block runs as the one without masks.

The unit has state, and so a mask could do harm behind the instruction that it is set for. The
two blocks are therefore run beside each other, over all instructions: `Aligned` says that they
are in the same state, and that the enable in ID is the one of the word that is there. A cycle
in which the enable is low has no instruction for the unit, which then keeps its registers and
the intermediate value whatever its operands are.

## Main results

* `mdEnable_or_mdFree` — every accepted word has its enable or does without the unit;
* `step_disabled` — a unit that is not enabled keeps its registers;
* `md_gating_transparent` — in every run the two blocks go through the same states, and have the
  same outputs for the instruction in ID.
-/

namespace CocoIbex

open Machine Rv32

/-! ### The enable of a word -/

/-- The instruction never selects the multiplier and divider. -/
def MdFree (i : BitVec 32) : Prop :=
  ∀ cfg first bt,
    (aluDecode cfg first bt i).multSel = false ∧ (aluDecode cfg first bt i).divSel = false

/-- Only register-register operations do. -/
theorem mdFree_of_opcode {i : BitVec 32} (h : Opcode.ofBits (opcodeBits i) ≠ some .op) :
    MdFree i := by
  intro cfg first bt
  cases ho : Opcode.ofBits (opcodeBits i) with
  | none => simp [aluDecode, ho]
  | some o =>
      cases o with
      | op => exact absurd ho h
      | opImm | load | lui | auipc => simp [aluDecode, ho, pcPlus]
      | miscMem =>
          simp only [aluDecode, ho, pcPlus]
          split
          case h_2 => split_ifs <;> exact ⟨rfl, rfl⟩
          all_goals exact ⟨rfl, rfl⟩
      | _ =>
          simp only [aluDecode, ho, pcPlus]
          split_ifs <;> exact ⟨rfl, rfl⟩

/-- Of these the ones with this funct7. -/
theorem mdFree_of_funct7 {i : BitVec 32} (ho : Opcode.ofBits (opcodeBits i) = some .op)
    (h : funct7 i ≠ 0b0000001#7) : MdFree i := by
  intro cfg first bt
  simp only [aluDecode, ho, opAlu, h, if_false]
  split
  · split_ifs
    · split <;> exact ⟨rfl, rfl⟩
    · exact ⟨rfl, rfl⟩
  · split
    · exact ⟨rfl, rfl⟩
    · split
      · split_ifs <;> exact ⟨rfl, rfl⟩
      · exact ⟨rfl, rfl⟩

/-- A word that is not of full length in its last two bits is no product or division. -/
theorem mdFree_of_quadrant {w : BitVec 32} (h : quadrant w ≠ 0b11#2) : MdFree w :=
  mdFree_of_opcode (by simp [ofBits_of_quadrant h])

variable {w : BitVec 32}

/-- Quadrant C0 has no product and no division. -/
theorem decodeC0_mdFree (h : quadrant w ≠ 0b11#2) : MdFree (decodeC0 w).instr := by
  simp only [decodeC0]
  split
  case h_4 => exact mdFree_of_quadrant h
  all_goals exact mdFree_of_opcode (by simp)

/-- Neither have the register operations of quadrant C1. -/
theorem decodeC1Reg_mdFree (h : quadrant w ≠ 0b11#2) : MdFree (decodeC1Reg w).instr := by
  simp only [decodeC1Reg]
  split
  case h_5 => exact mdFree_of_quadrant h
  all_goals exact mdFree_of_funct7 (by simp) (by simp)

/-- Neither have the other operations of quadrant C1. -/
theorem decodeC1Arith_mdFree (h : quadrant w ≠ 0b11#2) : MdFree (decodeC1Arith w).instr := by
  simp only [decodeC1Arith]
  split
  case h_4 => exact decodeC1Reg_mdFree h
  all_goals exact mdFree_of_opcode (by simp)

/-- Neither has quadrant C1 as a whole. -/
theorem decodeC1_mdFree (h : quadrant w ≠ 0b11#2) : MdFree (decodeC1 w).instr := by
  simp only [decodeC1]
  split
  case h_6 => exact decodeC1Arith_mdFree h
  case h_5 =>
    simp only [decodeC1Lui]
    split_ifs <;> exact mdFree_of_opcode (by simp)
  all_goals exact mdFree_of_opcode (by simp)

/-- Neither has quadrant C2. -/
theorem decodeC2_mdFree (h : quadrant w ≠ 0b11#2) : MdFree (decodeC2 w).instr := by
  simp only [decodeC2]
  split
  case h_3 =>
    simp only [decodeC2Arith]
    split_ifs
    · exact mdFree_of_funct7 (by simp) (by simp)
    · exact mdFree_of_opcode (by simp)
    · exact mdFree_of_funct7 (by simp) (by simp)
    · exact mdFree_of_opcode (by decide)
    · exact mdFree_of_opcode (by simp)
  case h_5 => exact mdFree_of_quadrant h
  all_goals exact mdFree_of_opcode (by simp)

/-- The enable is decoded from the major opcode and bit 25. -/
theorem decodeC3_mdEnable (ho : Opcode.ofBits (opcodeBits w) = some .op)
    (h7 : funct7 w = 0b0000001#7) : (decodeC3 w).mdEnable = true := by
  have hbit : w.getLsbD 25 = (funct7 w).getLsbD 0 := by simp [funct7]
  simp [decodeC3, field62_of_opcode ho, Opcode.bits, hbit, h7]

/-- **Every word that selects the unit has its enable.** -/
theorem mdEnable_or_mdFree (w : BitVec 32) :
    (compressedDecoder w).mdEnable = true ∨ MdFree (compressedDecoder w).instr := by
  obtain hq | hq | hq | hq := quadrant_cases w
  · rw [compressedDecoder_c0 hq]
    exact Or.inr (decodeC0_mdFree (by rw [hq]; decide))
  · rw [compressedDecoder_c1 hq]
    exact Or.inr (decodeC1_mdFree (by rw [hq]; decide))
  · rw [compressedDecoder_c2 hq]
    exact Or.inr (decodeC2_mdFree (by rw [hq]; decide))
  · rw [compressedDecoder_c3 hq, decodeC3_instr]
    by_cases ho : Opcode.ofBits (opcodeBits w) = some .op
    · by_cases h7 : funct7 w = 0b0000001#7
      · exact Or.inl (decodeC3_mdEnable ho h7)
      · exact Or.inr (mdFree_of_funct7 ho h7)
    · exact Or.inr (mdFree_of_opcode ho)

/-- The word of an instruction of the M extension. -/
theorem mdEnable_mulDiv (f3 : BitVec 3) (rs2 rs1 rd : BitVec 5) :
    (compressedDecoder (Insn.mulDiv f3 rs2 rs1 rd).encode).mdEnable = true := by
  have hw : (Insn.mulDiv f3 rs2 rs1 rd).encode = encR 0b0000001#7 rs2 rs1 f3 rd .op := rfl
  have hq : quadrant (encR 0b0000001#7 rs2 rs1 f3 rd .op) = 0b11#2 := by
    by_contra hq
    have hnone := ofBits_of_quadrant hq
    simp at hnone
  rw [hw, compressedDecoder_c3 hq]
  exact decodeC3_mdEnable (by simp) (by simp)

/-! ### The block without the masks -/

namespace ExBlock.Unmasked

variable (cfg : Config) (m : Multiplier) (s : ExState m) (x : ExIn)

/-- The inputs of the multiplier and divider. -/
def multdivIn : MultdivIn where
  multEn := x.multEn
  divEn := x.divEn
  multSel := x.multSel
  divSel := x.divSel
  operator := x.multdivOperator
  signedMode := x.multdivSignedMode
  opA := x.multdivOperandA
  opB := x.multdivOperandB
  imdValQ := s.imdValQ
  multdivReadyId := x.multdivReadyId

/-- The inputs of the ALU. -/
def aluIn : AluIn :=
  let o := m.unit.aluOperands s.multdiv (multdivIn m s x)
  { ExBlock.aluIn cfg m s x with multdivOperandA := o.1, multdivOperandB := o.2 }

/-- The answer of the adder to the multiplier and divider. -/
def adderOut : AdderOut :=
  let i := aluIn cfg m s x
  { ext := Alu.adderResultExt i
    result := Alu.adderResult i
    isEqual := Alu.isEqual i }

/-- The outputs and next registers of the multiplier and divider. -/
def multdiv : MultdivOut × m.unit.State :=
  m.unit.step s.multdiv (multdivIn m s x) (adderOut cfg m s x)

/-- The outputs of the block. -/
def outputs : ExOut :=
  let i := aluIn cfg m s x
  let md := (multdiv cfg m s x).1
  { aluAdderResultEx := Alu.adderResult i
    resultEx := if multdivSel cfg x then md.multdivResult else Alu.result cfg.rv32b i
    branchTarget :=
      if cfg.branchTargetALU then x.btAOperand + x.btBOperand else Alu.adderResult i
    branchDecision := Alu.cmpResult i
    exValid := if multdivSel cfg x then md.valid else !Alu.imdValWe cfg.rv32b i }

/-- One clock edge. -/
def next : ExState m :=
  let i := aluIn cfg m s x
  let md := multdiv cfg m s x
  let we := if multdivSel cfg x then md.1.imdValWe else Alu.imdValWe cfg.rv32b i
  let d := if multdivSel cfg x then md.1.imdValD else (Alu.imdValD cfg.rv32b i).setWidth 34
  { multdiv := md.2, imdValQ := if we then d else s.imdValQ }

variable {cfg x} {s : ExState .fast}

/-- With its enable set the unit sees the operands. -/
theorem multdivIn_eq (h : x.mdEnable = true) :
    ExBlock.multdivIn .fast s x = multdivIn .fast s x := by
  simp only [ExBlock.multdivIn, multdivIn, h, if_true, Bits.gate_true]

/-- With the enable the operands of the ALU are those of the ungated unit. -/
theorem aluIn_eq (h : x.mdEnable = true) : ExBlock.aluIn cfg .fast s x = aluIn cfg .fast s x := by
  simp only [aluIn, ← multdivIn_eq h]
  rfl

/-- The bit of the sum that the mask drops is not used. -/
theorem multdiv_eq (h : x.mdEnable = true) :
    ExBlock.multdiv cfg .fast s x = multdiv cfg .fast s x := by
  rw [ExBlock.multdiv, multdiv, multdivIn_eq h]
  refine MultdivFast.step_congr _ _ _ ?_ ?_ ?_
  · change (ExBlock.adderOut cfg .fast s x).ext.extractLsb' 1 32 = _
    simp only [ExBlock.adderOut, if_true, h, ExBlock.extract_mask, aluIn_eq h]
    rfl
  · simp only [ExBlock.adderOut, if_true, h, Bits.gate_true, aluIn_eq h]
    rfl
  · simp only [ExBlock.adderOut, aluIn_eq h]
    rfl

/-- With its enable set the block puts out the same. -/
theorem outputs_eq (h : x.mdEnable = true) :
    ExBlock.outputs cfg .fast s x = outputs cfg .fast s x := by
  simp only [ExBlock.outputs, outputs, multdiv_eq h, aluIn_eq h]

/-- With the enable the unit steps as the ungated one. -/
theorem next_eq (h : x.mdEnable = true) :
    ExBlock.next cfg .fast s x = next cfg .fast s x := by
  simp only [ExBlock.next, next, multdiv_eq h, aluIn_eq h]

/-- A unit that is not enabled keeps its registers and the intermediate value. -/
theorem step_disabled {μ : Type} (mult : μ → MultdivIn → MultdivFast.MultOut μ)
    (s : MultdivFast.State μ) {x : MultdivIn} (a : AdderOut) (hm : x.multEn = false)
    (hd : x.divEn = false) :
    (MultdivFast.step mult s x a).2 = s ∧ (MultdivFast.step mult s x a).1.imdValWe = false := by
  simp only [MultdivFast.step, hm, hd, Bool.false_and, Bool.false_eq_true, if_false, Bool.or_false,
    and_self]

/-- A block whose unit is not enabled goes on as without the masks. -/
theorem next_eq_of_disabled (hm : x.multEn = false) (hd : x.divEn = false) :
    ExBlock.next cfg .fast s x = next cfg .fast s x := by
  have hmasked : (ExBlock.multdiv cfg .fast s x).2 = s.multdiv ∧
      (ExBlock.multdiv cfg .fast s x).1.imdValWe = false := step_disabled _ _ _ hm hd
  have hplain : (multdiv cfg .fast s x).2 = s.multdiv ∧
      (multdiv cfg .fast s x).1.imdValWe = false := step_disabled _ _ _ hm hd
  have hwe : Alu.imdValWe cfg.rv32b (ExBlock.aluIn cfg .fast s x)
      = Alu.imdValWe cfg.rv32b (aluIn cfg .fast s x) := rfl
  have hval : Alu.imdValD cfg.rv32b (ExBlock.aluIn cfg .fast s x)
      = Alu.imdValD cfg.rv32b (aluIn cfg .fast s x) := rfl
  simp only [ExBlock.next, next, hmasked, hplain, hwe, hval]
  cases multdivSel cfg x with
  | false => simp only [Bool.false_eq_true, if_false]
  | true => simp only [if_true, Bool.false_eq_true, if_false]

end ExBlock.Unmasked

/-! ### From IF to EX -/

/-- The pipeline registers before ID and the block in EX. -/
structure MdPath where
  ifId : IfIdReg
  ex : ExState .fast

/-- What both see in one cycle: the fetch, the ID stage but for its instruction, the operands,
and the enable of the adder. -/
structure MdCycle where
  ifId : IfIdIn
  fsm : IdFsm
  id : IdIn
  data : ExData
  adderEnable : Bool

namespace MdPath

variable (cfg : Config) (t : MdPath) (c : MdCycle)

/-- The cycle of the ID stage with the instruction of the pipeline registers. -/
def idIn : IdIn :=
  { c.id with
    instrValid := t.ifId.instrValidId
    instr := t.ifId.instrRdataId
    illegalCInsn := t.ifId.illegalCInsnId }

/-- The inputs of the block, with the registered enable. -/
def exIn : ExIn := CocoIbex.exIn cfg t.ifId c.adderEnable c.fsm (idIn t c) c.data

/-- One clock edge. -/
def next : MdPath := ⟨t.ifId.next c.ifId, ExBlock.next cfg .fast t.ex (exIn cfg t c)⟩

/-- One clock edge without the masks. -/
def nextUnmasked : MdPath :=
  ⟨t.ifId.next c.ifId, ExBlock.Unmasked.next cfg .fast t.ex (exIn cfg t c)⟩

/-- A valid instruction in ID comes with the enables of its word. -/
def Aligned (t : MdPath) : Prop :=
  t.ifId.instrValidId = true → ∃ w, t.ifId = IfIdReg.ofWord w

variable {cfg t c}

/-- The registers that count stay the same in both units, whatever the others are. -/
theorem Aligned.next (h : t.Aligned) : (next cfg t c).Aligned := by
  intro hv
  by_cases hs : t.ifId.instrValidId = true
  · obtain ⟨w, hw⟩ := h hs
    exact ⟨_, IfIdReg.next_eq_ofWord c.ifId (fun _ => hw) hv⟩
  · exact ⟨_, IfIdReg.next_eq_ofWord (w := c.ifId.fetchRdata) c.ifId (fun h => absurd h hs) hv⟩

/-- Where the unit is not enabled. -/
theorem exIn_disabled (h : t.ifId.instrValidId = false ∨ MdFree t.ifId.instrRdataId) :
    (exIn cfg t c).multEn = false ∧ (exIn cfg t c).divEn = false := by
  obtain h | h := h
  · have hex : IdStage.instrExecuting (idIn t c) = false := by
      simp [IdStage.instrExecuting, idIn, h]
    simp only [exIn, CocoIbex.exIn, hex, Bool.false_and, and_self]
  · obtain ⟨hm, hd⟩ := h cfg (IdStage.instrFirstCycle c.fsm (idIn t c)) (idIn t c).branchTaken
    have hm' : (IdStage.alu cfg c.fsm (idIn t c)).multSel = false := hm
    have hd' : (IdStage.alu cfg c.fsm (idIn t c)).divSel = false := hd
    simp only [exIn, CocoIbex.exIn, hm', hd', Bool.and_false, and_self]

/-- One cycle with the masks is one without. -/
theorem Aligned.next_eq (h : t.Aligned) : MdPath.next cfg t c = nextUnmasked cfg t c := by
  have hex : ExBlock.next cfg .fast t.ex (exIn cfg t c)
      = ExBlock.Unmasked.next cfg .fast t.ex (exIn cfg t c) := by
    cases hv : t.ifId.instrValidId with
    | false =>
        have hoff := @exIn_disabled cfg t c (Or.inl hv)
        exact ExBlock.Unmasked.next_eq_of_disabled hoff.1 hoff.2
    | true =>
        obtain ⟨w, hw⟩ := h hv
        obtain hen | hfree := mdEnable_or_mdFree w
        · refine ExBlock.Unmasked.next_eq ?_
          rw [exIn, hw]
          exact hen
        · have hoff := @exIn_disabled cfg t c (Or.inr (by rw [hw]; exact hfree))
          exact ExBlock.Unmasked.next_eq_of_disabled hoff.1 hoff.2
  rw [MdPath.next, nextUnmasked, hex]

end MdPath

/-- **The secure multiplier.** In every run the masked block goes through the same states as
the one without masks, whatever it did before; and in every cycle with a valid instruction of
the M extension in ID its enable is set, and the block puts out the same. -/
theorem md_gating_transparent (cfg : Config) (r : IfIdReg) (hr : r.instrValidId = false)
    (s : ExState .fast) (cs : List MdCycle) :
    run (MdPath.next cfg) ⟨r, s⟩ cs = run (MdPath.nextUnmasked cfg) ⟨r, s⟩ cs ∧
    ∀ (op : MulDiv) (rs2 rs1 rd : BitVec 5) (c : MdCycle),
      let t := run (MdPath.next cfg) ⟨r, s⟩ cs
      IfIdReg.lastWord (cs.map MdCycle.ifId) = some (Insn.mulDiv op.funct3 rs2 rs1 rd).encode →
      t.ifId.instrValidId = true →
        t.ifId.mdEnable = true ∧
        ExBlock.outputs cfg .fast t.ex (t.exIn cfg c)
          = ExBlock.Unmasked.outputs cfg .fast t.ex (t.exIn cfg c) := by
  constructor
  · refine run_congr MdPath.Aligned (fun t c h => h.next) (fun t c h => h.next_eq) ?_ cs
    intro hv
    rw [hr] at hv
    cases hv
  · intro op rs2 rs1 rd c t hlast hv
    have hmap : t.ifId = run IfIdReg.next r (cs.map MdCycle.ifId) :=
      run_map MdPath.ifId MdCycle.ifId (fun _ _ => rfl) _ _
    obtain ⟨w, hw, hof⟩ := IfIdReg.ifId_valid hr (cs.map MdCycle.ifId) (by rw [← hmap, hv])
    have hen : t.ifId.mdEnable = true := by
      rw [hlast] at hw
      rw [hmap, hof, ← Option.some.inj hw]
      exact mdEnable_mulDiv _ _ _ _
    exact ⟨hen, ExBlock.Unmasked.outputs_eq hen⟩

/-- The fetch of `mulh x1, x2, x3`, with operands in EX. -/
def mulhCycle : MdCycle where
  ifId := .fetch 0x023110b3#32
  fsm := .firstCycle
  id := lastCycle .reset false
  data := ⟨0#32, 0#32, 0#32, 0#32, 0x80000000#32, 0x80000000#32, true⟩
  adderEnable := true

/-- `mulh x1, x2, x3` in ID, after one fetch. -/
theorem md_gating_transparent_mulh :
    run (MdPath.next ⟨true, false, false⟩) ⟨.reset, ExBlock.reset .fast⟩ [mulhCycle]
        = run (MdPath.nextUnmasked ⟨true, false, false⟩) ⟨.reset, ExBlock.reset .fast⟩ [mulhCycle] ∧
      (run (MdPath.next ⟨true, false, false⟩) ⟨.reset, ExBlock.reset .fast⟩
        [mulhCycle]).ifId.mdEnable = true := by
  have h := md_gating_transparent ⟨true, false, false⟩ .reset rfl (ExBlock.reset .fast) [mulhCycle]
  exact ⟨h.1, (h.2 .mulh 3#5 2#5 1#5 mulhCycle (by decide) (by decide)).1⟩

end CocoIbex
