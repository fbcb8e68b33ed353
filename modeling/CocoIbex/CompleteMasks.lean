import CocoIbex.FetchedInsn
import CocoIbex.ReadGating
import CocoIbex.WholeExec
import CocoIbex.WriteGating

/-!
# Complete Masks

The whole hart of a secure build, with an instruction of RV32IM in ID for which the masks of the
register write and of the adder are complete. The other masks are complete for all of them:
every register that such an instruction uses is read, and the shifter, the multiplier and the
divider are open to it. So the hart takes from EX what the datapath takes, and the register file
stores what a register file without masks stores.

This is where the results on the single masks meet. Each of them says for one unit which words
its mask gets in the way of; `Complete` asks of an instruction that it is none of these, and
`CompleteAt` asks it of the instruction at an address, be it compressed or not. A program all of
whose instructions are complete then executes in a secure build as it does in a plain one.

## Main results

* `rfRdata` — the operand muxes have the registers that the instruction names;
* `Decodes.served` — with complete masks the hart takes from EX what the datapath takes.
-/

namespace CocoIbex

open Rv32

/-- The masks of the build are complete for the fetched word `w`. -/
structure Complete (P : WholeParams) (m : Multiplier) (w : BitVec 32) : Prop where
  write : P.regwriteSecure = true → ¬ WriteMaskMissing w
  adder : P.adderSecure = true → ¬ AdderMaskMissing m w

/-- The masks are complete for the instruction at `pc`. -/
def CompleteAt (P : WholeParams) (m : Multiplier) (rom : FetchMem) (pc : BitVec 31) : Prop :=
  ∀ w, WordAt rom pc w → Complete P m w

/-! ### The decode -/

/-- An instruction of RV32IM has two sources. -/
theorem ternary_encode (i : ImInsn) : ternary i.encode = false := by
  cases i with
  | mulDiv op rs2 rs1 rd =>
      change ternary (mulDivWord op rs2 rs1 rd) = false
      simp [ternary, mulDivWord, opTernary]
  | base i =>
      change ternary i.encode = false
      rw [encode_base]
      cases i with
      | opImm o => cases o <;> simp [ternary, baseWord, ImmOp.funct3]
      | shiftImm o => cases o <;> simp [ternary, baseWord, Shift.funct3, Shift.funct7]
      | op o =>
          have h : opTernary o.funct7 o.funct3 = false := by
            revert o
            decide
          simp [ternary, baseWord, h]
      | _ => simp [ternary, baseWord]

/-- The register at port a is its first source. -/
theorem rfRaddrA_encode (cfg : Config) (first branchTaken : Bool) (i : ImInsn) :
    rfRaddrA cfg first branchTaken i.encode = regS1 i.encode := by
  rw [rfRaddrA_eq, ternary_encode]
  rfl

/-- With the system opcode it is a call. -/
theorem funct3_of_system (i : ImInsn) (h : Opcode.ofBits (opcodeBits i.encode) = some .system) :
    funct3 i.encode = 0b000#3 := by
  cases i with
  | mulDiv op rs2 rs1 rd =>
      change Opcode.ofBits (opcodeBits (mulDivWord op rs2 rs1 rd)) = _ at h
      simp [mulDivWord] at h
  | base i =>
      change Opcode.ofBits (opcodeBits i.encode) = _ at h
      change funct3 i.encode = _
      rw [encode_base] at h ⊢
      cases i with
      | ecall | ebreak => rfl
      | _ => simp [baseWord] at h

/-- Every register that it uses is read. -/
theorem not_readMaskMissing {cfg : Config} {w : BitVec 32} (hacc : Accepts cfg w) {i : ImInsn}
    (hi : (compressedDecoder w).instr = i.encode) : ¬ ReadMaskMissing w := by
  rintro ⟨hq, hsys⟩
  obtain ⟨-, hl⟩ := accepts_iff.mp hacc
  rw [compressedDecoder_c3 hq, decodeC3_instr] at hi hl
  rw [hi] at hsys hl
  obtain ⟨hf, h3, -⟩ | ⟨ht, -⟩ := hsys
  · cases ho : Opcode.ofBits (opcodeBits i.encode) with
    | none => simp [mainDecodeRaw, ho] at hl
    | some o =>
        have hf' := field62_of_opcode ho
        rw [hf] at hf'
        cases o with
        | system => exact h3 (funct3_of_system i ho)
        | _ => exact absurd hf' (by decide)
  · rw [ternary_encode] at ht
    cases ht

/-- What an instruction of RV32I takes from EX rests on the registers that it reads. -/
theorem mainOf_reads (cfg : Config) (first : Bool) (i : Base)
    (hu : (mainOf cfg first i).rfWe = true ∨ (mainOf cfg first i).jumpInDec = true ∨
      (mainOf cfg first i).branchInDec = true) :
    ((aluOf cfg first i).aluOpAMuxSel = .regA ∨ (aluOf cfg first i).btAMuxSel = .regA →
        (mainOf cfg first i).rfRenA = true) ∧
      ((aluOf cfg first i).aluOpBMuxSel = .regB → (mainOf cfg first i).rfRenB = true) := by
  cases i with
  | jal | jalr | branch =>
      cases first <;> cases hbt : cfg.branchTargetALU <;> simp [aluOf, mainOf, pcPlus, hbt]
  | _ => simp [aluOf, mainOf, pcPlus] at hu ⊢

namespace OperandIn

variable {a : AluOut} {o : OperandIn} {va vb : BitVec 32}

/-- The operands with other values of registers that they do not use. -/
theorem operands_congr (cfg : Config)
    (hA : a.aluOpAMuxSel = .regA ∨ a.btAMuxSel = .regA → va = o.rfRdataA)
    (hB : a.aluOpBMuxSel = .regB → vb = o.rfRdataB) :
    let o' := { o with rfRdataA := va, rfRdataB := vb }
    aluOperandA a o' = aluOperandA a o ∧ aluOperandB cfg a o' = aluOperandB cfg a o ∧
      btAOperand cfg a o' = btAOperand cfg a o ∧ btBOperand cfg a o' = btBOperand cfg a o := by
  refine ⟨?_, ?_, ?_, rfl⟩
  · simp only [aluOperandA, aluOpAMuxSel]
    cases hi : o.lsuAddrIncrReq with
    | true => rfl
    | false =>
        cases hs : a.aluOpAMuxSel with
        | regA => exact hA (Or.inl hs)
        | _ => rfl
  · have himm : immB cfg a { o with rfRdataA := va, rfRdataB := vb } = immB cfg a o := rfl
    have hsel : aluOpBMuxSel a { o with rfRdataA := va, rfRdataB := vb } = aluOpBMuxSel a o := rfl
    simp only [aluOperandB, hsel, himm]
    split_ifs with hi
    · rfl
    · refine hB ?_
      rw [aluOpBMuxSel] at hi
      split_ifs at hi
      · exact absurd rfl hi
      · cases hs : a.aluOpBMuxSel with
        | regB => rfl
        | imm => exact absurd hs hi
  · simp only [btAOperand]
    cases hs : a.btAMuxSel with
    | regA => rw [hA (Or.inr hs)]
    | _ => rfl

end OperandIn

/-! ### The hart -/

namespace ExBlock

/-- The adder is open. -/
theorem withAdder_self {x : ExIn} (h : x.adderEnable = true) : withAdder x true = x := by
  obtain ⟨⟩ := x
  cases h
  rfl

/-- The shifter is open. -/
theorem withShift_self {x : ExIn} (h : x.shiftEnable = true) : withShift x true = x := by
  obtain ⟨⟩ := x
  cases h
  rfl

end ExBlock

namespace WholeHart

variable {n : ℕ} {m : Multiplier} {P : WholeParams} {h : WholeHart n m} {x : WholeIn}
  {w : BitVec 32} {i : ImInsn}

/-- The instruction `i` executes in ID, fetched as the word `w`. -/
structure Decodes (h : WholeHart n m) (w : BitVec 32) (i : ImInsn) : Prop where
  executing : Core.Executing h.core
  ifId : h.core.ifId = IfIdReg.ofWord w
  instr : (compressedDecoder w).instr = i.encode
  legalC : (compressedDecoder w).illegalInstr = false

namespace Decodes

variable (hd : Decodes h w i)

include hd

/-- An instruction that is decoded runs in the hart. -/
theorem runs : Runs h := ⟨hd.executing, by rw [hd.ifId]; exact hd.legalC⟩

/-- The word in ID is the encoding of the instruction. -/
theorem instrRdataId : h.core.ifId.instrRdataId = i.encode := by
  rw [hd.ifId]
  exact hd.instr

/-- The registers are those of the word. -/
theorem inId : InId (IfIdReg.ofWord w) (h.decIn P) := by
  rw [← hd.ifId]
  exact ⟨rfl, rfl, rfl⟩

omit hd in
/-- The word is accepted. -/
theorem accepts (hd : Decodes h w i) (hM : P.rv32m = true) (hn : NoTrap i) : Accepts P.cfg w := by
  rw [Accepts, hd.legalC, hd.instr]
  exact (plain_encode hM true hn).illegalInsn

variable (hM : P.rv32m = true) (hn : NoTrap i)

include hM hn

/-- The ports in use have the sources of the instruction. -/
theorem ports : ((Core.main P.cfg h.core).rfRenA = true →
      h.arch.rf.readSecure h.core.ifId.rfReadEnableA = h.arch.rf.read (regS1 i.encode)) ∧
    ((Core.main P.cfg h.core).rfRenB = true →
      h.arch.rf.readSecure h.core.ifId.rfReadEnableB = h.arch.rf.read (regS2 i.encode)) := by
  have hacc := hd.accepts hM hn
  have hread := (readTransparent_iff hacc).mpr
    ((readEnabled_iff hacc).mpr (not_readMaskMissing hacc hd.instr))
  obtain ⟨hA, hB⟩ := hread h.core.idFsm (h.decIn P) h.arch.rf hd.inId
  have hinstr : (h.decIn P).instr = i.encode := hd.instrRdataId
  rw [← hd.ifId, hinstr, rfRaddrA_encode] at hA
  rw [← hd.ifId, hinstr] at hB
  exact ⟨hA, hB⟩

/-- So have the operand muxes. -/
theorem rfRdata : ((Core.main P.cfg h.core).rfRenA = true → h.rfRdataA P
      = (Datapath.operands P.cfg h.idInsn h.datapath (h.datapathIn P x)).rfRdataA) ∧
    ((Core.main P.cfg h.core).rfRenB = true → h.rfRdataB P
      = (Datapath.operands P.cfg h.idInsn h.datapath (h.datapathIn P x)).rfRdataB) := by
  obtain ⟨hA, hB⟩ := hd.ports hM hn
  refine ⟨fun hr => ?_, fun hr => ?_⟩
  · have hplain : (Datapath.operands P.cfg h.idInsn h.datapath (h.datapathIn P x)).rfRdataA
        = h.arch.rf.read (regS1 i.encode) := by
      simp only [Datapath.operands, idInsn, hd.instrRdataId, rfRaddrA_encode]
    rw [rfRdataA, hd.instrRdataId, rfRaddrA_encode, hA hr, ite_self, hplain]
  · have hplain : (Datapath.operands P.cfg h.idInsn h.datapath (h.datapathIn P x)).rfRdataB
        = h.arch.rf.read (regS2 i.encode) := by
      simp only [Datapath.operands, idInsn, hd.instrRdataId]
      rfl
    rw [rfRdataB, hB hr, hplain, hd.instrRdataId]
    exact ite_self _

/-- The base of a load or store. -/
theorem memBase (hr : (Core.main P.cfg h.core).rfRenA = true) :
    h.memBase P = h.arch.rf.read (regS1 i.encode) := by
  rw [WholeHart.memBase, (hd.ports hM hn).1 hr, hd.instrRdataId, ite_self]

/-- The mask of the adder makes no difference. -/
theorem agree_adder (hc : Complete P m w) : ExBlock.Agree P.cfg m h.ex (Core.main P.cfg h.core)
    (h.exIn P) (ExBlock.withAdder (h.exIn P) true) := by
  have hacc := hd.accepts hM hn
  cases he : (h.exIn P).adderEnable with
  | true => exact .of_eq (ExBlock.withAdder_self he).symm
  | false =>
      have he' : (!P.adderSecure || h.core.ifId.adderEnable) = false := he
      simp only [Bool.or_eq_false_iff, Bool.not_eq_false', hd.ifId] at he'
      obtain ⟨hs, hoff⟩ := he'
      obtain hen | hfree := adderServed hacc (hc.adder hs)
      · have hen' : (IfIdReg.ofWord w).adderEnable = true := hen
        rw [hoff] at hen'
        cases hen'
      · have hex := hfree.ex true h.core.idFsm (x := h.decIn P)
          ⟨(h.exIn P).aluOperandA, (h.exIn P).aluOperandB, (h.exIn P).btAOperand,
            (h.exIn P).btBOperand, (h.exIn P).multdivOperandA, (h.exIn P).multdivOperandB, true⟩
          hd.inId
        have hex' : ExBlock.AdderFree P.cfg m (h.exIn P) :=
          ⟨hex.divSel, hex.divEn, hex.slow, hex.alu⟩
        have hmain : IdStage.main P.cfg h.core.idFsm (h.decIn P) = mainDecodeRaw P.cfg
            (IdStage.instrFirstCycle h.core.idFsm (h.decIn P)) (compressedDecoder w).instr :=
          main_of_inId hacc hd.inId
        rw [decIn_main] at hmain
        obtain ⟨-, hj, hb⟩ := hfree.main (IdStage.instrFirstCycle h.core.idFsm (h.decIn P))
        rw [← hmain] at hj hb
        exact hex'.agree hj hb true

/-- Nor does the mask of the shifter. -/
theorem agree_shift {y : ExIn} (hop : y.aluOperator = (h.exIn P).aluOperator)
    (hs : y.shiftEnable = (h.exIn P).shiftEnable) :
    ExBlock.Agree P.cfg m h.ex (Core.main P.cfg h.core) y (ExBlock.withShift y true) := by
  have hacc := hd.accepts hM hn
  cases hu : Alu.usesShifter y.aluOperator with
  | false => exact ExBlock.agree_withShift hu true
  | true =>
      have halu : IdStage.alu P.cfg h.core.idFsm (h.decIn P) = _ := alu_of_inId hd.inId
      have hop' : (h.exIn P).aluOperator
          = (IdStage.alu P.cfg h.core.idFsm (h.decIn P)).aluOperator := rfl
      rw [hop, hop', halu] at hu
      have hen : (IfIdReg.ofWord w).shiftEnable = true := shiftEnable_of_usesShifter hacc hu
      refine .of_eq (ExBlock.withShift_self ?_).symm
      have hse : (h.exIn P).shiftEnable = (!P.shiftSecure || h.core.ifId.shiftEnable) := rfl
      rw [hs, hse, hd.ifId, hen, Bool.or_true]

/-- With both masks off. -/
theorem agree_masks (hc : Complete P m w) : ExBlock.Agree P.cfg m h.ex (Core.main P.cfg h.core)
    (h.exIn P) (ExBlock.withShift (ExBlock.withAdder (h.exIn P) true) true) :=
  (hd.agree_adder hM hn hc).trans
    (hd.agree_shift hM hn (y := ExBlock.withAdder (h.exIn P) true) rfl rfl)

end Decodes

/-! ### The instructions -/

/-- A multiplication or division is served. -/
theorem served_mulDiv {op : MulDiv} {rs2 rs1 rd : BitVec 5}
    (hd : Decodes h w (.mulDiv op rs2 rs1 rd)) (hM : P.rv32m = true) (hc : Complete P m w) :
    Served P h x := by
  have hM' : P.cfg.rv32m = true := hM
  have hword : h.idInsn.instr = mulDivWord op rs2 rs1 rd := hd.instrRdataId
  have hmain : Core.main P.cfg h.core = _ := (hd.runs.main (x := x) false false).trans
    (Datapath.main_mulDiv hM' op rs2 rs1 rd hword false false)
  obtain ⟨hA, hB⟩ := hd.rfRdata hM trivial (x := x)
  have hA := hA (by rw [hmain])
  have hB := hB (by rw [hmain])
  have hmd : (!P.mdSecure || h.core.ifId.mdEnable) = true := by
    obtain hen | hfree := mdEnable_or_mdFree w
    · rw [hd.ifId]
      exact Bool.or_eq_true_iff.mpr (Or.inr hen)
    · obtain ⟨hmul, hdiv⟩ := hfree P.cfg true true
      have halu := aluDecode_mulDiv hM' op rs2 rs1 rd true true
      rw [hd.instr] at hmul hdiv
      have hmul' := (congrArg AluOut.multSel halu).symm.trans hmul
      have hdiv' := (congrArg AluOut.divSel halu).symm.trans hdiv
      cases hop : op.isDiv <;> simp [hop] at hmul' hdiv'
  refine (hd.agree_masks hM trivial hc).trans (.of_eq ?_)
  rw [exIn_eq hd.runs (x := x)]
  simp only [hA, hB, hmd, ExBlock.withShift, ExBlock.withAdder]
  rfl

/-- So is an instruction of RV32I. -/
theorem served_base {i : Base} (hd : Decodes h w (.base i)) (hM : P.rv32m = true)
    (hn : NoTrap (.base i)) (hdit : (h.datapathIn P x).dataIndTiming = false)
    (hc : Complete P m w) : Served P h x := by
  have hinsn : h.idInsn = idInstr i h.core.ifId.instrIsCompressedId h.core.pcId h.arch.rf.read := by
    rw [idInsn, hd.instrRdataId]
    rfl
  have halu : Datapath.alu P.cfg h.idInsn h.datapath (h.datapathIn P x)
      = aluOf P.cfg (h.core.idFsm == .firstCycle) i := by
    rw [hinsn]
    exact Datapath.alu_base _ _ _ _ _ _ hdit
  have hmain : Core.main P.cfg h.core = mainOf P.cfg (h.core.idFsm == .firstCycle) i := by
    have hraw : Core.main P.cfg h.core = _ := hd.runs.main (x := x) false false
    rw [hinsn] at hraw
    exact hraw.trans (Datapath.main_base _ _ _ _ _ _ _ _)
  obtain ⟨hmult, hdiv, -, -⟩ := Datapath.aluOf_plain P.cfg i (h.core.idFsm == .firstCycle)
  have hexIn := exIn_eq hd.runs (P := P) (x := x)
  have hwhole : IdStage.alu P.cfg h.core.idFsm (h.decIn P)
      = aluOf P.cfg (h.core.idFsm == .firstCycle) i := (hd.runs.alu (x := x)).trans halu
  have hidle : ExBlock.Idle P.cfg (h.exIn P) := by
    refine ⟨?_, ?_, ?_, fun y hy => ?_⟩
    · simp [exIn, CocoIbex.exIn, hwhole, hmult]
    · simp [exIn, CocoIbex.exIn, hwhole, hdiv]
    · simp [ExBlock.multdivSel, exIn, CocoIbex.exIn, hwhole, hmult, hdiv]
    · have hop : (h.exIn P).aluOperator
          = (aluOf P.cfg (h.core.idFsm == .firstCycle) i).aluOperator :=
        congrArg AluOut.aluOperator hwhole
      exact Datapath.imdValWe_aluOf P.cfg i _ (hy.trans hop)
  have hidle' : ExBlock.Idle P.cfg
      (Datapath.exIn P.cfg h.idInsn h.datapath (h.datapathIn P x)) := by
    rw [hexIn] at hidle
    exact ⟨hidle.multEn, hidle.divEn, hidle.sel, hidle.imdValWe⟩
  have hop : (h.exIn P).aluOperator
      = (Datapath.exIn P.cfg h.idInsn h.datapath (h.datapathIn P x)).aluOperator := by
    rw [hexIn]
  have hfirst : (h.exIn P).aluInstrFirstCycle
      = (Datapath.exIn P.cfg h.idInsn h.datapath (h.datapathIn P x)).aluInstrFirstCycle := by
    rw [hexIn]
  refine (hd.agree_masks hM hn hc).trans (ExBlock.Idle.agree
    ⟨hidle.multEn, hidle.divEn, hidle.sel, hidle.imdValWe⟩ hidle' hop (fun hu => ?_) hfirst rfl rfl)
  rw [hmain] at hu
  obtain ⟨hA, hB⟩ := hd.rfRdata hM hn (x := x)
  rw [hmain] at hA hB
  obtain ⟨hsA, hsB⟩ := mainOf_reads P.cfg (h.core.idFsm == .firstCycle) i hu
  rw [← halu] at hsA hsB
  obtain ⟨ha, hb, hba, hbb⟩ := OperandIn.operands_congr P.cfg (fun hs => hA (hsA hs))
    (fun hs => hB (hsB hs))
  exact ⟨(congrArg ExIn.aluOperandA hexIn).trans ha, (congrArg ExIn.aluOperandB hexIn).trans hb,
    (congrArg ExIn.btAOperand hexIn).trans hba, (congrArg ExIn.btBOperand hexIn).trans hbb⟩

/-- **Complete masks serve.** With complete masks the hart takes from EX what the datapath
takes. -/
theorem Decodes.served (hd : Decodes h w i) (hM : P.rv32m = true) (hn : NoTrap i)
    (hdit : (h.datapathIn P x).dataIndTiming = false) (hc : Complete P m w) : Served P h x := by
  cases i with
  | base i => exact served_base hd hM hn hdit hc
  | mulDiv op rs2 rs1 rd => exact served_mulDiv hd hM hc

/-! ### The register file -/

/-- A register that is written stores what it stores without masks. -/
theorem Decodes.rfNext (hd : Decodes h w i) (hM : P.rv32m = true) (hn : NoTrap i)
    (hc : Complete P m w)
    (hl : h.rfWeLsu P x = true → (Core.main P.cfg h.core).dataReq = true ∧
      (Core.main P.cfg h.core).dataWe = false) :
    h.arch.rfNext P.toArchParams (h.archIn P x)
      = h.arch.rf.write (h.arch.rfWeWb P.toArchParams (h.archIn P x))
        (rfWaddr h.core.ifId.instrRdataId) (h.arch.rfWdataWb P.toArchParams (h.archIn P x)) := by
  refine ArchHart.rfNext_eq_write (fun hs => ?_) hl
  have hacc := hd.accepts hM hn
  have hreg : h.arch.core.ifId = IfIdReg.ofWord w := hd.ifId
  rw [hreg]
  exact (writeTransparent_iff hacc).mpr ((writeEnabled_iff hacc).mpr (hc.write hs))

end WholeHart

end CocoIbex
