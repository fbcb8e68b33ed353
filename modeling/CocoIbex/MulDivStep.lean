import CocoIbex.Division
import CocoIbex.Execution
import CocoIbex.FastMultiplier
import CocoIbex.SlowMultiplier

/-!
# Executing RV32M

A multiplication or division in the datapath, cycle by cycle: it stays in ID and does nothing
while EX has no result, and then leaves with its register write. That EX has the result in the
end, and the right one, holds for every implementation of the unit.

The three results on products and divisions are about a unit whose inputs are held. In the
datapath they are held because the instruction stays in ID, its operands come from registers
that are not written meanwhile, and the decoders see the same word in every cycle;
`holds_mulDiv` puts this together. Nothing depends on the number of cycles, which differs
between the implementations.

## Main results

* `main_mulDiv` and `aluDecode_mulDiv` — what ID has of the instruction in every cycle;
* `out_mulDiv` — what the instruction does in a cycle, by the answer of EX;
* `computes_exec` — every implementation computes every instruction from an idle unit.
-/

namespace CocoIbex

open Rv32

/-! ### The decode -/

/-- The word of an instruction of RV32M. -/
def mulDivWord (op : MulDiv) (rs2 rs1 rd : BitVec 5) : BitVec 32 :=
  encR 0b0000001#7 rs2 rs1 op.funct3 rd .op

section

variable {cfg : Config} (hM : cfg.rv32m = true) (op : MulDiv) (rs2 rs1 rd : BitVec 5)

include hM

/-- How the main decoder sees a product or division. -/
theorem mainDecode_mulDiv (first : Bool) :
    mainDecode cfg first false (mulDivWord op rs2 rs1 rd)
      = { rfRenA := true
          rfRenB := true
          rfWe := true
          multdivOperator := (opMultdiv op.funct3).1
          multdivSignedMode := (opMultdiv op.funct3).2 } := by
  have hl : opIllegal cfg 0b0000001#7 op.funct3 = false := by
    cases op <;> simp [opIllegal, opTernary, opRv32i, opRv32b, MulDiv.funct3, hM]
  simp [mulDivWord, mainDecode, mainDecodeRaw, MainOut.squash, hl]

/-- How the ALU decoder sees it: the adder is free for the unit. -/
theorem aluDecode_mulDiv (first branchTaken : Bool) :
    aluDecode cfg first branchTaken (mulDivWord op rs2 rs1 rd)
      = { aluOpAMuxSel := .regA
          aluOpBMuxSel := .regB
          aluOperator := .add
          multSel := !op.isDiv
          divSel := op.isDiv } := by
  cases op <;>
    simp [mulDivWord, aluDecode, opAlu, opRv32iAlu, opRv32bAlu, MulDiv.funct3, MulDiv.isDiv, hM]

end

/-! ### The result -/

namespace ExBlock

variable {cfg : Config} {m : Multiplier} {s : ExState m} {i : MdInsn} {r : BitVec 32} {x : ExIn}

/-- Every implementation computes every instruction from an idle unit. -/
theorem computes_exec (hM : cfg.rv32m = true) (i : MdInsn) (hs : m.Idle s.multdiv) :
    Computes cfg s i (i.op.exec i.a i.b) := by
  refine computes_of_delivers hM ?_
  cases hop : i.op.isDiv with
  | true =>
      cases m with
      | slow => exact MultdivSlow.delivers_division hop s.imdValQ hs
      | fast =>
          obtain ⟨⟨d, mult⟩, imdValQ⟩ := s
          obtain ⟨hd, rfl⟩ := hs
          exact MultdivFast.delivers_division hop
            (fun x _ => (rfl : (MultdivFast.fastMult .albl x).multValid = false)) imdValQ hd
      | singleCycle =>
          obtain ⟨⟨d, mult⟩, imdValQ⟩ := s
          obtain ⟨hd, rfl⟩ := hs
          have hidle : ∀ x, x.multEn = false →
              (MultdivFast.singleMult .mull x).multValid = false := by
            intro x hx
            simp only [MultdivFast.singleMult, hx]
            split_ifs <;> rfl
          exact MultdivFast.delivers_division hop hidle imdValQ hd
  | false =>
      cases m with
      | slow =>
          obtain ⟨hmull, -⟩ | ⟨hmulh, -⟩ := MdInsn.result_of_mul hop
          · exact MultdivSlow.delivers_mull hop hmull s.imdValQ hs
          · exact MultdivSlow.delivers_mulh hop hmulh s.imdValQ hs
      | fast =>
          obtain ⟨⟨d, mult⟩, imdValQ⟩ := s
          obtain ⟨hd, rfl⟩ := hs
          exact MultdivFast.fast_delivers hop hd imdValQ
      | singleCycle =>
          obtain ⟨⟨d, mult⟩, imdValQ⟩ := s
          obtain ⟨hd, rfl⟩ := hs
          exact MultdivFast.single_delivers hop hd imdValQ

/-- One cycle on the way to the result. -/
theorem Computes.next (h : Computes cfg s i r) (hx : x.Holds i)
    (hv : (outputs cfg m s x).exValid = false) : Computes cfg (ExBlock.next cfg m s x) i r := by
  obtain ⟨k, hk⟩ := h
  cases k with
  | zero =>
      have := ((hk [] (by simp)).2 (Nat.zero_le _) (by simp) x hx).1
      rw [Machine.run_nil, hv] at this
      cases this
  | succ k =>
      refine ⟨k, fun ins hins => ?_⟩
      obtain ⟨hbusy, hdone⟩ := hk (x :: ins) (by
        intro y hy
        obtain rfl | hy := List.mem_cons.mp hy
        · exact hx
        · exact hins y hy)
      simp only [List.length_cons, Nat.add_lt_add_iff_right, Nat.add_le_add_iff_right,
        List.drop_succ_cons, Machine.run_cons, List.cons_append] at hbusy hdone
      exact ⟨hbusy, hdone⟩

/-- The result that comes is the one that is computed. -/
theorem Computes.result (h : Computes cfg s i r) (hx : x.Holds i)
    (hv : (outputs cfg m s x).exValid = true) : (outputs cfg m s x).resultEx = r := by
  obtain ⟨k, hk⟩ := h
  obtain ⟨hbusy, hdone⟩ := hk [] (by simp)
  cases k with
  | zero => exact (hdone (Nat.zero_le _) (by simp) x hx).2.1
  | succ k =>
      have := hbusy (Nat.succ_pos k) x hx
      rw [Machine.run_nil, hv] at this
      cases this

end ExBlock

/-! ### A cycle in the datapath -/

namespace Datapath

variable {cfg : Config} (hM : cfg.rv32m = true) {m : Multiplier} (op : MulDiv)
  (rs2 rs1 rd : BitVec 5) {h : IdInstr} (hi : h.instr = mulDivWord op rs2 rs1 rd)
  {s : Datapath m} {x : DatapathIn}

include hM hi

/-- What ID has of it in every cycle. -/
theorem main_mulDiv (v d : Bool) : IdStage.main cfg s.idFsm (idIn cfg h s x v d)
    = { rfRenA := true
        rfRenB := true
        rfWe := true
        multdivOperator := (opMultdiv op.funct3).1
        multdivSignedMode := (opMultdiv op.funct3).2 } := by
  rw [IdStage.main, ← mainDecode_mulDiv hM op rs2 rs1 rd (IdStage.instrFirstCycle s.idFsm
    (idIn cfg h s x v d)), ← hi]
  rfl

/-- What the ALU has of it in every cycle. -/
theorem alu_mulDiv (v d : Bool) : IdStage.alu cfg s.idFsm (idIn cfg h s x v d)
    = { aluOpAMuxSel := .regA
        aluOpBMuxSel := .regB
        aluOperator := .add
        multSel := !op.isDiv
        divSel := op.isDiv } := by
  rw [IdStage.alu, ← aluDecode_mulDiv hM op rs2 rs1 rd (IdStage.instrFirstCycle s.idFsm
    (idIn cfg h s x v d)) (branchTaken s x), ← hi]
  rfl

/-- EX is at work for the instruction. -/
theorem holds_mulDiv : (exIn cfg h s x).Holds ⟨op, h.reg rs1, h.reg rs2⟩ := by
  have hmain := main_mulDiv hM op rs2 rs1 rd hi (s := s) (x := x) false false
  have halu := alu_mulDiv hM op rs2 rs1 rd hi (s := s) (x := x) false false
  have hrs : (aluDecode cfg (s.idFsm == .firstCycle) (branchTaken s x) h.instr).useRs3 = false := by
    rw [hi, aluDecode_mulDiv hM]
  have hex : IdStage.instrExecuting (idIn cfg h s x false false) = true := rfl
  constructor
  · simp only [exIn, CocoIbex.exIn, hmain, MdInsn.operator]
  · simp only [exIn, CocoIbex.exIn, hmain, MdInsn.signedMode]
  · simp [exIn, CocoIbex.exIn, hmain, halu, hex]
  · simp [exIn, CocoIbex.exIn, halu]
  · simp [exIn, CocoIbex.exIn, hmain, halu, hex]
  · simp [exIn, CocoIbex.exIn, halu]
  · simp only [exIn, CocoIbex.exIn, operands, rfRaddrA, hrs]
    rw [hi]
    simp [mulDivWord]
  · simp only [exIn, CocoIbex.exIn, operands, rfRaddrB]
    rw [hi]
    simp [mulDivWord]
  · rfl
  · rfl

/-- The ID-EX machine by the answer of EX. -/
theorem fsmOut_mulDiv : fsmOut cfg h s x =
    if (exOut cfg h s x).exValid then { idFsmD := .firstCycle, rfWeRaw := true }
    else { idFsmD := .multiCycle, rfWeRaw := false, stallMultdiv := true } := by
  have hmain := main_mulDiv hM op rs2 rs1 rd hi (s := s) (x := x) (exOut cfg h s x).exValid
    (exOut cfg h s x).branchDecision
  have halu := alu_mulDiv hM op rs2 rs1 rd hi (s := s) (x := x) (exOut cfg h s x).exValid
    (exOut cfg h s x).branchDecision
  have hex : IdStage.instrExecuting (idIn cfg h s x (exOut cfg h s x).exValid
    (exOut cfg h s x).branchDecision) = true := rfl
  have hmd : IdStage.multdivEnDec cfg s.idFsm (idIn cfg h s x (exOut cfg h s x).exValid
      (exOut cfg h s x).branchDecision) = true := by
    rw [IdStage.multdivEnDec, hmain, halu]
    cases op.isDiv <;> rfl
  have hv : (idIn cfg h s x (exOut cfg h s x).exValid (exOut cfg h s x).branchDecision).exValid
      = (exOut cfg h s x).exValid := rfl
  simp only [fsmOut, idSees, IdStage.fsmOut, IdStage.multicycleDone, hmain, hmd, hv, hex, if_true,
    Bool.false_eq_true, if_false]
  cases s.idFsm <;> cases (exOut cfg h s x).exValid <;> rfl

/-- What the instruction does in a cycle. -/
theorem out_mulDiv (hq : s.branchSetQ = false) (hb : x.lsuBusy = false) : out cfg h s x =
    { rfWrite :=
        if (exOut cfg h s x).exValid then some (rd, (exOut cfg h s x).resultEx) else none
      lsuRequest := none
      pcSet := none
      branchSet := false
      call := false
      done := (exOut cfg h s x).exValid } := by
  have hmain : IdStage.main cfg s.idFsm (idSees cfg h s x) = _ :=
    main_mulDiv hM op rs2 rs1 rd hi _ _
  have hfsm := fsmOut_mulDiv hM op rs2 rs1 rd hi (s := s) (x := x)
  have hfsm' : IdStage.fsmOut cfg s.idFsm (idSees cfg h s x) = _ := hfsm
  have hex : IdStage.instrExecuting (idSees cfg h s x) = true := rfl
  have hflush : (idSees cfg h s x).flushId = false := rfl
  have hbusy : (idSees cfg h s x).lsuBusy = false := hb
  have hcsr : (idSees cfg h s x).illegalCsrInsn = false := by
    change ((mainDecode cfg (s.idFsm == .firstCycle) false h.instr).csrAccess && _) = false
    rw [hi, mainDecode_mulDiv hM, Bool.false_and]
  have hwaddr : rfWaddr h.instr = rd := by
    rw [hi]
    simp [rfWaddr, mulDivWord]
  have hset : branchSet cfg h s x = false := by
    rw [branchSet, hfsm, hq]
    cases (exOut cfg h s x).exValid <;> simp
  simp only [out, IdStage.rfWeId, IdStage.lsuReq, IdStage.instrDone, IdStage.stallId,
    IdStage.stallMem, hmain, hfsm, hfsm', hex, hflush, hbusy, hcsr, hwaddr, hset]
  cases (exOut cfg h s x).exValid <;> simp

end Datapath

end CocoIbex
