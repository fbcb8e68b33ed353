import CocoIbex.ExactlyOnce
import CocoIbex.WbCoreStep

/-!
# Read Hazards with One-Hot Enables

The build with secure reads has no register addresses in ID, so it compares a source with the
destination in write-back by looking up the write address in the one-hot read enable. For an
operand whose enable names its register that is the comparison of the addresses
(`rfRdWbMatch_oneHot`), and an instruction that executes sees the registers as the instruction
in write-back leaves them.

What an instruction should see is the architectural register file, in which the write of the
instruction in write-back is done (`archRf`). A result that is there is forwarded. For a load
whose data are to come there is nothing to forward, and the instruction stalls. The decision to
stall and the one to forward are compared with those that the addresses would give.

An enable names a register if it is the one-hot vector of it; which words have such enables is
the matter of `ReadGating`.

## Main results

* `rfRdWbMatch_oneHot` — the lookup in the enable is the comparison of the addresses;
* `operands_resolved` — in every state of every run, for a source under an enable that names it,
  the decisions are those by address, and what executes has the architectural operands.
-/

namespace CocoIbex

namespace RegisterFile

/-- The read enable of one register. -/
def oneHot (r : BitVec 5) : BitVec 32 :=
  Bits.gen 32 fun k => if r = BitVec.ofNat 5 k then true else false

/-- The masked read of one register. -/
theorem readSecure_oneHot (rf : RegisterFile) (r : BitVec 5) :
    rf.readSecure (oneHot r) = rf.read r :=
  readSecure_eq rf r true

/-- The enable of a register in a one-hot vector. -/
theorem getLsbD_oneHot (r a : BitVec 5) : (oneHot r).getLsbD a.toNat = decide (r = a) := by
  simp [oneHot, a.isLt]

/-- Register 0 reads as zero whatever is written. -/
theorem write_read_zero (rf : RegisterFile) (we : Bool) (waddr : BitVec 5) (wdata : BitVec 32) :
    (rf.write we waddr wdata).read 0#5 = 0#32 :=
  (rf.write we waddr wdata).rfReg_zero

end RegisterFile

namespace WbCore

variable {cfg : Config} {s : WbCore} {x : WbCoreIn}

/-! ### The plain comparison -/

/-- The match of the build without secure reads, `(rf_waddr_wb_i == rf_raddr) & |rf_raddr`. -/
def addrMatch (rfRaddr rfWaddrWb : BitVec 5) : Bool := rfWaddrWb == rfRaddr && rfRaddr != 0#5

/-- `stall_ld_hz` of the build without secure reads. -/
def addrStallLdHz (cfg : Config) (s : WbCore) : Bool :=
  let rs1 := regS1 s.ifId.instrRdataId
  let rs2 := regS2 s.ifId.instrRdataId
  s.wb.outstandingLoadWb && !s.lsu.dataWeQ
    && (addrMatch rs1 s.wb.rfWaddrWbQ && (main cfg s).rfRenA
      || addrMatch rs2 s.wb.rfWaddrWbQ && (main cfg s).rfRenB)
    && s.wb.rfWriteWb

/-- The registers with the result of the instruction in write-back. -/
def archRf (cfg : Config) (s : WbCore) (x : WbCoreIn) : RegisterFile :=
  if s.wb.rfWriteWb then rfNext cfg s x else s.rf

/-- A load in write-back will write the register `r`. -/
def LoadPending (s : WbCore) (r : BitVec 5) : Prop :=
  s.wb.outstandingLoadWb = true ∧ s.wb.rfWaddrWbQ = r ∧ r ≠ 0#5

/-- It is seen in write-back and the register number. -/
instance (s : WbCore) (r : BitVec 5) : Decidable (LoadPending s r) :=
  inferInstanceAs (Decidable (_ ∧ _ ∧ _))

/-- The look-up in the one-hot enable compares the addresses. -/
theorem rfRdWbMatch_oneHot (r waddr : BitVec 5) :
    IdWb.rfRdWbMatch (RegisterFile.oneHot r) waddr = addrMatch r waddr := by
  have hzero : (RegisterFile.oneHot r).getLsbD 0 = decide (r = 0#5) :=
    RegisterFile.getLsbD_oneHot r 0#5
  rw [IdWb.rfRdWbMatch, RegisterFile.getLsbD_oneHot, hzero, addrMatch]
  have hcomm : (waddr == r) = decide (r = waddr) := by simp [Bool.beq_eq_decide_eq, eq_comm]
  rw [hcomm]
  by_cases h0 : r = 0#5 <;> simp [h0]

/-! ### One operand -/

/-- A load in write-back writes a register. -/
theorem rfWriteWb_of_load (h : s.wb.outstandingLoadWb = true) : s.wb.rfWriteWb = true := by
  simp only [WbStage.outstandingLoadWb, Bool.and_eq_true] at h
  simp [WbStage.rfWriteWb, h.1, h.2]

/-- Without a load hazard the operand is the register as write-back leaves it. -/
theorem operand_eq (hi : Inv cfg s) {r : BitVec 5}
    (hz : (s.wb.outstandingLoadWb && !s.lsu.dataWeQ && addrMatch r s.wb.rfWaddrWbQ
      && s.wb.rfWriteWb) = false) :
    (if addrMatch r s.wb.rfWaddrWbQ && s.wb.rfWriteWb then s.wb.rfWdataWbQ else s.rf.read r)
        = (archRf cfg s x).read r ∧ ¬ LoadPending s r := by
  have hload : ¬ LoadPending s r := by
    rintro ⟨hl, rfl, h0⟩
    have hw := rfWriteWb_of_load hl
    simp [hl, hi.wbLoad hl, hw, addrMatch, h0] at hz
  refine ⟨?_, hload⟩
  cases hw : s.wb.rfWriteWb with
  | false => simp [archRf, hw]
  | true =>
      simp only [archRf, hw, if_true, Bool.and_true]
      by_cases hr : s.wb.rfWaddrWbQ = r
      · by_cases h0 : r = 0#5
        · subst h0
          rw [rfNext, RegisterFile.write_read_zero]
          have hzero : s.rf.read 0#5 = 0#32 := s.rf.rfReg_zero
          simp [addrMatch, hzero]
        · -- the instruction is no load, so it writes its own result
          have hown : s.wb.rfWdataWbMuxWe = true := by
            have hno : s.wb.outstandingLoadWb = false := by
              by_contra hne
              exact hload ⟨by simpa using hne, hr, h0⟩
            simp only [WbStage.rfWriteWb, WbStage.outstandingLoadWb] at hw hno
            simp only [WbStage.rfWdataWbMuxWe]
            cases hv : s.wb.wbValidQ <;> cases hwe : s.wb.rfWeWbQ <;> simp_all
          simp [addrMatch, hr, h0, rfNext, RegisterFile.read, RegisterFile.write,
            RegisterFile.weADec, WbStage.rfWeWb, WbStage.rfWdataWb, hown]
      · have hne : addrMatch r s.wb.rfWaddrWbQ = false := by simp [addrMatch, hr]
        rw [hne]
        exact (RegisterFile.write_of_ne _ _ _ (Ne.symm hr)).symm

/-! ### Runs -/

/-- The operand of rs1 is read under an enable that names rs1. -/
def NamesA (cfg : Config) (s : WbCore) : Prop :=
  (main cfg s).rfRenA = true ∧
    s.ifId.rfReadEnableA = RegisterFile.oneHot (regS1 s.ifId.instrRdataId)

/-- The operand of rs2 is read under an enable that names rs2. -/
def NamesB (cfg : Config) (s : WbCore) : Prop :=
  (main cfg s).rfRenB = true ∧
    s.ifId.rfReadEnableB = RegisterFile.oneHot (regS2 s.ifId.instrRdataId)

/-- It is seen in the decoder. -/
instance : Decidable (NamesA cfg s) := inferInstanceAs (Decidable (_ ∧ _))

/-- So is the second operand. -/
instance : Decidable (NamesB cfg s) := inferInstanceAs (Decidable (_ ∧ _))

/-- The hazard of rs1 is that of the comparison. -/
theorem rfRdAHz_eq (h : NamesA cfg s) :
    IdWb.rfRdAHz cfg s.idFsm (idIn cfg s x)
      = addrMatch (regS1 s.ifId.instrRdataId) s.wb.rfWaddrWbQ := by
  have hen : (idIn cfg s x).rfReadEnableA = _ := h.2
  rw [IdWb.rfRdAHz, IdWb.rfRdAWbMatch, hen, rfRdWbMatch_oneHot, idWb_main, h.1, Bool.and_true]
  rfl

/-- The hazard of rs2 is that of the comparison. -/
theorem rfRdBHz_eq (h : NamesB cfg s) :
    IdWb.rfRdBHz cfg s.idFsm (idIn cfg s x)
      = addrMatch (regS2 s.ifId.instrRdataId) s.wb.rfWaddrWbQ := by
  have hen : (idIn cfg s x).rfReadEnableB = _ := h.2
  rw [IdWb.rfRdBHz, IdWb.rfRdBWbMatch, hen, rfRdWbMatch_oneHot, idWb_main, h.1, Bool.and_true]
  rfl

/-- An instruction that executes has no load hazard. -/
theorem noHazard_of_executing (h : instrExecuting cfg s x = true) {hz : Bool}
    (hhz : hz = true → IdWb.rfRdAHz cfg s.idFsm (idIn cfg s x) = true ∨
      IdWb.rfRdBHz cfg s.idFsm (idIn cfg s x) = true) :
    (s.wb.outstandingLoadWb && !s.lsu.dataWeQ && hz && s.wb.rfWriteWb) = false := by
  have hst : (s.wb.outstandingLoadWb && !s.lsu.dataWeQ
      && (IdWb.rfRdAHz cfg s.idFsm (idIn cfg s x) || IdWb.rfRdBHz cfg s.idFsm (idIn cfg s x))
      && s.wb.rfWriteWb) = false := (of_instrExecuting h).2.2.2.2.1
  cases hz with
  | false => simp
  | true =>
      rw [Bool.or_eq_true_iff.mpr (hhz rfl)] at hst
      exact hst

/-- **Hazards with one-hot enables.** In every state of every run, for a source that the
instruction in ID reads under an enable that names it: the decision to forward is that of
the address comparison, and in a cycle in which the instruction executes the operand is the
register with the result of the instruction in write-back, which is no load to it. With all
sources so the load stall is that of the address comparison. -/
theorem operands_resolved (cfg : Config) (ins : List WbCoreIn) (x : WbCoreIn) :
    let s := Machine.run (next cfg) reset ins
    let rs1 := regS1 s.ifId.instrRdataId
    let rs2 := regS2 s.ifId.instrRdataId
    (NamesA cfg s →
      (IdWb.rfRdAWbMatch (idIn cfg s x) && s.wb.rfWriteWb)
        = (addrMatch rs1 s.wb.rfWaddrWbQ && s.wb.rfWriteWb) ∧
      (instrExecuting cfg s x = true →
        s.rfRdataAFwd = (archRf cfg s x).read rs1 ∧ ¬ LoadPending s rs1)) ∧
    (NamesB cfg s →
      (IdWb.rfRdBWbMatch (idIn cfg s x) && s.wb.rfWriteWb)
        = (addrMatch rs2 s.wb.rfWaddrWbQ && s.wb.rfWriteWb) ∧
      (instrExecuting cfg s x = true →
        s.rfRdataBFwd = (archRf cfg s x).read rs2 ∧ ¬ LoadPending s rs2)) ∧
    (((main cfg s).rfRenA = true → NamesA cfg s) → ((main cfg s).rfRenB = true → NamesB cfg s) →
      IdWb.stallLdHz cfg s.idFsm (idIn cfg s x) = addrStallLdHz cfg s) := by
  intro s rs1 rs2
  have hi : Inv cfg s := inv_run ins
  refine ⟨fun h => ⟨?_, fun hx => ?_⟩, fun h => ⟨?_, fun hx => ?_⟩, fun ha hb => ?_⟩
  · have hen : (idIn cfg s x).rfReadEnableA = _ := h.2
    rw [IdWb.rfRdAWbMatch, hen, rfRdWbMatch_oneHot]
    rfl
  · rw [rfRdataAFwd, rfRdataA, h.2, rfRdWbMatch_oneHot, RegisterFile.readSecure_oneHot]
    exact operand_eq hi (noHazard_of_executing hx fun hz => Or.inl ((rfRdAHz_eq h).trans hz))
  · have hen : (idIn cfg s x).rfReadEnableB = _ := h.2
    rw [IdWb.rfRdBWbMatch, hen, rfRdWbMatch_oneHot]
    rfl
  · rw [rfRdataBFwd, rfRdataB, h.2, rfRdWbMatch_oneHot, RegisterFile.readSecure_oneHot]
    exact operand_eq hi (noHazard_of_executing hx fun hz => Or.inr ((rfRdBHz_eq h).trans hz))
  · have hhzA : IdWb.rfRdAHz cfg s.idFsm (idIn cfg s x)
        = (addrMatch rs1 s.wb.rfWaddrWbQ && (main cfg s).rfRenA) := by
      cases hr : (main cfg s).rfRenA with
      | false => simp [IdWb.rfRdAHz, hr]
      | true => rw [rfRdAHz_eq (ha hr), Bool.and_true]
    have hhzB : IdWb.rfRdBHz cfg s.idFsm (idIn cfg s x)
        = (addrMatch rs2 s.wb.rfWaddrWbQ && (main cfg s).rfRenB) := by
      cases hr : (main cfg s).rfRenB with
      | false => simp [IdWb.rfRdBHz, hr]
      | true => rw [rfRdBHz_eq (hb hr), Bool.and_true]
    rw [IdWb.stallLdHz, hhzA, hhzB]
    rfl

/-- A cycle in which the fetch unit has the word `w`, and EX the result `v`. -/
def fetchIn (w v : BitVec 32) : WbCoreIn :=
  { toCoreIn := { Core.quietIn with fetchValid := true, fetchRdata := w }, rfWdataId := v }

/-- A cycle without a word. -/
def idleIn : WbCoreIn := ⟨Core.quietIn, 0#32⟩

/-- `addi x1, x0, 5` is in write-back and `add x2, x1, x1` in ID. -/
def forwardTrace : List WbCoreIn :=
  [idleIn, idleIn, idleIn, fetchIn 0x00500093#32 0#32, fetchIn 0x00108133#32 5#32]

/-- The second instruction executes with the result of the first, which is not yet in the
register file. -/
theorem operands_resolved_forward :
    let s := Machine.run (next Core.smallConfig) reset forwardTrace
    s.rf.read 1#5 = 0#32 ∧ instrExecuting Core.smallConfig s idleIn = true ∧
      s.rfRdataAFwd = (archRf Core.smallConfig s idleIn).read 1#5 ∧
      (archRf Core.smallConfig s idleIn).read 1#5 = 5#32 := by
  intro s
  have hrun : s.rf.read 1#5 = 0#32 ∧ instrExecuting Core.smallConfig s idleIn = true ∧
      NamesA Core.smallConfig s ∧ regS1 s.ifId.instrRdataId = 1#5 ∧
      (archRf Core.smallConfig s idleIn).read 1#5 = 5#32 := by
    decide +kernel +revert
  obtain ⟨hold, hx, hnames, hrs1, hval⟩ := hrun
  have h := ((operands_resolved Core.smallConfig forwardTrace idleIn).1 hnames).2 hx
  rw [← hrs1]
  exact ⟨hrs1 ▸ hold, hx, h.1, hrs1 ▸ hval⟩

end WbCore

end CocoIbex
