import CocoIbex.WholeHart

/-!
# The Data Requests of the Whole Hart

What the address of a load or store comes from: the base register and the immediate, and for the
second part of a split access the last address. Nothing of it changes while the access is under
way, nor do the CSRs, so the verdict of the PMP on a request that waits stays what it was.

The LSU asks for this in the rules of its bus: a request that the PMP has let through or stopped
is so in every cycle until it is granted. With the PMP as an input it was a promise; with the
PMP in the hart it is a consequence of the fact that a load or store in ID neither writes a
register nor a CSR before its response, and that the adder has the same operands in all of its
cycles (`PmpInv`).

## Main results

* `adder_of_mem` — the adder has the address of the access, in each of its cycles;
* `rf_next_of_mem` and `rfWeId_of_mem` — what is not complete leaves the registers as they are;
* `pmpInv_next` — one cycle keeps the verdicts.
-/

namespace CocoIbex

/-! ### The decode of loads and stores -/

/-- The immediate of a load or store. -/
def memImmSel (i : BitVec 32) : ImmBSel :=
  if Opcode.ofBits (opcodeBits i) = some .store then .s else .i

/-- A load or store adds its immediate to its base register, in every cycle. -/
theorem aluDecode_mem {cfg : Config} {first' illegalC : Bool} {i : BitVec 32}
    (h : (mainDecode cfg first' illegalC i).dataReq = true) (first branchTaken : Bool) :
    aluDecode cfg first branchTaken i
      = { aluOpAMuxSel := .regA, aluOperator := .add, aluOpBMuxSel := .imm,
          immBMuxSel := memImmSel i } := by
  obtain ⟨-, -, -, hd⟩ := mainDecode_inDec cfg first' illegalC i
  obtain ⟨hl, ho | ho⟩ := hd h
  · simp [aluDecode, memImmSel, ho]
  · have hraw := (mainDecode_of_legal hl).2
    rw [hraw, mainDecodeRaw] at hl
    simp only [ho] at hl
    have h14 : i.getLsbD 14 = false := (Bool.or_eq_false_iff.mp hl).1
    simp only [aluDecode, memImmSel, ho, h14, Bool.false_eq_true, if_false, if_true]

/-- The adder is open for every load and store. -/
theorem adderEnable_of_mem {cfg : Config} {w : BitVec 32}
    (h : (mainDecode cfg true (compressedDecoder w).illegalInstr
      (compressedDecoder w).instr).dataReq = true) :
    (compressedDecoder w).adderEnable = true := by
  obtain ⟨-, -, -, hd⟩ := mainDecode_inDec cfg true (compressedDecoder w).illegalInstr
    (compressedDecoder w).instr
  obtain ⟨hl, ho⟩ := hd h
  have hacc : Accepts cfg w := hl
  have hmiss : ¬ AdderMaskMissing .fast w := by
    rintro ⟨hq, hf, -⟩
    rw [compressedDecoder_c3 hq, decodeC3_instr] at ho
    obtain ho | ho := ho <;>
      · have := field62_of_opcode ho
        simp [hf, Opcode.bits] at this
  obtain he | hfree := adderServed (m := .fast) hacc hmiss
  · exact he
  · rw [hacc.mainDecode] at h
    rw [(hfree.main true).1] at h
    cases h

/-- The adder does not look at the mask of the shifter. -/
theorem Alu.adderResult_open {x : AluIn} (hs : x.multdivSel = false)
    (he : x.adderEnable = true) (hop : x.operator = .add) :
    Alu.adderResult x = x.operandA + x.operandB :=
  Alu.adderResult_add (x := { x with shiftEnable := true }) ⟨hs, rfl, he⟩
    (by simp [hop, Alu.adderOpBNegate])

/-- The register write of ID is never that of a load or store. -/
theorem rfWe_of_mem {cfg : Config} {first illegalC : Bool} {i : BitVec 32}
    (h : (mainDecode cfg first illegalC i).dataReq = true) :
    (mainDecode cfg first illegalC i).rfWe = false := by
  obtain ⟨-, -, -, hd⟩ := mainDecode_inDec cfg first illegalC i
  obtain ⟨hl, ho⟩ := hd h
  rw [(mainDecode_of_legal hl).2, mainDecodeRaw]
  obtain ho | ho := ho <;> simp only [ho]

/-! ### Requests that wait -/

namespace Lsu

variable {s : Lsu} {x : LsuIn}

/-- A request waits for its grant, or the second one, granted, for the first response. -/
def Waiting (s : Lsu) : Prop :=
  s.lsFsm = .waitGnt ∨ s.lsFsm = .waitGntMis ∨ s.lsFsm = .waitRvalidMisGntsDone

/-- The address of a request that waits is that of the cycle before. -/
theorem addr_of_waiting (hc : MisalignedClear s) (hw : Waiting (s.next x)) :
    (s.next x).addrIncr = s.addrIncr ∧ (s.next x).addrLastQ = s.addrLastQ := by
  rw [MisalignedClear] at hc
  rw [Waiting] at hw
  cases hf : s.lsFsm <;> simp only [next, step, addrIncr, hf] at hc hw ⊢ <;> split_ifs at hw ⊢ <;>
    simp_all

/-- The verdict that is kept for a request is the last one. -/
theorem pmpErrQ_of_waiting
    (hw : s.lsFsm = .waitGnt ∨ s.lsFsm = .waitGntMis → x.dataPmpErr = s.pmpErrQ)
    (hn : (s.next x).lsFsm = .waitGnt ∨ (s.next x).lsFsm = .waitGntMis) :
    (s.next x).pmpErrQ = x.dataPmpErr := by
  cases hf : s.lsFsm <;> simp only [next, step, hf] at hw hn ⊢ <;> split_ifs at hn ⊢ <;>
    simp_all

/-- A request that waits for the first response was granted. -/
theorem granted_of_waiting (hn : (s.next x).lsFsm = .waitRvalidMisGntsDone) :
    s.lsFsm = .waitRvalidMisGntsDone ∨ x.dataGnt = true := by
  cases hf : s.lsFsm <;> simp only [next, step, hf] at hn ⊢ <;> split_ifs at hn <;>
    simp_all

end Lsu

namespace WholeHart

variable {n : ℕ} {m : Multiplier} {P : WholeParams} {h : WholeHart n m} {x : WholeIn}

/-! ### The address -/

/-- The base register of the load or store in ID. -/
def memBase (P : WholeParams) (h : WholeHart n m) : BitVec 32 :=
  if P.regreadSecure then h.arch.rf.readSecure h.core.ifId.rfReadEnableA
  else h.arch.rf.read (regS1 h.core.ifId.instrRdataId)

/-- The offset of the load or store in ID. -/
def memOffset (h : WholeHart n m) : BitVec 32 :=
  if memImmSel h.core.ifId.instrRdataId = .s then immSType h.core.ifId.instrRdataId
  else immIType h.core.ifId.instrRdataId

/-- The address of the part of its access that comes next. -/
def memAddr (P : WholeParams) (h : WholeHart n m) : BitVec 32 :=
  if h.core.lsu.addrIncr then h.core.lsu.addrLastQ + 4#32 else h.memBase P + h.memOffset

/-- The ALU adds the offset of an access to its base register. -/
theorem alu_of_mem (hm : Core.memInsn P.cfg h.core = true) :
    h.alu P = { aluOpAMuxSel := .regA, aluOperator := .add, aluOpBMuxSel := .imm,
                immBMuxSel := memImmSel h.core.ifId.instrRdataId } :=
  aluDecode_mem hm _ _

/-- The adder has that address. -/
theorem adder_of_mem (hi : HartObs.Inv P.toHartParams h.arch.obs)
    (hv : h.core.ifId.instrValidId = true) (hm : Core.memInsn P.cfg h.core = true) :
    (h.exOut P).aluAdderResultEx = h.memAddr P := by
  have halu := alu_of_mem hm
  have halu' : IdStage.alu P.cfg h.core.idFsm (h.decIn P) = h.alu P := rfl
  have hreg : h.core.ifId = IfIdReg.ofWord h.arch.obs.word := (hi.ifId hv).1
  have hen : h.core.ifId.adderEnable = true := by
    rw [hreg]
    refine @adderEnable_of_mem P.cfg _ ?_
    rw [Core.memInsn, hreg] at hm
    exact hm
  have hbase : h.rfRdataA P = h.memBase P := by
    have hrs3 : (aluDecode P.cfg (IdStage.instrFirstCycle h.core.idFsm (h.decIn P))
        (h.branchTaken P) h.core.ifId.instrRdataId).useRs3 = false := by
      rw [aluDecode_mem hm]
    simp [rfRdataA, memBase, rfRaddrA, hrs3]
  have hadd : (h.exOut P).aluAdderResultEx
      = (h.exIn P).aluOperandA + (h.exIn P).aluOperandB := by
    refine Alu.adderResult_open ?_ ?_ ?_
    · change ExBlock.multdivSel P.cfg (h.exIn P) = false
      simp [ExBlock.multdivSel, exIn, CocoIbex.exIn, halu', halu]
    · change (!P.adderSecure || h.core.ifId.adderEnable) = true
      simp [hen]
    · change (h.alu P).aluOperator = .add
      rw [halu]
  have hA : (h.exIn P).aluOperandA = OperandIn.aluOperandA (h.alu P) (h.operands P) := rfl
  have hB : (h.exIn P).aluOperandB = OperandIn.aluOperandB P.cfg (h.alu P) (h.operands P) := rfl
  rw [hadd, hA, hB, halu, memAddr]
  cases hinc : h.core.lsu.addrIncr with
  | true =>
      simp [OperandIn.aluOperandA, OperandIn.aluOpAMuxSel, OperandIn.aluOperandB,
        OperandIn.aluOpBMuxSel, OperandIn.immB, OperandIn.immBMuxSel, operands, hinc]
  | false =>
      have hsel : memImmSel h.core.ifId.instrRdataId = .s ∨
          memImmSel h.core.ifId.instrRdataId = .i := by
        rw [memImmSel]
        split_ifs <;> simp
      obtain hsel | hsel := hsel <;>
        simp [OperandIn.aluOperandA, OperandIn.aluOpAMuxSel, OperandIn.aluOperandB,
          OperandIn.aluOpBMuxSel, OperandIn.immB, OperandIn.immBMuxSel, operands, hinc, hbase,
          memOffset, hsel]

/-- The wire of the hart to its LSU is that of the adder. -/
theorem coreIn_adderResultEx (hi : HartObs.Inv P.toHartParams h.arch.obs) :
    (h.coreIn P x).adderResultEx = (h.exOut P).aluAdderResultEx := by
  have hwire : (h.coreIn P x).adderResultEx
      = if h.core.lsu.addrIncr then h.core.lsu.addrLastQ + 4#32
        else (h.exOut P).aluAdderResultEx := rfl
  rw [hwire]
  split_ifs with hinc
  · have hbusy : h.core.lsu.busy = true := by
      cases hf : h.core.lsu.lsFsm <;> simp [Lsu.addrIncr, Lsu.busy, hf] at hinc ⊢
    have hact := hi.core.active (Or.inl hbusy)
    rw [adder_of_mem hi hact.1.1 hact.2.2, memAddr, if_pos hinc]
  · rfl

/-! ### The verdict on a request that waits -/

/-- The verdict on a request that waits is the one that the LSU keeps; a granted request has
passed. -/
structure PmpInv (P : WholeParams) (h : WholeHart n m) : Prop where
  clear : Lsu.MisalignedClear h.core.lsu
  wait : h.core.lsu.lsFsm = .waitGnt ∨ h.core.lsu.lsFsm = .waitGntMis →
    h.dataPmpErr P = h.core.lsu.pmpErrQ
  granted : h.core.lsu.lsFsm = .waitRvalidMisGntsDone → h.dataPmpErr P = false

/-- No verdict of the PMP is held after a reset. -/
theorem pmpInv_reset (P : WholeParams) (a : BitVec 31) : PmpInv P (reset n m a) where
  clear := fun _ => rfl
  wait := fun h => by obtain h | h := h <;> cases h
  granted := fun h => nomatch h

/-- The bus of the hart keeps to the protocol of the core. -/
theorem busOk (hp : PmpInv P h) (hok : BusOk P h x) :
    HartObs.BusOk P.toHartParams h.arch.obs (h.wired P x) where
  gnt := hok.gnt
  rvalid := hok.rvalid
  pmpWait := hp.wait
  pmpGranted := hp.granted

/-- ID writes no register for a load or store. -/
theorem rfWeId_of_mem (hm : Core.memInsn P.cfg h.core = true) :
    h.arch.rfWeId P.toArchParams (h.archIn P x) = false := by
  have hno : (Core.main P.cfg h.core).rfWe = false := rfWe_of_mem (Core.main_dataReq.trans hm)
  by_contra hne
  have hwe := IdStage.rfWe_of_rfWeId P.cfg _ _ ((Bool.not_eq_false _).mp hne)
  cases hno.symm.trans hwe

/-- A load or store that is not complete leaves the register file as it is. -/
theorem rf_next_of_mem (hm : Core.memInsn P.cfg h.core = true)
    (hl : Core.lsuValid P.cfg h.core (h.coreIn P x) = false) :
    (h.next P x).arch.rf = h.arch.rf := by
  have hid := @rfWeId_of_mem n m P h x hm
  have hlsu : h.arch.rfWeLsu P.toArchParams (h.archIn P x) = false := by
    have hno : ((h.coreIn P x).dataRvalid || h.core.lsu.pmpErrQ) = false ∨
        (h.core.lsu.lsFsm == .idle) = false := by
      rw [← Bool.and_eq_false_iff]
      exact hl
    change (h.core.lsu.lsFsm == .idle && (h.coreIn P x).dataRvalid && _ && _) = false
    obtain hno | hno := hno
    · simp [(Bool.or_eq_false_iff.mp hno).1]
    · simp [hno]
  have hwe : h.arch.rfWeWb P.toArchParams (h.archIn P x) = false := by
    simp [ArchHart.rfWeWb, hid, hlsu]
  change h.arch.rfNext P.toArchParams (h.archIn P x) = h.arch.rf
  simp only [ArchHart.rfNext, hwe]
  split_ifs
  · refine RegisterFile.ext fun r => ?_
    simp [RegisterFile.writeSecure, RegisterFile.weADec]
  · exact RegisterFile.write_of_not_we _ _ _

/-- A request that waits is judged as in the cycle before. -/
theorem dataPmpErr_next (hi : HartObs.Inv P.toHartParams h.arch.obs) (hp : PmpInv P h)
    (hok : BusOk P h x) (hw : Lsu.Waiting (h.next P x).core.lsu) :
    (h.next P x).dataPmpErr P = h.dataPmpErr P := by
  have hb := busOk hp hok
  have hi' : HartObs.Inv P.toHartParams (h.next P x).arch.obs := HartObs.inv_next hi hb
  have hact' : Core.MemActive P.cfg (h.next P x).core := by
    refine hi'.core.active (Or.inl ?_)
    change (h.next P x).core.lsu.busy = true
    obtain hw | hw | hw := hw <;> simp [Lsu.busy, hw]
  -- the same load or store was in ID, and was not complete
  have hmem : Core.Executing h.core ∧ Core.memInsn P.cfg h.core = true := by
    by_contra hne
    have hrest := (Core.rest_of_not_mem hi.core hb hne).1
    change (h.next P x).core.lsu.busy = false at hrest
    obtain hw | hw | hw := hw <;> simp [Lsu.busy, hw] at hrest
  obtain ⟨hx, hm⟩ := hmem
  have hl : Core.lsuValid P.cfg h.core (h.coreIn P x) = false := by
    by_contra hne
    have hrest := (Core.rest_of_lsuValid hi.core hb ((Bool.not_eq_false _).mp hne)).1
    change (h.next P x).core.lsu.busy = false at hrest
    obtain hw | hw | hw := hw <;> simp [Lsu.busy, hw] at hrest
  have hstall : Core.stallId P.cfg h.core (h.coreIn P x) = true := by
    simp [Core.stallId, IdStage.stallId, IdStage.stallMem, hx.1, hm, hl]
  have hreg : (h.next P x).core.ifId = h.core.ifId :=
    (HartObs.next_of_stall hi hb hx hstall).2.2.2.1
  have hcsr : (h.next P x).csr = h.csr :=
    HartObs.csr_next_of_executing hx (Core.onlyMem hm).csrAccess
  have hrf := rf_next_of_mem hm hl
  obtain ⟨hinc, hlast⟩ := Lsu.addr_of_waiting hp.clear hw
  have hincr : (h.next P x).core.lsu.addrIncr = h.core.lsu.addrIncr := hinc
  have hlast' : (h.next P x).core.lsu.addrLastQ = h.core.lsu.addrLastQ := hlast
  have haddr : (h.next P x).memAddr P = h.memAddr P := by
    simp only [memAddr, memBase, memOffset, hincr, hlast', hreg, hrf]
  have hdata : (h.next P x).dataAddr P = h.dataAddr P := by
    rw [dataAddr, dataAddr, adder_of_mem hi' hact'.1.1 hact'.2.2, adder_of_mem hi hx.1 hm, haddr]
  have hwe : (Core.main P.cfg (h.next P x).core).dataWe = (Core.main P.cfg h.core).dataWe := by
    rw [Core.main, Core.main, hreg, mainDecode_dataWe]
    exact (mainDecode_dataWe _ _ _ _).symm
  simp only [dataPmpErr, dataAccess, hcsr, hdata, hwe]

/-- One cycle keeps the verdicts. -/
theorem pmpInv_next (hi : HartObs.Inv P.toHartParams h.arch.obs) (hp : PmpInv P h)
    (hok : BusOk P h x) : PmpInv P (h.next P x) where
  clear := Lsu.misalignedClear_next _ hp.clear
  wait := by
    intro hw
    have hw' : Lsu.Waiting (h.next P x).core.lsu := hw.imp_right Or.inl
    rw [dataPmpErr_next hi hp hok hw']
    exact (Lsu.pmpErrQ_of_waiting hp.wait hw).symm
  granted := by
    intro hw
    rw [dataPmpErr_next hi hp hok (Or.inr (Or.inr hw))]
    obtain hs | hg := Lsu.granted_of_waiting hw
    · exact hp.granted hs
    · exact (Core.of_dataGnt (busOk hp hok) hg).2

end WholeHart

end CocoIbex
