import CocoIbex.ArchHart
import CocoIbex.CsrStore

/-!
# Atomic CSR Accesses

A CSR instruction is over in the cycle in which it executes. An illegal one leaves all registers
to the trap entry; a legal one stores to the registers of its address, or counts as a read, and
its destination takes the value from before.

The statement is one about runs of the hart with its counters and its register file. It speaks
of the cycle in which the instruction is handed over to ID, of the next one, in which it
executes or traps, and of the registers on both sides of it. An instruction that an exception of
its own, a fetch error or a trap of the cycle keeps from executing makes no access at all.

Two accesses are not atomic in this sense: a legal write of a `pmpaddr` register that the region
above drops (`DropsWrite`), and, in the build with secure writes, a destination other than `x0`
for a value other than zero, since the compressed decoder sets no write enable for the CSR
instructions (`MasksWrite`). Both are conditions on the instruction and on the registers before
it.

## Main results

* `csr_access_atomic_iff` — the exact condition, for every address, form and state;
* `illegalCsrInsn_iff` — which accesses are illegal.
-/

namespace CocoIbex

/-- The CSR instruction is to write: not a set or clear form with a source field of zero. -/
def csrWrites (i : BitVec 32) : Bool :=
  (i.extractLsb 13 12 : BitVec 2) == 0b01#2 || regS1 i != 0#5

/-! ### The word of a CSR instruction -/

/-- An accepted expansion is no CSR instruction. -/
def NoCsrInsn (o : CompressedOut) : Prop :=
  o.illegalInstr = false → Opcode.ofBits (opcodeBits o.instr) = some .system →
    funct3 o.instr = 0b000#3

/-- Quadrant C0 has no CSR instruction. -/
theorem decodeC0_noCsrInsn (w : BitVec 32) : NoCsrInsn (decodeC0 w) := by
  intro hl
  simp only [decodeC0] at hl ⊢
  split at hl <;> simp_all

/-- The register operations of quadrant C1 have none. -/
theorem decodeC1Reg_noCsrInsn (w : BitVec 32) : NoCsrInsn (decodeC1Reg w) := by
  intro hl
  simp only [decodeC1Reg] at hl ⊢
  split at hl <;> simp_all

/-- Neither have the other operations of quadrant C1. -/
theorem decodeC1Arith_noCsrInsn (w : BitVec 32) : NoCsrInsn (decodeC1Arith w) := by
  have hreg := decodeC1Reg_noCsrInsn w
  intro hl
  simp only [decodeC1Arith] at hl ⊢
  split at hl
  case h_4 => exact hreg hl
  all_goals simp

/-- Quadrant C1 has no CSR instruction. -/
theorem decodeC1_noCsrInsn (w : BitVec 32) : NoCsrInsn (decodeC1 w) := by
  have harith := decodeC1Arith_noCsrInsn w
  intro hl
  simp only [decodeC1] at hl ⊢
  split at hl
  case h_5 =>
    simp only [decodeC1Lui]
    split_ifs <;> simp
  case h_6 => exact harith hl
  all_goals simp

/-- Quadrant C2 has no CSR instruction. -/
theorem decodeC2_noCsrInsn (w : BitVec 32) : NoCsrInsn (decodeC2 w) := by
  intro hl
  simp only [decodeC2] at hl ⊢
  split at hl
  case h_3 =>
    have hebreak : funct3 0x00100073#32 = 0b000#3 := rfl
    simp only [decodeC2Arith]
    split_ifs <;> simp [hebreak]
  all_goals simp_all

/-- The word of a CSR instruction is not compressed, and so its own expansion. -/
theorem compressedDecoder_of_csr {w : BitVec 32}
    (hl : (compressedDecoder w).illegalInstr = false)
    (ho : Opcode.ofBits (opcodeBits (compressedDecoder w).instr) = some .system)
    (hf : funct3 (compressedDecoder w).instr ≠ 0b000#3) : compressedDecoder w = decodeC3 w := by
  obtain hq | hq | hq | hq := quadrant_cases w
  · rw [compressedDecoder_c0 hq] at hl ho hf
    exact absurd (decodeC0_noCsrInsn w hl ho) hf
  · rw [compressedDecoder_c1 hq] at hl ho hf
    exact absurd (decodeC1_noCsrInsn w hl ho) hf
  · rw [compressedDecoder_c2 hq] at hl ho hf
    exact absurd (decodeC2_noCsrInsn w hl ho) hf
  · exact compressedDecoder_c3 hq

namespace Core

variable {cfg : Config} {s : Core} {x : CoreIn}

/-! ### The cycle of a CSR instruction -/

/-- ID executes a CSR instruction. -/
def CsrAccess (cfg : Config) (s : Core) : Prop :=
  Executing s ∧ (main cfg s).csrAccess = true

/-- It is seen in the registers of ID. -/
instance (cfg : Config) (s : Core) : Decidable (CsrAccess cfg s) :=
  inferInstanceAs (Decidable ((_ ∧ _ ∧ _) ∧ _))

/-- A CSR access is decoded as its word says. -/
theorem CsrAccess.main_eq (h : CsrAccess cfg s) : main cfg s = csrOut s.ifId.instrRdataId :=
  mainDecode_of_csrAccess h.2

/-- A CSR instruction is no load or store. -/
theorem memInsn_of_csrAccess (h : (main cfg s).csrAccess = true) : memInsn cfg s = false := by
  rw [← main_dataReq, main, mainDecode_of_csrAccess h]
  rfl

/-- The ID-EX machine does not hold it up. -/
theorem CsrAccess.idOut_eq (h : CsrAccess cfg s) :
    ∃ d, idOut cfg s x = { idFsmD := d, rfWeRaw := true } := by
  have hx : IdStage.instrExecuting (idIn cfg s x) = true := instrExecuting_iff.mpr h.1
  have hmain : IdStage.main cfg s.idFsm (idIn cfg s x) = csrOut s.ifId.instrRdataId := h.main_eq
  obtain ⟨-, ho, -⟩ := mainDecode_csrAccess_iff.mp h.2
  obtain ⟨halu, hmult, hdiv⟩ : (IdStage.alu cfg s.idFsm (idIn cfg s x)).aluMulticycle = false ∧
      (IdStage.alu cfg s.idFsm (idIn cfg s x)).multSel = false ∧
      (IdStage.alu cfg s.idFsm (idIn cfg s x)).divSel = false := aluDecode_of_system ho
  have hmd : IdStage.multdivEnDec cfg s.idFsm (idIn cfg s x) = false := by
    simp [IdStage.multdivEnDec, hmult, hdiv]
  cases hf : s.idFsm with
  | firstCycle =>
      rw [hf] at hmain halu hmd
      refine ⟨.firstCycle, ?_⟩
      simp only [idOut, IdStage.fsmOut, hf, hx, hmain, hmd, halu]
      rfl
  | multiCycle =>
      rw [hf] at hmain hmd
      simp only [idOut, IdStage.fsmOut, hf, hx, hmain, hmd, Bool.false_eq_true, if_true,
        if_false]
      split_ifs
      · exact ⟨.firstCycle, rfl⟩
      · exact ⟨.multiCycle, rfl⟩

/-- A CSR access takes one cycle. -/
theorem CsrAccess.stallId_eq (h : CsrAccess cfg s) (hi : Inv cfg s) : stallId cfg s x = false := by
  obtain ⟨d, ho⟩ := h.idOut_eq (x := x)
  rw [idOut] at ho
  simp [stallId, IdStage.stallId, ho, hi.stallMem (memInsn_of_csrAccess h.2)]

/-- The access happens. -/
theorem CsrAccess.csrOpEn_eq (h : CsrAccess cfg s) (hi : Inv cfg s) : csrOpEn cfg s x = true := by
  have hs : IdStage.stallId cfg s.idFsm (idIn cfg s x) = false := h.stallId_eq hi
  simp [csrOpEn, IdStage.csrOpEn, IdStage.instrDone, hs, h.2, instrExecuting_iff.mpr h.1,
    flushId_of_executing h.1]

/-- Nothing but a CSR instruction accesses a CSR. -/
theorem csrAccess_of_csrOpEn (h : csrOpEn cfg s x = true) : CsrAccess cfg s := by
  simp only [csrOpEn, IdStage.csrOpEn, Bool.and_eq_true] at h
  exact ⟨instrExecuting_iff.mp h.1.2, h.1.1⟩

end Core

/-! ### The cycle of a trap -/

namespace CsRegs

variable {n : ℕ} {P : CsrParams} {s : CsRegs n} {x : CsRegsIn}

/-- The registers after a trap entry from the address `pc`, with the cause `c` and the `mtval`
`v`. -/
def trapTaken (s : CsRegs n) (c : ExcCause) (v pc : BitVec 32) : CsRegs n :=
  { s with
    privLvl := .m
    mtval := v
    mstatus := { s.mstatus with mie := false, mpie := s.mstatus.mie, mpp := s.privLvl }
    mepc := pc
    mcause := c.bits
    mstack := ⟨s.mstatus.mpie, s.mstatus.mpp⟩
    mstackEpc := s.mepc
    mstackCause := s.mcause }

/-- The registers after a trap, in debug mode or not. -/
theorem next_of_saveCause (hw : s.csrWeInt P x = false) (hb : x.csrMtvecInit = false)
    (hc : x.csrSaveCause = true) (hs : x.debugCsrSave = false) :
    s.next P x = if x.debugMode then { s with privLvl := .m }
      else s.trapTaken x.csrMcause x.csrMtval (exceptionPc x) := by
  rw [next, written_of_not_csrWeInt hw hb, trapped, if_pos hc, hs, if_neg Bool.false_ne_true]
  cases x.debugMode <;> rfl

end CsRegs

namespace HartObs

variable {n : ℕ} {P : HartParams} {o : HartObs n} {x : HartIn}

/-- An illegal instruction that is flushed: it is gone, the registers are those of a trap, and
the fetch goes on at the handler. In debug mode only the privilege level is set, and the
handler is that of the debugger. -/
structure IllegalTaken (P : HartParams) (o o'' : HartObs n) : Prop where
  gone : o''.core.ifId.instrValidId = false
  csr : o''.csr = if o.core.ctrl.debugModeQ then { o.csr with privLvl := .m }
    else o.csr.trapTaken .illegalInsn o.originalInstr o.core.pcId
  pcIf : o''.hart.pcIf = if o.core.ctrl.debugModeQ then P.dmExceptionAddr.extractLsb' 1 31 ++ 0#1
    else o.csr.mtvec.extractLsb' 8 24 ++ 0#8

/-- The flush of an illegal instruction without an error of its fetch. -/
theorem illegalTaken_of_flushing (x' : HartIn) (hi : Inv P o) (hf : Flushing P o x)
    (hv : o.core.ifId.instrValidId = true) (hfetch : (o.ctrlDec P x).instrFetchErr = false)
    (hill : o.illegal P x = true) (hb : (o.ctrlDec P x).ebrkInsn = false) :
    (o.next P x).deliver P x' = false ∧ IllegalTaken P o ((o.next P x).next P x') := by
  obtain ⟨hvalid, hfetch', -, -, -, hebrk, -, -⟩ := hf.ctrlDec x'
  have hdebug : (o.next P x).core.ctrl.ebreakDebug ((o.next P x).ctrlDec P x') = false := by
    simp [Ctrl.ebreakDebug, Ctrl.ebrkInsn, hebrk, hb]
  have hcause : (o.next P x).core.ctrl.excCauseMtval ((o.next P x).ctrlDec P x')
      = (.illegalInsn, o.originalInstr) := by
    have horig : (if ((o.next P x).ctrlDec P x').instrIsCompressed then
        0#16 ++ ((o.next P x).ctrlDec P x').instrCompressed
        else ((o.next P x).ctrlDec P x').instr) = o.originalInstr := by
      rw [← originalInstr_eq hi hv, ← hf.ifId, ← hf.instrRdataCId]
      rfl
    simp [Ctrl.excCauseMtval, Ctrl.instrFetchErr, hfetch', hfetch, hf.illegalInsnQ, hill, horig]
  obtain ⟨hsave, hnodebug, hif, -, hc, hm, hset, hmux, hexc, hhalt⟩ :=
    Ctrl.out_exc (y := Core.ctrlIn P.cfg (o.next P x).core ((o.next P x).coreIn P x'))
      hf.fsm hf.exc hdebug
  have hout : (o.next P x).hart.ctrlOut P x' = Ctrl.out (o.next P x).core.ctrl
      (Core.ctrlIn P.cfg (o.next P x).core ((o.next P x).coreIn P x')) := rfl
  rw [← hout] at hsave hnodebug hif hc hm hset hmux hexc hhalt
  rw [hf.debugModeQ] at hexc
  have hdel := deliver_of_halt hhalt
  have hcsr : (o.next P x).hart.csr = o.csr := hf.csr
  refine ⟨hdel, ?_, ?_, ?_⟩
  · have hflush : Core.flushId P.cfg (o.next P x).core ((o.next P x).coreIn P x') = true := by
      have hb' : (o.next P x).core.ctrl.ebreakDebug
        (Core.ctrlDec P.cfg (o.next P x).core ((o.next P x).coreIn P x')) = false := hdebug
      simp [Core.flushId, Ctrl.flushId, hf.fsm, hb']
    have hdel' : Core.deliver P.cfg (o.next P x).core ((o.next P x).coreIn P x') = false := hdel
    have hnext := Core.instrValidId_next hdel'
    rw [hflush] at hnext
    exact hnext.trans (by simp)
  · have hex : ¬ Core.Executing (o.next P x).core := by
      intro hx
      have hfsm := hx.2.2
      rw [hf.fsm] at hfsm
      cases hfsm
    have hboot : ((o.next P x).hart.csrIn P x').csrMtvecInit = false := by
      change (((o.next P x).hart.ctrlOut P x').pcMux == .boot && _) = false
      rw [hmux]
      rfl
    have hnext := CsRegs.next_of_saveCause (x := (o.next P x).hart.csrIn P x')
      (csrWeInt_of_not_executing hex) hboot hsave hnodebug
    have hdbg : ((o.next P x).hart.csrIn P x').debugMode = o.core.ctrl.debugModeQ := hf.debugModeQ
    have hcause' : ((o.next P x).hart.csrIn P x').csrMcause = .illegalInsn :=
      hc.trans (congrArg Prod.fst hcause)
    have hmtval : ((o.next P x).hart.csrIn P x').csrMtval = o.originalInstr :=
      hm.trans (congrArg Prod.snd hcause)
    rw [hdbg, hcause', hmtval, exceptionPc_csrIn hsave, hif, if_neg Bool.false_ne_true, hf.pcId]
      at hnext
    refine hnext.trans ?_
    rw [hf.csr]
  · have haddr : ((o.next P x).next P x').hart.fetchAddrQ
        = ((o.next P x).hart.fetchAddrN P x').extractLsb' 1 31 := if_pos hset
    have htarget : (o.next P x).hart.fetchAddrN P x'
        = if o.core.ctrl.debugModeQ then P.dmExceptionAddr
          else o.csr.mtvec.extractLsb' 8 24 ++ 0#8 := by
      change TrapUnit.fetchAddrN P.trap (o.next P x).hart.trapUnit _ = _
      rw [TrapUnit.fetchAddrN, Hart.trapUnit_ctrlOut, hmux]
      change TrapUnit.excPc P.trap (o.next P x).hart.trapUnit _ = _
      rw [TrapUnit.excPc, Hart.trapUnit_ctrlOut, hexc]
      cases o.core.ctrl.debugModeQ with
      | true => rfl
      | false =>
          have hmtvec := congrArg (fun c : CsRegs n => c.mtvec.extractLsb' 8 24 ++ 0#8) hcsr
          exact hmtvec
    rw [Hart.pcIf, haddr, htarget]
    cases o.core.ctrl.debugModeQ with
    | true => rfl
    | false =>
        rw [if_neg Bool.false_ne_true, if_neg Bool.false_ne_true]
        exact extractLsb'_append_zero (by rw [BitVec.getLsbD_append]; rfl)

end HartObs

namespace ArchHart

variable {n : ℕ} (P : ArchParams) (h : ArchHart n) (x : ArchIn)

/-- The instruction in ID. -/
def instr : BitVec 32 := h.core.ifId.instrRdataId

/-- ID executes a CSR instruction. -/
def CsrAccess : Prop := Core.CsrAccess P.cfg h.core

/-- It is seen in the registers of the core. -/
instance : Decidable (CsrAccess P h) := inferInstanceAs (Decidable (Core.CsrAccess _ _))

/-- The access of the CSR instruction in ID is illegal. -/
def IllegalAccess : Prop :=
  h.obs.csr.IllegalAccess P.toCsrParams h.core.ctrl.debugModeQ (csrWrites h.instr)
    (funct12 h.instr)

/-- It is seen in the address and the operation. -/
instance : Decidable (IllegalAccess P h) :=
  inferInstanceAs (Decidable (CsRegs.IllegalAccess _ _ _ _ _))

/-- What the CSR instruction in ID is to write: its operand, or the bits of the operand set or
cleared in the value read. -/
def csrResult : BitVec 32 :=
  match (h.instr.extractLsb 13 12 : BitVec 2) with
  | 0b01#2 => x.aluOperandAEx
  | 0b10#2 => x.aluOperandAEx ||| h.csrRdata P x
  | _ => ~~~x.aluOperandAEx &&& h.csrRdata P x

/-- A register of the CSRs is written by software. -/
def csrWeInt : Bool := h.file.csrWeInt P.perf (h.csrIn P x)

variable {P h x}

/-! ### What the CSRs see of it -/

/-- The word of the CSR instruction in ID. -/
theorem word_of_csrAccess (hi : Inv P h) (ha : CsrAccess P h) :
    h.core.ifId = IfIdReg.ofWord h.obs.word ∧
      compressedDecoder h.obs.word = decodeC3 h.obs.word ∧ field62 h.obs.word = 0b11100#5 := by
  have hreg : h.core.ifId = IfIdReg.ofWord h.obs.word := (hi.ifId ha.1.1).1
  obtain ⟨hc, ho, hf, -⟩ := mainDecode_csrAccess_iff.mp ha.2
  rw [hreg] at hc ho hf
  have hc3 : compressedDecoder h.obs.word = decodeC3 h.obs.word := compressedDecoder_of_csr hc ho hf
  have hinstr : (compressedDecoder h.obs.word).instr = h.obs.word := by rw [hc3, decodeC3_instr]
  have ho' : Opcode.ofBits (opcodeBits (compressedDecoder h.obs.word).instr) = some .system := ho
  rw [hinstr] at ho'
  exact ⟨hreg, hc3, field62_of_opcode ho'⟩

/-- The secure build does not mask it. -/
theorem csrEnable_of_csrAccess (hi : Inv P h) (ha : CsrAccess P h) :
    h.core.ifId.csrEnable = true := by
  obtain ⟨hreg, hc3, hf⟩ := word_of_csrAccess hi ha
  have hen : (IfIdReg.ofWord h.obs.word).csrEnable = (compressedDecoder h.obs.word).csrEnable := rfl
  rw [hreg, hen, hc3]
  simp [decodeC3, hf]

/-- The controller neither saves nor restores anything for it. -/
theorem quiet_of_decode (hfsm : h.core.ctrl.ctrlFsm = .decode) : CsrFile.Quiet (h.csrIn P x) := by
  have hout : h.obs.hart.trapUnit.ctrlOut P.trap (h.obs.hart.trapIn P.toHartParams (h.wired P x))
      = Ctrl.decodeOut h.core.ctrl
          (Core.ctrlIn P.cfg h.core (h.obs.coreIn P.toHartParams (h.wired P x))) := by
    change Ctrl.out h.core.ctrl _ = _
    simp only [Ctrl.out, hfsm]
    rfl
  constructor <;>
    simp [csrIn, Hart.csrIn, TrapUnit.csrIn, hout, Ctrl.decodeOut, Ctrl.defaults]

/-- The port of the CSRs in the cycle of a CSR instruction. -/
structure Port (h : ArchHart n) (x : ArchIn) (y : CsRegsIn) : Prop where
  csrAccess : y.csrAccess = true
  csrAddr : y.csrAddr = funct12 h.instr
  csrWdata : y.csrWdata = x.aluOperandAEx
  csrOp : y.csrOp = csrOperandCheck (csrOut h.instr) h.instr
  csrOpEn : y.csrOpEn = true
  debugMode : y.debugMode = h.core.ctrl.debugModeQ

/-- The CSRs see the word in ID at their port. -/
theorem port_of_csrAccess (hi : Inv P h) (ha : CsrAccess P h) : Port h x (h.csrIn P x) := by
  have henabled : (!P.csrSecure || h.core.ifId.csrEnable) = true := by
    rw [csrEnable_of_csrAccess hi ha, Bool.or_true]
  have hmain : Core.main P.cfg h.core = csrOut h.instr := ha.main_eq
  constructor
  case csrAccess => exact ha.2
  case csrAddr =>
    have hsel : ((Core.main P.cfg h.core).csrAccess && (!P.csrSecure || h.core.ifId.csrEnable))
        = true := by
      rw [henabled, Bool.and_true]
      exact ha.2
    exact if_pos hsel
  case csrWdata => exact if_pos henabled
  case csrOp =>
    rw [← hmain]
    rfl
  case csrOpEn => exact ha.csrOpEn_eq hi.core
  case debugMode => rfl

/-- The three operations. -/
theorem form_cases (ha : CsrAccess P h) :
    (h.instr.extractLsb 13 12 : BitVec 2) = 0b01#2 ∨
      (h.instr.extractLsb 13 12 : BitVec 2) = 0b10#2 ∨
      (h.instr.extractLsb 13 12 : BitVec 2) = 0b11#2 := by
  obtain ⟨-, -, -, hop⟩ := mainDecode_csrAccess_iff.mp ha.2
  have hcases : ∀ f : BitVec 2, f ≠ 0b00#2 → f = 0b01#2 ∨ f = 0b10#2 ∨ f = 0b11#2 := by decide
  exact hcases _ hop

/-- A write is asked for by the forms that write. -/
theorem Port.csrWreq_eq {y : CsRegsIn} (hp : Port h x y) (ha : CsrAccess P h) :
    CsRegs.csrWreq y = csrWrites h.instr := by
  rw [CsRegs.csrWreq, hp.csrOpEn, hp.csrOp, csrWrites, csrOperandCheck, csrOut]
  obtain hf | hf | hf := form_cases ha <;> by_cases hz : regS1 h.instr = 0#5 <;> simp [hf, hz]

/-- The word that they write. -/
theorem csrWdataInt_eq (hi : Inv P h) (ha : CsrAccess P h) (hw : csrWrites h.instr = true) :
    h.file.csrWdataInt P.perf (h.csrIn P x) = h.csrResult P x := by
  have hp := port_of_csrAccess (x := x) hi ha
  have hwdata : (h.file.wired P.perf (h.csrIn P x)).csrWdata = x.aluOperandAEx := hp.csrWdata
  have hop : (h.file.wired P.perf (h.csrIn P x)).csrOp
      = csrOperandCheck (csrOut h.instr) h.instr := hp.csrOp
  rw [CsrFile.csrWdataInt, CsRegs.csrWdataInt, hop, hwdata, csrResult, csrOperandCheck, csrOut]
  rw [csrWrites] at hw
  obtain hf | hf | hf := form_cases ha <;> simp [hf] at hw ⊢ <;> simp [hw] <;> rfl

/-- The verdict of the CSRs. -/
theorem illegalCsrInsn_iff (hi : Inv P h) (ha : CsrAccess P h) :
    h.file.illegalCsrInsn P.perf (h.csrIn P x) = true ↔ IllegalAccess P h := by
  have hp := port_of_csrAccess (x := x) hi ha
  have hverdict := CsRegs.illegalCsrInsn_iff (P := P.toCsrParams) (s := h.obs.csr) hp.csrAccess
  rw [hp.csrWreq_eq ha, hp.csrAddr, hp.debugMode] at hverdict
  exact hverdict

/-- A CSR is written by a legal CSR instruction of a form that writes, and by nothing else. -/
theorem csrWeInt_iff (hi : Inv P h) :
    h.csrWeInt P x = true ↔
      CsrAccess P h ∧ ¬ IllegalAccess P h ∧ csrWrites h.instr = true := by
  have hdef : h.csrWeInt P x = (CsRegs.csrWreq (h.csrIn P x)
      && !h.file.illegalCsrInsn P.perf (h.csrIn P x)) := rfl
  by_cases ha : CsrAccess P h
  · rw [hdef, (port_of_csrAccess hi ha).csrWreq_eq ha, Bool.and_eq_true, Bool.not_eq_true',
      ← Bool.not_eq_true, illegalCsrInsn_iff hi ha]
    tauto
  · have hno : (h.csrIn P x).csrOpEn = false := by
      by_contra hne
      exact ha (Core.csrAccess_of_csrOpEn ((Bool.not_eq_false _).mp hne))
    rw [hdef, CsRegs.csrWreq, hno]
    simp [ha]

/-! ### A legal access -/

/-- The registers after a legal access: those of the address have taken what is written, or
none is written. -/
def accessed (P : ArchParams) (h : ArchHart n) (x : ArchIn) : CsrFile n :=
  if csrWrites h.instr then
    h.file.store P.perf x.events h.core.ctrl.debugModeQ (funct12 h.instr) (h.csrResult P x)
  else h.file.count P.perf x.events

/-- The write goes to the address of an open region below an open region in TOR mode. -/
def DropsWrite (P : ArchParams) (h : ArchHart n) (x : ArchIn) : Prop :=
  csrWrites h.instr = true ∧ ∃ i : Fin n,
    funct12 h.instr = CsrNum.offPmpAddr + BitVec.ofNat 12 i ∧
      CsrFile.DropsAddr P.perf h.file i ∧ h.csrResult P x ≠ h.obs.csr.pmpAddr i

/-- A legal access has its effect, unless it drops another value. -/
theorem file_next_eq_accessed_iff (hn : n ≤ 16) (hi : Inv P h) (ha : CsrAccess P h)
    (hl : ¬ IllegalAccess P h) :
    (h.next P x).file = accessed P h x ↔ ¬ DropsWrite P h x := by
  have hq := quiet_of_decode (P := P) (x := x) ha.1.2.2
  have hp := port_of_csrAccess (x := x) hi ha
  rw [file_next, accessed, DropsWrite]
  split_ifs with hw
  · have hwe : h.file.csrWeInt P.perf (h.csrIn P x) = true := (csrWeInt_iff hi).mpr ⟨ha, hl, hw⟩
    have hiff := CsrFile.next_eq_store_iff hn x.events hq hwe
    rw [hp.csrAddr, hp.debugMode, csrWdataInt_eq hi ha hw] at hiff
    rw [hiff]
    simp only [hw, true_and, not_exists, not_and, not_not]
    rfl
  · have hwe : h.file.csrWeInt P.perf (h.csrIn P x) = false := by
      rw [← Bool.not_eq_true]
      exact fun hwe => hw ((csrWeInt_iff hi).mp hwe).2.2
    simp [CsrFile.next_eq_count x.events hq hwe, hw]

/-- Other instructions than loads have no data from the LSU. -/
theorem rfWeLsu_of_not_mem (hi : Inv P h) (hok : BusOk P h x)
    (hm : ¬ (Core.Executing h.core ∧ Core.memInsn P.cfg h.core = true)) :
    h.rfWeLsu P x = false := by
  have hrest := (hi.core.rest fun hact => hm ⟨hact.1, hact.2.2⟩).2.1
  have hno : (h.obs.lsuIn P.toHartParams (h.wired P x)).dataRvalid = false :=
    Core.not_dataRvalid hok hrest
  simp [rfWeLsu, Lsu.lsuRdataValid, hno]

/-- ID writes the destination of a CSR instruction unless the access is illegal. -/
theorem rfWeId_of_csrAccess (ha : CsrAccess P h) :
    h.rfWeId P x = !h.file.illegalCsrInsn P.perf (h.csrIn P x) := by
  obtain ⟨d, ho⟩ := ha.idOut_eq (x := h.obs.coreIn P.toHartParams (h.wired P x))
  have hraw : (IdStage.fsmOut P.cfg h.core.idFsm (h.idIn P x)).rfWeRaw = true :=
    congrArg IdFsmOut.rfWeRaw ho
  have hx : IdStage.instrExecuting (h.idIn P x) = true := Core.instrExecuting_iff.mpr ha.1
  have hill : (h.idIn P x).illegalCsrInsn = h.file.illegalCsrInsn P.perf (h.csrIn P x) := by
    change ((Core.main P.cfg h.core).csrAccess && _) = _
    rw [ha.2, Bool.true_and]
    rfl
  rw [rfWeId, IdStage.rfWeId, hraw, hx, hill, Bool.true_and, Bool.true_and]

/-- The secure build does not enable the destination of a CSR instruction. -/
theorem rfWriteEnable_of_csrAccess (hi : Inv P h) (ha : CsrAccess P h) (r : BitVec 5) :
    h.core.ifId.rfWriteEnable.getLsbD r.toNat = false := by
  obtain ⟨hreg, hc3, hf⟩ := word_of_csrAccess hi ha
  have hmask : (IfIdReg.ofWord h.obs.word).rfWriteEnable
      = (compressedDecoder h.obs.word).rfWriteEnable := rfl
  rw [hreg, hmask, hc3, CompressedOut.rfWriteEnable_toNat]
  simp [decodeC3, hf]

/-- The secure build writes zero to the destination. -/
def MasksWrite (P : ArchParams) (h : ArchHart n) (x : ArchIn) : Prop :=
  P.regwriteSecure = true ∧ regD h.instr ≠ 0#5 ∧ h.csrRdata P x ≠ 0#32

/-- The destination of a legal access takes the value read, unless it is masked. -/
theorem rf_next_eq_write_iff (hi : Inv P h) (ha : CsrAccess P h)
    (hl : ¬ IllegalAccess P h) :
    (h.next P x).rf = h.rf.write true (regD h.instr) (h.csrRdata P x) ↔ ¬ MasksWrite P h x := by
  have hlegal : h.file.illegalCsrInsn P.perf (h.csrIn P x) = false := by
    rw [← Bool.not_eq_true, illegalCsrInsn_iff hi ha]
    exact hl
  have hwe : h.rfWeId P x = true := by rw [rfWeId_of_csrAccess ha, hlegal, Bool.not_false]
  have hweWb : h.rfWeWb P x = true := by rw [rfWeWb, hwe, Bool.true_or]
  have hsel : (Core.main P.cfg h.core).rfWdataSel = .csr := by
    rw [ha.main_eq]
    rfl
  have hdata : h.rfWdataWb P x = h.csrRdata P x := by
    rw [rfWdataWb, if_pos hwe, rfWdataId, hsel]
  have hnext : (h.next P x).rf = if P.regwriteSecure then
      h.rf.writeSecure h.core.ifId.rfWriteEnable true (regD h.instr) (h.csrRdata P x)
      else h.rf.write true (regD h.instr) (h.csrRdata P x) := by
    change h.rfNext P x = _
    rw [rfNext, hweWb, hdata]
    rfl
  rw [hnext, MasksWrite]
  cases hsec : P.regwriteSecure with
  | false => simp
  | true =>
      rw [if_pos rfl, h.rf.writeSecure_eq_write_zero true _ (rfWriteEnable_of_csrAccess hi ha _),
        RegisterFile.write_eq_write_iff]
      simp only [true_and, not_and, not_not]
      tauto

/-- Without a write enable the register file is as before. -/
theorem rf_next_of_not_we (hwe : h.rfWeId P x = false) (hlsu : h.rfWeLsu P x = false) :
    (h.next P x).rf = h.rf := by
  have hweWb : h.rfWeWb P x = false := by rw [rfWeWb, hwe, hlsu, Bool.or_false]
  change h.rfNext P x = _
  rw [rfNext, hweWb]
  split_ifs
  · exact h.rf.writeSecure_of_not_we _ _ _
  · exact h.rf.write_of_not_we _ _

/-! ### An illegal access -/

/-- An illegal access raises its exception, and leaves all to the trap entry. -/
theorem flushing_of_illegalAccess (hi : Inv P h) (hok : BusOk P h x) (ha : CsrAccess P h)
    (hill : IllegalAccess P h) :
    HartObs.Flushing P.toHartParams h.obs (h.wired P x) ∧
      (h.obs.illegal P.toHartParams (h.wired P x) = true) := by
  have hfsm : h.obs.core.ctrl.ctrlFsm = .decode := ha.1.2.2
  have hv : h.obs.core.ifId.instrValidId = true := ha.1.1
  have hverdict : h.obs.hart.illegalCsrInsn P.toHartParams (h.wired P x) = true :=
    (illegalCsrInsn_iff (x := x) hi ha).mpr hill
  have hd : (h.obs.ctrlDec P.toHartParams (h.wired P x)).illegalInsn = true := by
    change (h.obs.core.ifId.instrValidId && (_ || ((Core.main P.cfg h.core).csrAccess && _))) = true
    rw [hv, ha.2]
    simp [HartObs.coreIn, Hart.coreIn, hverdict]
  have hillegal : h.obs.illegal P.toHartParams (h.wired P x) = true := by
    simp [HartObs.illegal, hd]
  have hfetch : (h.obs.ctrlDec P.toHartParams (h.wired P x)).instrFetchErr = false := ha.1.2.1
  have hexc : h.obs.exception P.toHartParams (h.wired P x)
      = some (.illegalInsn, h.obs.originalInstr) := by
    simp [HartObs.exception, HartObs.causes, hfetch, hillegal]
  exact ⟨HartObs.flushing_of_raised hi hok hfsm hv (HartObs.raised_of_exception hfsm hv hexc),
    hillegal⟩

/-- An illegal access changes no register in its cycle, the counters that count aside, and
none but those of the trap entry in the next one. -/
structure TrapsOnly (P : ArchParams) (h : ArchHart n) (x x' : ArchIn) : Prop where
  file : (h.next P x).file = h.file.count P.perf x.events
  rf : (h.next P x).rf = h.rf
  taken : HartObs.IllegalTaken P.toHartParams h.obs ((h.next P x).next P x').obs
  perf : ((h.next P x).next P x').perf = (h.next P x).perf.count P.perf x'.events
  rf' : ((h.next P x).next P x').rf = h.rf

/-- An illegal access traps and has no other effect. -/
theorem trapsOnly_of_illegalAccess (x' : ArchIn) (hi : Inv P h) (hok : BusOk P h x)
    (hok' : BusOk P (h.next P x) x') (ha : CsrAccess P h) (hill : IllegalAccess P h) :
    TrapsOnly P h x x' := by
  obtain ⟨hf, hillegal⟩ := flushing_of_illegalAccess hi hok ha hill
  have hverdict := (illegalCsrInsn_iff (x := x) hi ha).mpr hill
  have hi' := inv_next hi hok
  have hno {g : ArchHart n} {y : ArchIn} (hg : Inv P g)
      (h : ¬ (CsrAccess P g ∧ ¬ IllegalAccess P g)) : g.csrWeInt P y = false := by
    rw [← Bool.not_eq_true, csrWeInt_iff hg]
    tauto
  have hex : ¬ Core.Executing (h.next P x).core := by
    intro hx
    have hfsm := hx.2.2
    rw [show (h.next P x).core.ctrl.ctrlFsm = .flush from hf.fsm] at hfsm
    cases hfsm
  have hrf : (h.next P x).rf = h.rf := by
    refine rf_next_of_not_we ?_ (rfWeLsu_of_not_mem hi hok fun hm => ?_)
    · rw [rfWeId_of_csrAccess ha, hverdict, Bool.not_true]
    · rw [Core.memInsn_of_csrAccess ha.2] at hm
      exact Bool.false_ne_true hm.2
  constructor
  case file =>
    rw [file_next]
    exact CsrFile.next_eq_count x.events (quiet_of_decode (P := P) ha.1.2.2)
      (hno hi fun h => h.2 hill)
  case rf => exact hrf
  case taken =>
    obtain ⟨-, -, hebrk, -⟩ := mainDecode_csrAccess ha.2
    exact (HartObs.illegalTaken_of_flushing _ hi hf ha.1.1 ha.1.2.1 hillegal hebrk).2
  case perf =>
    change (h.next P x).perf.next P.perf x'.events ((h.next P x).csrWeInt P x') _ _ = _
    rw [hno hi' fun h => hex h.1.1, PerfCounters.next_of_not_we]
  case rf' =>
    have hwe : (h.next P x).rfWeId P x' = false := by
      have hidle : IdStage.instrExecuting ((h.next P x).idIn P x') = false :=
        Core.instrExecuting_eq_false hex
      simp [rfWeId, IdStage.rfWeId, hidle]
    rw [rf_next_of_not_we hwe (rfWeLsu_of_not_mem hi' hok' fun hm => hex hm.1), hrf]

/-! ### Atomicity -/

/-- The CSR instruction in ID has its whole effect in this cycle, or none but its trap: a
legal access stores to the registers of its address and hands the value from before to its
destination. -/
structure Atomic (P : ArchParams) (h : ArchHart n) (x x' : ArchIn) : Prop where
  illegal : IllegalAccess P h → TrapsOnly P h x x'
  file : ¬ IllegalAccess P h → (h.next P x).file = accessed P h x
  rf : ¬ IllegalAccess P h →
    (h.next P x).rf = h.rf.write true (regD h.instr) (h.csrRdata P x)

/-- A CSR instruction is atomic where it is illegal, or where no write of it is masked or dropped.
-/
theorem atomic_iff (hn : n ≤ 16) (hi : Inv P h) {x' : ArchIn} (hok : BusOk P h x)
    (hok' : BusOk P (h.next P x) x') (ha : CsrAccess P h) :
    Atomic P h x x' ↔ IllegalAccess P h ∨ (¬ MasksWrite P h x ∧ ¬ DropsWrite P h x) := by
  by_cases hl : IllegalAccess P h
  · refine ⟨fun _ => Or.inl hl, fun _ => ?_⟩
    exact ⟨fun _ => trapsOnly_of_illegalAccess x' hi hok hok' ha hl, absurd hl, absurd hl⟩
  · rw [← rf_next_eq_write_iff hi ha hl, ← file_next_eq_accessed_iff hn hi ha hl]
    constructor
    · intro hat
      exact Or.inr ⟨hat.rf hl, hat.file hl⟩
    · rintro (h | ⟨hrf, hfile⟩)
      · exact absurd h hl
      · exact ⟨fun h => absurd h hl, fun _ => hfile, fun _ => hrf⟩

/-! ### Once -/

/-- ID executes a CSR instruction in this cycle. -/
def csrExecutes (P : ArchParams) (h : ArchHart n) (_ : ArchIn) : Bool := decide (CsrAccess P h)

/-- Only a word that is handed over is a CSR instruction in the next cycle. -/
theorem not_csrAccess_of_kept (hi : Inv P h) (hok : BusOk P h x) (hd : h.deliver P x = false) :
    ¬ CsrAccess P (h.next P x) := by
  intro ha
  have hi' := inv_next hi hok
  have hd' : Core.deliver P.cfg h.obs.core (h.obs.coreIn P.toHartParams (h.wired P x)) = false := hd
  have hreg : (h.next P x).core.ifId = h.core.ifId := HartObs.ifId_of_kept hi hi' hd ha.1.1
  obtain ⟨hv, -, -, -, hfetch⟩ := Core.instr_next hd' ha.1.1
  have hacc : (Core.main P.cfg h.core).csrAccess = true := by
    rw [Core.main, mainDecode_csrAccess_iff, ← hreg]
    exact mainDecode_csrAccess_iff.mp ha.2
  obtain ⟨hfsm, hstall⟩ :=
    HartObs.decode_of_kept hi hd ha.1.1 (Core.memInsn_of_csrAccess hacc) ha.1.2.2
  have hold : CsrAccess P h := ⟨⟨hv, hfetch.symm.trans ha.1.2.1, hfsm⟩, hacc⟩
  have hno := hold.stallId_eq (x := h.obs.coreIn P.toHartParams (h.wired P x)) hi.core
  exact Bool.false_ne_true (hno.symm.trans hstall)

/-- A CSR instruction that is handed over without an error executes in the next cycle. -/
theorem csrAccess_of_deliver (hd : h.deliver P x = true)
    (hacc : (Core.main P.cfg (h.next P x).core).csrAccess = true)
    (hfetch : (h.next P x).core.instrFetchErrId = false) : CsrAccess P (h.next P x) := by
  have hv : (h.next P x).core.ifId.instrValidId = true := by
    obtain ⟨hset, -, -, hnew⟩ := HartObs.of_deliver hd
    have hset' : (Core.ifIdIn P.cfg h.obs.core
      (h.obs.coreIn P.toHartParams (h.wired P x))).pcSet = false := hset
    simp only [IfIdIn.instrNewId, Bool.and_eq_true] at hnew
    change (h.obs.core.ifId.next (Core.ifIdIn P.cfg h.obs.core
      (h.obs.coreIn P.toHartParams (h.wired P x)))).instrValidId = true
    simp [IfIdReg.next, hnew.1, hnew.2, hset']
  exact ⟨⟨hv, hfetch, (HartObs.running_of_deliver hd).1⟩, hacc⟩

/-- A CSR instruction executes in one cycle at most. -/
theorem csrExecutes_once (a : BitVec 31) {ins : List ArchIn}
    (hok : Machine.Along (next P) (BusOk P) (reset n a) (ins ++ [x])) :
    Machine.firedSince (next P) (deliver P) (csrExecutes P) (reset n a) ins
      + (csrExecutes P (Machine.run (next P) (reset n a) ins) x).toNat ≤ 1 :=
  Machine.fired_once (Inv P) (fun h => ¬ CsrAccess P h) (fun _ _ hi hx => inv_next hi hx)
    (fun _ _ hi hx hd _ => not_csrAccess_of_kept hi hx hd)
    (fun _ _ hi hx hd _ => not_csrAccess_of_kept hi hx hd)
    (fun _ _ _ _ h => decide_eq_false h) (inv_reset P a) hok

/-! ### Runs -/

/-- **Atomic CSR accesses.** In every run on a bus that keeps to its protocol: a CSR
instruction that is handed over to ID without an error executes in the next cycle, and in no
other; software writes a CSR in the cycle of a legal one of a form that writes, and in no
other; and it is atomic if and only if it is illegal, or it neither loses its destination to
the write mask of the secure build, nor a write to a `pmpaddr` register to an open region in
TOR mode. -/
theorem csr_access_atomic_iff (P : ArchParams) (hn : n ≤ 16) (a : BitVec 31) (ins : List ArchIn)
    (x x' : ArchIn) (hok : Machine.Along (next P) (BusOk P) (reset n a) (ins ++ [x, x'])) :
    let h := Machine.run (next P) (reset n a) ins
    (h.deliver P x = true → (Core.main P.cfg (h.next P x).core).csrAccess = true →
      (h.next P x).core.instrFetchErrId = false → CsrAccess P (h.next P x)) ∧
    Machine.firedSince (next P) (deliver P) (csrExecutes P) (reset n a) ins
      + (csrExecutes P h x).toNat ≤ 1 ∧
    (h.csrWeInt P x = true ↔
      CsrAccess P h ∧ ¬ IllegalAccess P h ∧ csrWrites h.instr = true) ∧
    (CsrAccess P h →
      (Atomic P h x x' ↔
        IllegalAccess P h ∨ (¬ MasksWrite P h x ∧ ¬ DropsWrite P h x))) := by
  intro h
  obtain ⟨hins, hx, hx', -⟩ := Machine.along_append.mp hok
  have hi : Inv P h := inv_run a hins
  exact ⟨csrAccess_of_deliver, csrExecutes_once a (Machine.along_concat.mpr ⟨hins, hx⟩),
    csrWeInt_iff hi, atomic_iff hn hi hx hx'⟩

/-- A small hart, with the masks of the secure register file or without them. -/
def smallParams (regwriteSecure : Bool) : ArchParams :=
  { Hart.smallParams with mhpmCounterWidth := 40, regwriteSecure := regwriteSecure }

/-- A cycle in which nothing is counted. -/
def uncounted (x : HartIn) : ArchIn := { x with events := .none, resultEx := 0#32 }

/-- A CSR instruction in ID, with the operand `w`. -/
def operand (w : BitVec 32) : ArchIn := uncounted { HartIn.idle with aluOperandAEx := w }

/-- `csrrw x0, mscratch, x2` has written 5, and `csrrw x1, mscratch, x2` is in ID. -/
def mscratchTrace : List ArchIn :=
  [operand 0#32, operand 0#32, operand 0#32, uncounted (.fetch 0x34011073#32), operand 5#32,
    uncounted (.fetch 0x340110F3#32)]

/-- Without the masks it exchanges the values. -/
theorem csr_access_atomic_mscratch :
    let h := Machine.run (next (smallParams false)) (reset 4 0#31) mscratchTrace
    let h' := h.next (smallParams false) (operand 7#32)
    h'.file.regs.mscratch = 7#32 ∧ h'.rf.rfReg 1#5 = 5#32 := by
  intro h h'
  have hstored : (accessed (smallParams false) h (operand 7#32)).regs.mscratch = 7#32 := by
    decide +kernel +revert
  have hread : (h.rf.write true (regD h.instr)
      (h.csrRdata (smallParams false) (operand 7#32))).rfReg 1#5 = 5#32 := by
    decide +kernel +revert
  have hl : ¬ IllegalAccess (smallParams false) h := by decide +kernel
  have hat : Atomic (smallParams false) h (operand 7#32) (operand 0#32) := by
    refine ((csr_access_atomic_iff (smallParams false) (by decide : 4 ≤ 16) 0#31 mscratchTrace
      (operand 7#32) (operand 0#32) (by decide +kernel)).2.2.2
        (by decide +kernel)).mpr (Or.inr ⟨?_, ?_⟩)
    · rintro ⟨hsec, -⟩
      cases hsec
    · rintro ⟨-, i, haddr, -⟩
      have hno : ∀ i : Fin 4, funct12 h.instr ≠ CsrNum.offPmpAddr + BitVec.ofNat 12 i := by
        decide +kernel +revert
      exact hno i haddr
  exact ⟨(congrArg (fun f : CsrFile 4 => f.regs.mscratch) (hat.file hl)).trans hstored,
    (congrArg (fun rf : RegisterFile => rf.rfReg 1#5) (hat.rf hl)).trans hread⟩

/-- `csrrs x1, misa, x0` is in ID. -/
def misaTrace : List ArchIn :=
  [operand 0#32, operand 0#32, operand 0#32, uncounted (.fetch 0x301020F3#32)]

/-- With the masks it stores zero instead of `misa`. -/
theorem misa_read_masked :
    let h := Machine.run (next (smallParams true)) (reset 4 0#31) misaTrace
    CsrAccess (smallParams true) h ∧ ¬ IllegalAccess (smallParams true) h ∧
      h.csrRdata (smallParams true) (operand 0#32) = 0x40101104#32 ∧
      (h.next (smallParams true) (operand 0#32)).rf.rfReg 1#5 = 0#32 ∧
      ¬ Atomic (smallParams true) h (operand 0#32) (operand 0#32) ∧
      Machine.Along (next (smallParams true)) (BusOk (smallParams true)) (reset 4 0#31)
        (misaTrace ++ [operand 0#32, operand 0#32]) := by
  intro h
  have hread : h.csrRdata (smallParams true) (operand 0#32) = 0x40101104#32 := by
    decide +kernel +revert
  have hmasked : (h.next (smallParams true) (operand 0#32)).rf.rfReg 1#5 = 0#32 := by
    decide +kernel +revert
  have hvalue : (h.rf.write true (regD h.instr) (h.csrRdata (smallParams true)
      (operand 0#32))).rfReg 1#5 = 0x40101104#32 := by
    decide +kernel +revert
  have hl : ¬ IllegalAccess (smallParams true) h := by decide +kernel
  refine ⟨by decide +kernel, hl, hread, hmasked, fun hat => ?_, by decide +kernel⟩
  rw [← hat.rf hl, hmasked] at hvalue
  cases hvalue

end ArchHart

end CocoIbex
