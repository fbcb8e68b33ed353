import CocoIbex.ExactlyOnce
import CocoIbex.Legality
import CocoIbex.PreciseTrap

/-!
# Retirement

When an instruction of the observed hart is complete. What takes more than one cycle in ID is a
load or store, a multiplication or division, a branch, a jump or a two-cycle operation of the
ALU, all of them legal and none of them special; so an instruction that stalls goes on
executing, and one that raises an exception does so in the cycle in which it is complete. An
instruction retires in the cycle in which it ends without an exception.

EX is an input of the hart, and needs a promise (`ExOk`): in its later cycles an instruction
that does not multiply or divide is not kept waiting. `Promised` is this and the bus protocol
together. The invariant about the later cycles of ID is `Later`: they belong to a legal
instruction that executes.

The whole hart has EX inside and proves the promise in place of assuming it.

## Main results

* `later_next` — the step lemma;
* `next_of_stall` — an instruction that stalls goes on executing in its later cycles;
* `idFsm_next_of_not_stall` — one that does not leaves the next instruction its first cycle;
* `retires_eq` — when an instruction retires.
-/

namespace CocoIbex

open CompressedOut

/-! ### Instructions that take several cycles -/

/-- A legal instruction outside of the system opcode. -/
structure MainOut.Plain (o : MainOut) : Prop where
  illegalInsn : o.illegalInsn = false
  ebrkInsn : o.ebrkInsn = false
  mretInsn : o.mretInsn = false
  dretInsn : o.dretInsn = false
  ecallInsn : o.ecallInsn = false
  wfiInsn : o.wfiInsn = false
  csrAccess : o.csrAccess = false

/-- Only the system opcode has special instructions. -/
theorem plain_of_legal {cfg : Config} {first illegalC : Bool} {i : BitVec 32}
    (hl : (mainDecode cfg first illegalC i).illegalInsn = false)
    (ho : Opcode.ofBits (opcodeBits i) ≠ some .system) :
    (mainDecode cfg first illegalC i).Plain := by
  obtain ⟨-, heq⟩ := mainDecode_of_legal hl
  rw [heq] at hl ⊢
  have hrest : (mainDecodeRaw cfg first i).ebrkInsn = false ∧
      (mainDecodeRaw cfg first i).mretInsn = false ∧
      (mainDecodeRaw cfg first i).dretInsn = false ∧
      (mainDecodeRaw cfg first i).ecallInsn = false ∧
      (mainDecodeRaw cfg first i).wfiInsn = false ∧
      (mainDecodeRaw cfg first i).csrAccess = false := by
    cases hop : Opcode.ofBits (opcodeBits i) with
    | none => simp [mainDecodeRaw, hop] at hl
    | some o =>
        cases o
        case system => exact absurd hop ho
        case miscMem =>
          simp only [mainDecodeRaw, hop]
          split <;> simp
        all_goals simp [mainDecodeRaw, hop]
  obtain ⟨hebrk, hmret, hdret, hecall, hwfi, hcsr⟩ := hrest
  exact ⟨hl, hebrk, hmret, hdret, hecall, hwfi, hcsr⟩

/-- The opcodes of the branches, and of the jumps and FENCE.I. -/
theorem mainDecode_inDec (cfg : Config) (first illegalC : Bool) (i : BitVec 32) :
    let d := mainDecode cfg first illegalC i
    (d.branchInDec = true ↔
        d.illegalInsn = false ∧ Opcode.ofBits (opcodeBits i) = some .branch) ∧
      (d.jumpInDec = true ↔ d.illegalInsn = false ∧
        (Opcode.ofBits (opcodeBits i) = some .jal ∨ Opcode.ofBits (opcodeBits i) = some .jalr ∨
          Opcode.ofBits (opcodeBits i) = some .miscMem ∧ funct3 i = 0b001#3)) ∧
      (d.jumpInDec = true → d.jumpSet = first) ∧
      (d.dataReq = true → d.illegalInsn = false ∧
        (Opcode.ofBits (opcodeBits i) = some .load ∨ Opcode.ofBits (opcodeBits i) = some .store))
      := by
  intro d
  cases hl : d.illegalInsn with
  | true =>
      have hn := enablesNothing_of_illegal false hl
      have hb : d.branchInDec = false := hn.branchInDec
      have hj : d.jumpInDec = false := hn.jumpInDec
      have hd : d.dataReq = false := hn.dataReq
      simp [hb, hj, hd]
  | false =>
      have hraw : d = mainDecodeRaw cfg first i := (mainDecode_of_legal hl).2
      rw [hraw] at hl ⊢
      cases hop : Opcode.ofBits (opcodeBits i) with
      | none => simp [mainDecodeRaw, hop] at hl
      | some o =>
          cases o
          case system =>
            simp only [mainDecodeRaw, hop, systemOut]
            split_ifs <;> simp
          case miscMem =>
            simp only [mainDecodeRaw, hop]
            split <;> simp_all
          all_goals simp [mainDecodeRaw, hop]

/-- Legality does not depend on the cycle. -/
theorem mainDecode_illegalInsn (cfg : Config) (first first' illegalC : Bool) (i : BitVec 32) :
    (mainDecode cfg first illegalC i).illegalInsn
      = (mainDecode cfg first' illegalC i).illegalInsn := by
  have hraw : (mainDecodeRaw cfg first i).illegalInsn
      = (mainDecodeRaw cfg first' i).illegalInsn := by
    simp only [mainDecodeRaw]
    split <;> (try split) <;> rfl
  simp [mainDecode, hraw]

/-- The opcodes that reach the multiplier or take two cycles of the ALU. -/
theorem aluDecode_op {cfg : Config} {first branchTaken : Bool} {i : BitVec 32}
    (h : ((aluDecode cfg first branchTaken i).multSel ||
      (aluDecode cfg first branchTaken i).divSel ||
      (aluDecode cfg first branchTaken i).aluMulticycle) = true) :
    Opcode.ofBits (opcodeBits i) = some .op ∨ Opcode.ofBits (opcodeBits i) = some .opImm := by
  cases hop : Opcode.ofBits (opcodeBits i) with
  | none => simp [aluDecode, hop] at h
  | some o =>
      cases o
      case op => exact Or.inl rfl
      case opImm => exact Or.inr rfl
      case miscMem =>
        simp only [aluDecode, hop] at h
        split at h <;> (try split at h) <;> simp [pcPlus] at h
      case system =>
        simp only [aluDecode, hop] at h
        split_ifs at h <;> simp at h
      all_goals
        simp only [aluDecode, hop] at h
        (try split_ifs at h) <;> simp [pcPlus] at h

/-- Only the ternary operations and the rotations of registers take two cycles. -/
theorem opAlu_multicycle {cfg : Config} {first : Bool} {f7 : BitVec 7} {f3 : BitVec 3}
    (h : (opAlu cfg first f7 f3).aluMulticycle = true) :
    cfg.rv32b = true ∧ (opTernary f7 f3 = true ∨
      opRv32bAlu f7 f3 = some .rol ∨ opRv32bAlu f7 f3 = some .ror) := by
  have hternary : ∀ (b : BitVec 2) (f : BitVec 3), (opTernaryAlu b f).isSome = true →
      (f.extractLsb 1 0 : BitVec 2) = 0b01#2 := by decide
  by_cases hi : f7.getLsbD 1 = true
  · simp only [opAlu, if_pos hi] at h
    split_ifs at h with hb
    refine ⟨hb, Or.inl ?_⟩
    cases ha : opTernaryAlu (f7.extractLsb 1 0) f3 with
    | none => simp [ha] at h
    | some a =>
        have hf := hternary (f7.extractLsb 1 0) f3 (by simp [ha])
        rw [opTernary, hi, hf]
        rfl
  · simp only [opAlu, if_neg hi] at h
    cases hbase : opRv32iAlu f7 f3 with
    | some a => simp [hbase] at h
    | none =>
        cases ha : opRv32bAlu f7 f3 with
        | none =>
            simp only [hbase, ha] at h
            split_ifs at h
        | some a =>
            simp only [hbase, ha] at h
            split_ifs at h with hb
            · exact ⟨hb, Or.inr (by simpa using h)⟩

/-- The register operations of two cycles are legal. -/
theorem opIllegal_of_multicycle (cfg : Config) (first : Bool) (f7 : BitVec 7) (f3 : BitVec 3)
    (h : (opAlu cfg first f7 f3).aluMulticycle = true) : opIllegal cfg f7 f3 = false := by
  have hrotate : ∀ (f7 : BitVec 7) (f3 : BitVec 3),
      opRv32bAlu f7 f3 = some .rol ∨ opRv32bAlu f7 f3 = some .ror → (f7, f3) ∈ opRv32b := by
    intro f7 f3 hf
    simp only [opRv32bAlu] at hf
    split at hf <;> simp_all [opRv32b]
  obtain ⟨hb, ht | hr⟩ := opAlu_multicycle h
  · simp [opIllegal, ht, hb]
  · simp [opIllegal, hrotate f7 f3 hr, hb]

/-- Only the rotation and the funnel shift take an immediate in two cycles. -/
theorem opImmAlu_multicycle {cfg : Config} {first : Bool} {f7 : BitVec 7} {rs2 : BitVec 5}
    {f3 : BitVec 3} (h : (opImmAlu cfg first f7 rs2 f3).2.1 = true) :
    f3 = 0b101#3 ∧ cfg.rv32b = true ∧ (f7.getLsbD 1 = true ∨ f7.extractLsb 6 2 = 0b01100#5) := by
  simp only [opImmAlu] at h
  split at h
  case h_7 => split_ifs at h
  case h_8 =>
    split_ifs at h with hb hi
    · exact ⟨rfl, hb, Or.inl hi⟩
    · split at h
      case h_5 h5 => exact ⟨rfl, hb, Or.inr h5⟩
      all_goals cases h
  all_goals cases h

/-- The operations with an immediate of two cycles are legal. -/
theorem opImmIllegal_of_multicycle (cfg : Config) (first : Bool) (f7 : BitVec 7)
    (rs2 : BitVec 5) (f3 : BitVec 3) (h : (opImmAlu cfg first f7 rs2 f3).2.1 = true) :
    opImmIllegal cfg f7 rs2 f3 = false := by
  obtain ⟨rfl, hb, hi | h5⟩ := opImmAlu_multicycle h
  · simp [opImmIllegal, hb, hi]
  · simp [opImmIllegal, hb, h5]

/-- Whatever the ALU takes two cycles for is a legal instruction. -/
theorem legal_of_aluMulticycle {cfg : Config} {first first' branchTaken : Bool} {i : BitVec 32}
    (h : (aluDecode cfg first branchTaken i).aluMulticycle = true) :
    (mainDecodeRaw cfg first' i).illegalInsn = false := by
  have hop := @aluDecode_op cfg first branchTaken i (by simp [h])
  obtain hop | hop := hop
  · simp only [aluDecode, hop] at h
    simp only [mainDecodeRaw, hop]
    exact opIllegal_of_multicycle cfg first _ _ h
  · simp only [aluDecode, hop] at h
    simp only [mainDecodeRaw, hop]
    exact opImmIllegal_of_multicycle cfg first _ _ _ h

/-! ### Illegal compressed words -/

/-- The expansion takes one cycle of the ALU. -/
def CompressedOut.OneCycle (o : CompressedOut) : Prop :=
  ∀ (cfg : Config) (first branchTaken : Bool),
    (aluDecode cfg first branchTaken o.instr).aluMulticycle = false

/-- A compressed word as such is none of the instructions of two cycles: its last two bits are not
those of an instruction of full length. -/
theorem oneCycle_forward {w : BitVec 32} (hq : quadrant w ≠ 0b11#2) :
    (forward w).OneCycle := by
  intro cfg first branchTaken
  simp [aluDecode, ofBits_of_quadrant hq]

/-- Neither has an opcode but those of the register operations. -/
theorem oneCycle_of_opcode {o : CompressedOut} {p : Opcode}
    (ho : Opcode.ofBits (opcodeBits o.instr) = some p) (hop : p ≠ .op) (himm : p ≠ .opImm) :
    o.OneCycle := by
  intro cfg first branchTaken
  by_contra hne
  have h := @aluDecode_op cfg first branchTaken o.instr (by simp [hne])
  rw [ho] at h
  obtain h | h := h
  · exact hop (Option.some.inj h)
  · exact himm (Option.some.inj h)

/-- Nor has an operation with an immediate other than a right shift. -/
theorem oneCycle_of_opImm {o : CompressedOut}
    (ho : Opcode.ofBits (opcodeBits o.instr) = some .opImm)
    (hf : funct3 o.instr ≠ 0b101#3 ∨ funct7 o.instr = 0#7 ∨ funct7 o.instr = 0b0100000#7) :
    o.OneCycle := by
  intro cfg first branchTaken
  by_contra hne
  simp only [aluDecode, ho, Bool.not_eq_false] at hne
  obtain ⟨h3, -, h7⟩ := opImmAlu_multicycle hne
  obtain hf | hf | hf := hf
  · exact hf h3
  · simp [hf] at h7
  · simp [hf] at h7

/-- No instruction of quadrant C0 takes the ALU two cycles. -/
theorem decodeC0_oneCycle {w : BitVec 32} (hq : quadrant w ≠ 0b11#2) :
    (decodeC0 w).OneCycle := by
  simp only [decodeC0]
  split
  case h_1 => exact oneCycle_of_opImm (by simp) (by simp)
  case h_2 => exact oneCycle_of_opcode (p := .load) (by simp) (by simp) (by simp)
  case h_3 => exact oneCycle_of_opcode (p := .store) (by simp) (by simp) (by simp)
  case h_4 => exact oneCycle_forward hq

/-- No register operation of quadrant C1 takes the ALU two cycles. -/
theorem decodeC1Reg_oneCycle {w : BitVec 32} (hq : quadrant w ≠ 0b11#2) :
    (decodeC1Reg w).OneCycle := by
  intro cfg first branchTaken
  simp only [decodeC1Reg]
  split
  case h_5 => exact oneCycle_forward hq cfg first branchTaken
  all_goals simp [aluDecode, opAlu, opRv32iAlu]

/-- None of the other operations of quadrant C1 takes the ALU two cycles. -/
theorem decodeC1Arith_oneCycle {w : BitVec 32} (hq : quadrant w ≠ 0b11#2) :
    (decodeC1Arith w).OneCycle := by
  simp only [decodeC1Arith]
  split
  case h_1 => exact oneCycle_of_opImm (by simp) (by simp)
  case h_2 => exact oneCycle_of_opImm (by simp) (by simp)
  case h_3 => exact oneCycle_of_opImm (by simp) (by simp)
  case h_4 => exact decodeC1Reg_oneCycle hq

/-- No instruction of quadrant C1 takes the ALU two cycles. -/
theorem decodeC1_oneCycle {w : BitVec 32} (hq : quadrant w ≠ 0b11#2) :
    (decodeC1 w).OneCycle := by
  simp only [decodeC1]
  split
  case h_5 =>
    simp only [decodeC1Lui]
    split_ifs
    · exact oneCycle_of_opImm (by simp) (by simp)
    · exact oneCycle_of_opcode (p := .lui) (by simp) (by simp) (by simp)
  case h_6 => exact decodeC1Arith_oneCycle hq
  case h_1 => exact oneCycle_of_opImm (by simp) (by simp)
  case h_4 => exact oneCycle_of_opImm (by simp) (by simp)
  case h_7 => exact oneCycle_of_opcode (p := .branch) (by simp) (by simp) (by simp)
  all_goals exact oneCycle_of_opcode (p := .jal) (by simp) (by simp) (by simp)

/-- No instruction of quadrant C2 takes the ALU two cycles. -/
theorem decodeC2_oneCycle {w : BitVec 32} (hq : quadrant w ≠ 0b11#2) :
    (decodeC2 w).OneCycle := by
  simp only [decodeC2]
  split
  case h_1 => exact oneCycle_of_opImm (by simp) (by simp)
  case h_2 => exact oneCycle_of_opcode (p := .load) (by simp) (by simp) (by simp)
  case h_3 =>
    simp only [decodeC2Arith]
    split_ifs
    · intro cfg first branchTaken
      simp [aluDecode, opAlu, opRv32iAlu]
    · exact oneCycle_of_opcode (p := .jalr) (by simp) (by simp) (by simp)
    · intro cfg first branchTaken
      simp [aluDecode, opAlu, opRv32iAlu]
    · exact oneCycle_of_opcode (p := .system) rfl (by simp) (by simp)
    · exact oneCycle_of_opcode (p := .jalr) (by simp) (by simp) (by simp)
  case h_4 => exact oneCycle_of_opcode (p := .store) (by simp) (by simp) (by simp)
  case h_5 => exact oneCycle_forward hq

/-- A compressed word, legal or not, takes one cycle of the ALU. -/
theorem compressedDecoder_oneCycle {w : BitVec 32} (hq : quadrant w ≠ 0b11#2) :
    (compressedDecoder w).OneCycle := by
  obtain h | h | h | h := quadrant_cases w
  · rw [compressedDecoder_c0 h]
    exact decodeC0_oneCycle hq
  · rw [compressedDecoder_c1 h]
    exact decodeC1_oneCycle hq
  · rw [compressedDecoder_c2 h]
    exact decodeC2_oneCycle hq
  · exact absurd h hq

/-- A fetched word that takes two cycles of the ALU is legal. -/
theorem legal_of_multicycle_word {cfg : Config} {first first' branchTaken : Bool} {w : BitVec 32}
    (h : (aluDecode cfg first branchTaken (compressedDecoder w).instr).aluMulticycle = true) :
    (mainDecode cfg first' (compressedDecoder w).illegalInstr
      (compressedDecoder w).instr).illegalInsn = false := by
  by_cases hq : quadrant w = 0b11#2
  · have hraw := @legal_of_aluMulticycle _ _ first' _ _ h
    rw [compressedDecoder_c3 hq] at hraw ⊢
    simpa [mainDecode, decodeC3] using hraw
  · rw [compressedDecoder_oneCycle hq cfg first branchTaken] at h
    cases h

/-! ### What stalls -/

namespace IdStage

variable (cfg : Config) (fsm : IdFsm) (x : IdIn)

/-- The instruction may take several cycles. -/
def Lasting : Prop :=
  (main cfg fsm x).dataReq = true ∨ multdivEnDec cfg fsm x = true ∨
    (main cfg fsm x).branchInDec = true ∨ (main cfg fsm x).jumpInDec = true ∨
      (alu cfg fsm x).aluMulticycle = true

variable {cfg fsm x}

/-- Only such an instruction stalls when the LSU is idle. -/
theorem lasting_of_stallId (hb : x.lsuBusy = false) (hs : stallId cfg fsm x = true) :
    Lasting cfg fsm x := by
  by_contra hne
  simp only [Lasting, not_or, Bool.not_eq_true] at hne
  obtain ⟨hd, hm, hbr, hj, ha⟩ := hne
  have ho : (fsmOut cfg fsm x).stallMultdiv = false ∧ (fsmOut cfg fsm x).stallJump = false ∧
      (fsmOut cfg fsm x).stallBranch = false ∧ (fsmOut cfg fsm x).stallAlu = false := by
    cases fsm with
    | firstCycle =>
        simp only [fsmOut, hd, hm, hbr, hj, ha]
        split_ifs <;> simp
    | multiCycle =>
        simp only [fsmOut, hm, hbr, hj]
        split_ifs <;> simp
  simp [stallId, stallMem, hb, hd, ho] at hs

/-- In the first cycle, a stall and the way to the later cycles are one. -/
theorem stallId_firstCycle (hx : instrExecuting x = true) (hb : x.lsuBusy = false) :
    stallId cfg .firstCycle x = true ↔ (fsmOut cfg .firstCycle x).idFsmD = .multiCycle := by
  have hv : x.instrValid = true := by
    simp only [instrExecuting, Bool.and_eq_true] at hx
    exact hx.1.1
  simp only [stallId, stallMem, instrFirstCycle, hv, hb, fsmOut, hx, if_true]
  split_ifs <;> simp_all [or_comm]

/-- In a later cycle, an instruction that does not stall is complete. -/
theorem idFsmD_of_not_stallId (hx : instrExecuting x = true)
    (hs : stallId cfg .multiCycle x = false)
    (hex : multdivEnDec cfg .multiCycle x = false → x.exValid = true) :
    (fsmOut cfg .multiCycle x).idFsmD = .firstCycle := by
  have hv : x.instrValid = true := by
    simp only [instrExecuting, Bool.and_eq_true] at hx
    exact hx.1.1
  rw [(fsmOut_multiCycle cfg x hx).2.2, if_pos]
  by_contra hne
  rw [Bool.not_eq_true] at hne
  cases hd : (main cfg .multiCycle x).dataReq with
  | true =>
      have hl : x.lsuValid = false := by simpa [multicycleDone, hd] using hne
      simp [stallId, stallMem, hv, hd, hl] at hs
  | false =>
      have hex' : x.exValid = false := by simpa [multicycleDone, hd] using hne
      cases hm : multdivEnDec cfg .multiCycle x with
      | true => simp [stallId, fsmOut, hx, hm, hne] at hs
      | false =>
          rw [hex hm] at hex'
          cases hex'

end IdStage

namespace Core

variable {cfg : Config} {s : Core} {x : CoreIn}

/-- Whether an instruction executes is a matter of three registers. -/
instance : Decidable (Executing s) := inferInstanceAs (Decidable (_ ∧ _ ∧ _))

/-- The registers of the instruction in ID come from one word. -/
def FromWord (s : Core) : Prop := ∃ w, s.ifId = IfIdReg.ofWord w

/-- An executing instruction outside of the system opcode is special for an error of the LSU
only. -/
theorem special_of_plain (h : Executing s) (ho : (main cfg s).Plain) :
    s.ctrl.specialReqAll (ctrlIn cfg s x) = Ctrl.excReqLsu (ctrlDec cfg s x) := by
  have hill : illegalCsrInsn cfg s x = false := by simp [illegalCsrInsn, ho.csrAccess]
  have hcsr : csrOpEn cfg s x = false := by
    simp [csrOpEn, IdStage.csrOpEn, ho.csrAccess]
  simp [Ctrl.specialReqAll, Ctrl.mretInsn, Ctrl.dretInsn, Ctrl.wfiInsn, Ctrl.csrPipeFlush,
    Ctrl.excReqD, Ctrl.ecallInsn, Ctrl.ebrkInsn, Ctrl.illegalInsnD, Ctrl.illegalDret,
    Ctrl.illegalUmode, Ctrl.instrFetchErr, ctrlIn, ctrlDec, csrPipeFlush, ho.mretInsn,
    ho.dretInsn, ho.wfiInsn, ho.ecallInsn, ho.ebrkInsn, ho.illegalInsn, hill, hcsr, h.2.1]

/-- What takes several cycles is legal and no system instruction. -/
theorem plain_of_lasting (hw : FromWord s) (h : IdStage.Lasting cfg s.idFsm (idIn cfg s x)) :
    (main cfg s).Plain := by
  obtain ⟨w, hw⟩ := hw
  set first := s.ifId.instrValidId && s.idFsm == .firstCycle with hfirst
  have hmain : main cfg s
      = mainDecode cfg first s.ifId.illegalCInsnId s.ifId.instrRdataId := rfl
  have hdec := mainDecode_inDec cfg first s.ifId.illegalCInsnId s.ifId.instrRdataId
  rw [hmain]
  obtain ⟨hbr, hj, -, hd⟩ := hdec
  obtain h | h | h | h | h := h
  · obtain ⟨hl, ho | ho⟩ := hd h <;> exact plain_of_legal hl (by simp [ho])
  · simp only [IdStage.multdivEnDec, Bool.and_eq_true, Bool.not_eq_true'] at h
    have hop := @aluDecode_op cfg first x.branchTaken s.ifId.instrRdataId
      (by rw [Bool.or_eq_true]; exact Or.inl h.2)
    obtain ho | ho := hop <;> exact plain_of_legal h.1 (by simp [ho])
  · obtain ⟨hl, ho⟩ := hbr.mp h
    exact plain_of_legal hl (by simp [ho])
  · obtain ⟨hl, ho | ho | ⟨ho, -⟩⟩ := hj.mp h <;> exact plain_of_legal hl (by simp [ho])
  · have ha : (aluDecode cfg first x.branchTaken s.ifId.instrRdataId).aluMulticycle = true := h
    have hop := @aluDecode_op cfg first x.branchTaken s.ifId.instrRdataId
      (by rw [Bool.or_eq_true]; exact Or.inr ha)
    have hl : (mainDecode cfg first s.ifId.illegalCInsnId s.ifId.instrRdataId).illegalInsn
        = false := by
      rw [hw] at ha ⊢
      exact legal_of_multicycle_word ha
    obtain ho | ho := hop <;> exact plain_of_legal hl (by simp [ho])

/-- An instruction that stalls has not had the response that completes it. -/
theorem lsuValid_of_stall (hi : Inv cfg s) (hok : BusOk cfg s x) (hx : Executing s)
    (hs : stallId cfg s x = true) : lsuValid cfg s x = false := by
  by_contra hl
  rw [Bool.not_eq_false] at hl
  obtain ⟨⟨-, hm, hmem⟩, hidle⟩ := hi.of_lsuValid hok hl
  have hxe : IdStage.instrExecuting (idIn cfg s x) = true := instrExecuting_iff.mpr hx
  have hdone := (multicycleDone_of_mem (x := x) hmem).trans hl
  have hb : s.lsu.busy = false := by simp [Lsu.busy, hidle]
  rw [hm] at hdone
  have hst := IdStage.stallId_of_multicycleDone cfg _ hxe hdone
  rw [← hm] at hst
  have hmst : IdStage.stallMem cfg s.idFsm (idIn cfg s x) = true := hst.symm.trans hs
  simp [IdStage.stallMem, hb, hl, IdStage.instrFirstCycle, hm] at hmst

/-- An instruction that stalls asks for nothing special. -/
theorem special_of_stall (hi : Inv cfg s) (hok : BusOk cfg s x) (hw : FromWord s)
    (hx : Executing s) (hs : stallId cfg s x = true) :
    s.ctrl.specialReqAll (ctrlIn cfg s x) = false := by
  have hnone := lsuValid_of_stall hi hok hx hs
  by_cases hmem : memInsn cfg s = true
  · rw [special_of_mem hx hmem]
    exact excReqLsu_of_not_lsuValid hnone
  · have hb : s.lsu.busy = false := (hi.rest fun h => hmem h.2.2).1
    have hlast : IdStage.Lasting cfg s.idFsm (idIn cfg s x) :=
      IdStage.lasting_of_stallId hb hs
    rw [special_of_plain hx (plain_of_lasting hw hlast)]
    exact excReqLsu_of_not_lsuValid hnone

end Core

namespace HartObs

variable {n : ℕ} (P : HartParams) (o : HartObs n) (x : HartIn)

/-- EX has its result in a later cycle unless it multiplies or divides. -/
def ExOk : Prop :=
  o.core.idFsm = .multiCycle →
    (IdStage.alu P.cfg o.core.idFsm (Core.idIn P.cfg o.core (o.coreIn P x))).multSel = false →
    (IdStage.alu P.cfg o.core.idFsm (Core.idIn P.cfg o.core (o.coreIn P x))).divSel = false →
      x.exValid = true

/-- The promise is about one cycle and can be checked in it. -/
instance : Decidable (ExOk P o x) := inferInstanceAs (Decidable (_ → _ → _ → _))

/-- What the hart is promised: the protocol of the data bus, and the results of EX. -/
structure Promised : Prop where
  bus : BusOk P o x
  ex : ExOk P o x

/-- So can both of them. -/
instance : Decidable (Promised P o x) :=
  decidable_of_iff (BusOk P o x ∧ ExOk P o x) ⟨fun h => ⟨h.1, h.2⟩, fun h => ⟨h.bus, h.ex⟩⟩

/-- The later cycles of ID belong to a legal instruction that executes. -/
def Later : Prop :=
  o.core.idFsm = .multiCycle →
    Core.Executing o.core ∧ (Core.main P.cfg o.core).illegalInsn = false

/-- The instruction in ID is complete in this cycle. -/
def completes : Bool := Core.instrIdDone P.cfg o.core (o.coreIn P x)

/-- The instruction in ID retires: it ends, for the first time, and without an exception. -/
def retires : Bool := o.ends P x && !o.ended && (o.exception P x).isNone

variable {P o x}

/-- What executes comes from a word that has been handed over. -/
theorem fromWord (hi : Inv P o) (hx : Core.Executing o.core) : Core.FromWord o.core :=
  ⟨o.word, (hi.ifId hx.1).1⟩

/-- Nothing is complete but an executing instruction that does not stall. -/
theorem completes_iff :
    o.completes P x = true ↔
      Core.Executing o.core ∧ Core.stallId P.cfg o.core (o.coreIn P x) = false := by
  have hs : IdStage.stallId P.cfg o.core.idFsm (Core.idIn P.cfg o.core (o.coreIn P x))
      = Core.stallId P.cfg o.core (o.coreIn P x) := rfl
  simp only [completes, Core.instrIdDone, IdStage.instrDone, hs, Bool.and_eq_true,
    Bool.not_eq_true', Core.instrExecuting_iff]
  constructor
  · rintro ⟨⟨h, -⟩, hx⟩
    exact ⟨hx, h⟩
  · rintro ⟨hx, h⟩
    exact ⟨⟨h, Core.flushId_of_executing hx⟩, hx⟩

/-- An instruction that stalls goes on executing in its later cycles. -/
theorem next_of_stall (hi : Inv P o) (hok : BusOk P o x) (hx : Core.Executing o.core)
    (hs : Core.stallId P.cfg o.core (o.coreIn P x) = true) :
    o.ends P x = false ∧ Core.Executing (o.next P x).core ∧ (o.next P x).word = o.word ∧
      (o.next P x).core.ifId = o.core.ifId ∧ (o.next P x).core.idFsm = .multiCycle := by
  have hsp := Core.special_of_stall hi.core hok (fromWord hi hx) hx hs
  have hends : o.ends P x = false := by simp [ends, hs, hsp]
  obtain ⟨hfsm, hv⟩ := next_of_not_ends hx.2.2 hx.1 hends
  have hflush := @Core.flushId_of_executing P.cfg _ (o.coreIn P x) hx
  have herr := (Core.next_of_stall hx.1 hs hflush).2.2
  have hd : o.deliver P x = false := by
    simp [deliver, Core.deliver, IfIdIn.instrNewId, IfIdIn.idInReady, Core.ifIdIn, hs]
  obtain ⟨-, -, hword⟩ := kept_next hd hv
  have hreg : (o.next P x).core.ifId = o.core.ifId := by
    rw [((inv_next hi hok).ifId hv).1, (hi.ifId hx.1).1, hword]
  refine ⟨hends, ⟨hv, herr.trans hx.2.1, hfsm⟩, hword, hreg, ?_⟩
  cases hm : o.core.idFsm with
  | multiCycle => exact Core.idFsm_next_of_stall hi.core hx hm hs
  | firstCycle =>
      have hb : o.core.lsu.busy = false :=
        (hi.core.rest fun h => by cases hm.symm.trans h.2.1).1
      have hxe := (@Core.instrExecuting_iff P.cfg _ (o.coreIn P x)).mpr hx
      have h := (@IdStage.stallId_firstCycle P.cfg _ hxe hb).mp
      rw [← hm] at h
      exact h hs

/-- One that does not stall leaves the next instruction its first cycle. -/
theorem idFsm_next_of_not_stall (hi : Inv P o) (hl : Later P o) (hex : ExOk P o x)
    (hx : Core.Executing o.core) (hs : Core.stallId P.cfg o.core (o.coreIn P x) = false) :
    (o.next P x).core.idFsm = .firstCycle := by
  have hxe := (@Core.instrExecuting_iff P.cfg _ (o.coreIn P x)).mpr hx
  have hnext : (o.next P x).core.idFsm
      = (IdStage.fsmOut P.cfg o.core.idFsm (Core.idIn P.cfg o.core (o.coreIn P x))).idFsmD := rfl
  rw [hnext]
  cases hm : o.core.idFsm with
  | firstCycle =>
      have hb : o.core.lsu.busy = false :=
        (hi.core.rest fun h => by cases hm.symm.trans h.2.1).1
      have h := (@IdStage.stallId_firstCycle P.cfg _ hxe hb).mpr
      cases hd : (IdStage.fsmOut P.cfg .firstCycle
          (Core.idIn P.cfg o.core (o.coreIn P x))).idFsmD with
      | firstCycle => rfl
      | multiCycle =>
          have hst := h hd
          rw [← hm] at hst
          cases hs.symm.trans hst
  | multiCycle =>
      have hs' : IdStage.stallId P.cfg o.core.idFsm (Core.idIn P.cfg o.core (o.coreIn P x))
          = false := hs
      have hleg : (IdStage.main P.cfg o.core.idFsm
          (Core.idIn P.cfg o.core (o.coreIn P x))).illegalInsn = false := (hl hm).2
      have hmd : IdStage.multdivEnDec P.cfg o.core.idFsm (Core.idIn P.cfg o.core (o.coreIn P x))
          = false → x.exValid = true := by
        intro h
        simp only [IdStage.multdivEnDec, hleg, Bool.not_false, Bool.true_and,
          Bool.or_eq_false_iff] at h
        exact hex hm h.1 h.2
      rw [hm] at hs' hmd
      exact IdStage.idFsmD_of_not_stallId hxe hs' hmd

/-- An instruction that does not execute leaves the ID-EX machine alone. -/
theorem next_of_not_executing (hl : Later P o) (hx : ¬ Core.Executing o.core) :
    (o.next P x).core.idFsm = .firstCycle ∧ (o.next P x).core.branchSetQ = false := by
  have hout : Core.idOut P.cfg o.core (o.coreIn P x) = _ := Core.idOut_of_not_executing hx
  have hfirst : o.core.idFsm = .firstCycle := by
    cases hm : o.core.idFsm with
    | firstCycle => rfl
    | multiCycle => exact absurd (hl hm).1 hx
  have hf : (o.next P x).core.idFsm = (Core.idOut P.cfg o.core (o.coreIn P x)).idFsmD := rfl
  have hb : (o.next P x).core.branchSetQ
      = (Core.idOut P.cfg o.core (o.coreIn P x)).branchSetD := rfl
  rw [hf, hb, hout]
  exact ⟨hfirst, rfl⟩

/-- **Step lemma.** The promise about the later cycles of an instruction survives a step. -/
theorem later_next (hi : Inv P o) (hl : Later P o) (hp : Promised P o x) :
    Later P (o.next P x) := by
  intro hm
  by_cases hx : Core.Executing o.core
  · cases hs : Core.stallId P.cfg o.core (o.coreIn P x) with
    | false => cases hm.symm.trans (idFsm_next_of_not_stall hi hl hp.ex hx hs)
    | true =>
        obtain ⟨-, hx', -, hreg, -⟩ := next_of_stall hi hp.bus hx hs
        refine ⟨hx', ?_⟩
        have hsp := Core.special_of_stall hi.core hp.bus (fromWord hi hx) hx hs
        have hleg : (Core.main P.cfg o.core).illegalInsn = false := by
          by_contra hne
          rw [Bool.not_eq_false] at hne
          have hill : (Core.ctrlDec P.cfg o.core (o.coreIn P x)).illegalInsn = true := by
            simp [Core.ctrlDec, hx.1, hne]
          have hdec : (Core.ctrlIn P.cfg o.core (o.coreIn P x)).toCtrlDec
              = Core.ctrlDec P.cfg o.core (o.coreIn P x) := rfl
          simp [Ctrl.specialReqAll, Ctrl.excReqD, Ctrl.illegalInsnD, hdec, hill, hx.2.2] at hsp
        rw [Core.main, hreg, mainDecode_illegalInsn]
        exact hleg
  · cases hm.symm.trans (next_of_not_executing hl hx).1

/-! ### Exceptions and retirement -/

/-- An instruction that raises an exception is complete. -/
theorem completes_of_exception (hi : Inv P o) (hok : BusOk P o x) (hx : Core.Executing o.core)
    (he : (o.exception P x).isSome = true) : o.completes P x = true := by
  obtain ⟨⟨c, v⟩, hcv⟩ := Option.isSome_iff_exists.mp he
  have hr := raised_of_exception hx.2.2 hx.1 hcv
  refine completes_iff.mpr ⟨hx, ?_⟩
  by_contra hs
  rw [Bool.not_eq_false] at hs
  have hsp := Core.special_of_stall hi.core hok (fromWord hi hx) hx hs
  have hdec : (Core.ctrlIn P.cfg o.core (o.coreIn P x)).toCtrlDec = o.ctrlDec P x := rfl
  simp only [Ctrl.raised, Bool.or_eq_true] at hr
  simp only [Ctrl.specialReqAll, hdec, Bool.or_eq_false_iff] at hsp
  obtain hr | hr := hr
  · cases hr.symm.trans hsp.1.2
  · cases hr.symm.trans hsp.2

/-- An instruction retires when it is complete, for the first time and without an exception. -/
theorem retires_eq (hi : Inv P o) (hok : BusOk P o x) :
    o.retires P x = (o.completes P x && !o.ended && (o.exception P x).isNone) := by
  rw [retires]
  cases he : o.exception P x with
  | some e => simp
  | none =>
      have hends : o.ends P x = o.completes P x := by
        rw [Bool.eq_iff_iff]
        constructor
        · intro h
          simp only [ends, Bool.and_eq_true, beq_iff_eq, Bool.or_eq_true,
            Bool.not_eq_true'] at h
          obtain ⟨⟨hfsm, hv⟩, h⟩ := h
          have hferr : o.core.instrFetchErrId = false := by
            by_contra hne
            have herr : (o.ctrlDec P x).instrFetchErr = true := (Bool.not_eq_false _).mp hne
            simp [exception, causes, herr] at he
          have hx : Core.Executing o.core := ⟨hv, hferr, hfsm⟩
          refine completes_iff.mpr ⟨hx, ?_⟩
          by_contra hs
          rw [Bool.not_eq_false] at hs
          have hsp := Core.special_of_stall hi.core hok (fromWord hi hx) hx hs
          simp [hs, hsp] at h
        · intro h
          obtain ⟨hx, hs⟩ := completes_iff.mp h
          simp [ends, hx.1, hx.2.2, hs]
      rw [hends]

end HartObs

end CocoIbex
