import CocoIbex.Gating
import CocoIbex.RegisterFile

/-!
# Secure Register Reads

With `REGREAD_SECURE` a read port of the register file returns the or of the registers that the
compressed decoder enables for the fetched word. This module compares the two ports with the
registers that the main decoder addresses. They differ for two kinds of words, listed in
`ReadMaskMissing`: the CSR instructions with a register source, whose port a is closed, and the
ternary instructions in the cycle of their third source, whose port a still shows the first.

A port is compared only where the instruction uses it (`readsA`, `readsB`), in every cycle that
the instruction is in ID and for all contents of the register file. An enable vector is one-hot
or zero, so what a port returns is one register or zero, and the comparison is one of register
numbers. It goes through the quadrants of the compressed decoder, since a compressed word has
its register fields in other places.

## Main results

* `rfRaddrA_eq` — the address of port a in terms of the word;
* `readEnabled_iff` — the ports of an accepted word serve every cycle, up to the listed words;
* `regread_transparent_iff` — so in any run of the pipeline registers every port in use returns
  the addressed register if and only if the word is none of these.
-/

namespace CocoIbex

open Machine

/-! ### The ports of a word -/

/-- The register that port a shows under the enables: x0 when it is closed. -/
def CompressedOut.portA (o : CompressedOut) : BitVec 5 :=
  if o.readA then o.readAddressA else 0#5

/-- The register that port b shows under the enables. -/
def CompressedOut.portB (o : CompressedOut) : BitVec 5 :=
  if o.readB then o.readAddressB else 0#5

/-- The masked read of port a. -/
theorem readSecure_portA (o : CompressedOut) (rf : RegisterFile) :
    rf.readSecure o.rfReadEnableA = rf.read o.portA := by
  rw [CompressedOut.rfReadEnableA, RegisterFile.readSecure_eq, CompressedOut.portA]
  cases o.readA with
  | true => rfl
  | false => exact rf.rfReg_zero.symm

/-- The masked read of port b. -/
theorem readSecure_portB (o : CompressedOut) (rf : RegisterFile) :
    rf.readSecure o.rfReadEnableB = rf.read o.portB := by
  rw [CompressedOut.rfReadEnableB, RegisterFile.readSecure_eq, CompressedOut.portB]
  cases o.readB with
  | true => rfl
  | false => exact rf.rfReg_zero.symm

/-- Only equal registers are equal in every register file. -/
theorem read_eq_iff {a b : BitVec 5} : (∀ rf : RegisterFile, rf.read a = rf.read b) ↔ a = b := by
  refine ⟨fun h => ?_, fun h rf => by rw [h]⟩
  have hab := h ⟨fun r => r.setWidth 32, rfl⟩
  have ht := congrArg BitVec.toNat hab
  simp only [RegisterFile.read, BitVec.toNat_setWidth] at ht
  exact BitVec.eq_of_toNat_eq (by omega)

/-! ### Who reads a register -/

/-- The instructions that read port a. -/
def readsA (i : BitVec 32) : Bool :=
  match Opcode.ofBits (opcodeBits i) with
  | some .jalr | some .branch | some .store | some .load | some .opImm | some .op => true
  | some .system => funct3 i != 0b000#3 && !i.getLsbD 14
  | _ => false

/-- The instructions that read port b. -/
def readsB (i : BitVec 32) : Bool :=
  match Opcode.ofBits (opcodeBits i) with
  | some .branch | some .store | some .op => true
  | _ => false

/-- The instructions with a third source: cmix, cmov, fsl and fsr, and fsri. -/
def ternary (i : BitVec 32) : Bool :=
  match Opcode.ofBits (opcodeBits i) with
  | some .op => opTernary (funct7 i) (funct3 i)
  | some .opImm => funct3 i == 0b101#3 && (funct7 i).getLsbD 1
  | _ => false

/-- The decoder marks port a as used for the instructions of `readsA`. -/
theorem mainDecodeRaw_rfRenA (cfg : Config) (first : Bool) (i : BitVec 32) :
    (mainDecodeRaw cfg first i).rfRenA = readsA i := by
  simp only [mainDecodeRaw, readsA]
  cases Opcode.ofBits (opcodeBits i) with
  | none => rfl
  | some o =>
      cases o
      case miscMem => dsimp only; split <;> rfl
      case system => dsimp only; split <;> simp_all [systemOut_rfRen]
      all_goals rfl

/-- The decoder marks port b as used for the instructions of `readsB`. -/
theorem mainDecodeRaw_rfRenB (cfg : Config) (first : Bool) (i : BitVec 32) :
    (mainDecodeRaw cfg first i).rfRenB = readsB i := by
  simp only [mainDecodeRaw, readsB]
  cases Opcode.ofBits (opcodeBits i) with
  | none => rfl
  | some o =>
      cases o
      case miscMem => dsimp only; split <;> rfl
      case system => dsimp only; split <;> simp [systemOut_rfRen]
      all_goals rfl

/-- The operation of a ternary instruction is found by its funct3 alone. -/
theorem opTernaryAlu_isSome (b : BitVec 2) (f3 : BitVec 3) (h : b.getLsbD 1 = true) :
    (opTernaryAlu b f3).isSome = (f3.extractLsb 1 0 == 0b01#2) := by
  revert b f3
  decide

/-- The third source of the register-register operations. -/
theorem opAlu_useRs3 (cfg : Config) (first : Bool) (f7 : BitVec 7) (f3 : BitVec 3) :
    (opAlu cfg first f7 f3).useRs3 = (opTernary f7 f3 && cfg.rv32b && !first) := by
  cases h : f7.getLsbD 1 with
  | false =>
      simp only [opAlu, opTernary, h]
      split
      · rename_i hc
        exact absurd hc Bool.false_ne_true
      · split
        · rfl
        · split
          · split <;> rfl
          · split <;> rfl
  | true =>
      have hs := opTernaryAlu_isSome (f7.extractLsb 1 0) f3 (by simpa using h)
      simp only [opAlu, opTernary, h, ← hs]
      cases opTernaryAlu (f7.extractLsb 1 0) f3 <;> cases cfg.rv32b <;> simp

/-- The third source of the register-immediate operations. -/
theorem opImmAlu_useRs3 (cfg : Config) (first : Bool) (f7 : BitVec 7) (rs2 : BitVec 5)
    (f3 : BitVec 3) :
    (opImmAlu cfg first f7 rs2 f3).2.2
      = (f3 == 0b101#3 && f7.getLsbD 1 && cfg.rv32b && !first) := by
  simp only [opImmAlu]
  split
  case h_8 =>
    cases cfg.rv32b with
    | false => simp only [Bool.false_eq_true, if_false]; split_ifs <;> simp
    | true =>
        cases f7.getLsbD 1 with
        | true => simp
        | false => simp only [Bool.false_eq_true, if_false, if_true]; split <;> simp
  case h_9 => simp_all
  case h_7 => split_ifs <;> rfl
  all_goals rfl

/-- The third source is addressed in the later cycles of the ternary instructions. -/
theorem aluDecode_useRs3 (cfg : Config) (first branchTaken : Bool) (i : BitVec 32) :
    (aluDecode cfg first branchTaken i).useRs3 = (ternary i && cfg.rv32b && !first) := by
  simp only [aluDecode, ternary]
  cases Opcode.ofBits (opcodeBits i) with
  | none => rfl
  | some o =>
      cases o
      case op => exact opAlu_useRs3 cfg first (funct7 i) (funct3 i)
      case opImm => exact opImmAlu_useRs3 cfg first _ _ _
      case miscMem => dsimp only; split <;> (try split) <;> rfl
      case system => dsimp only; split <;> rfl
      all_goals (dsimp only; try split_ifs) <;> rfl

/-! ### The ports of a compressed word -/

/-- The ports show the two sources that the instruction reads, and it has no third. -/
def PortsServe (o : CompressedOut) : Prop :=
  (readsA o.instr = true → o.portA = regS1 o.instr) ∧
    (readsB o.instr = true → o.portB = regS2 o.instr) ∧ ternary o.instr = false

/-- Quadrant C0 enables the registers that it reads. -/
theorem decodeC0_ports {w : BitVec 32} (hl : (decodeC0 w).illegalInstr = false) :
    PortsServe (decodeC0 w) := by
  simp only [decodeC0] at hl ⊢
  split at hl <;>
    simp_all [PortsServe, CompressedOut.portA, CompressedOut.portB, readsA, readsB, ternary]

/-- `c.lui` reads nothing, and `c.addi16sp` enables x2. -/
theorem decodeC1Lui_ports (w : BitVec 32) : PortsServe (decodeC1Lui w) := by
  simp only [decodeC1Lui]
  split_ifs <;>
    simp [PortsServe, CompressedOut.portA, CompressedOut.portB, readsA, readsB, ternary]

/-- The register operations of quadrant C1 enable both of their registers. -/
theorem decodeC1Reg_ports {w : BitVec 32} (hl : (decodeC1Reg w).illegalInstr = false) :
    PortsServe (decodeC1Reg w) := by
  simp only [decodeC1Reg] at hl ⊢
  split at hl <;>
    simp_all [PortsServe, CompressedOut.portA, CompressedOut.portB, readsA, readsB, ternary,
      opTernary]

/-- The other operations of quadrant C1 enable theirs. -/
theorem decodeC1Arith_ports {w : BitVec 32} (hl : (decodeC1Arith w).illegalInstr = false) :
    PortsServe (decodeC1Arith w) := by
  simp only [decodeC1Arith] at hl ⊢
  split at hl
  case h_4 => exact decodeC1Reg_ports hl
  all_goals
    simp [PortsServe, CompressedOut.portA, CompressedOut.portB, readsA, readsB, ternary]

/-- Quadrant C1 enables the registers that it reads. -/
theorem decodeC1_ports {w : BitVec 32} (hl : (decodeC1 w).illegalInstr = false) :
    PortsServe (decodeC1 w) := by
  simp only [decodeC1] at hl ⊢
  split at hl
  case h_5 => exact decodeC1Lui_ports w
  case h_6 => exact decodeC1Arith_ports hl
  all_goals
    simp [PortsServe, CompressedOut.portA, CompressedOut.portB, readsA, readsB, ternary]

/-- The register operations of quadrant C2 enable the registers that they read. -/
theorem decodeC2Arith_ports (w : BitVec 32) : PortsServe (decodeC2Arith w) := by
  have hebreak : PortsServe (CompressedOut.forward 0x00100073#32) :=
    ⟨by decide, by decide, by decide⟩
  simp only [decodeC2Arith]
  split_ifs <;> first
    | exact hebreak
    | simp [PortsServe, CompressedOut.portA, CompressedOut.portB, readsA, readsB, ternary,
        opTernary]

/-- Quadrant C2 enables the registers that it reads. -/
theorem decodeC2_ports {w : BitVec 32} (hl : (decodeC2 w).illegalInstr = false) :
    PortsServe (decodeC2 w) := by
  simp only [decodeC2] at hl ⊢
  split at hl
  case h_3 => exact decodeC2Arith_ports w
  case h_5 => simp at hl
  all_goals
    simp [PortsServe, CompressedOut.portA, CompressedOut.portB, readsA, readsB, ternary]

/-! ### The ports of any word -/

/-- In every cycle the ports in use show the registers that the decoder addresses. -/
def ReadEnabled (cfg : Config) (o : CompressedOut) : Prop :=
  ∀ first branchTaken,
    (readsA o.instr = true → o.portA = rfRaddrA cfg first branchTaken o.instr) ∧
      (readsB o.instr = true → o.portB = rfRaddrB o.instr)

/-- The words for which a port in use shows the wrong register. -/
def ReadMaskMissing (w : BitVec 32) : Prop :=
  quadrant w = 0b11#2 ∧
    -- csrrw, csrrs and csrrc with a source other than x0
    ((field62 w = 0b11100#5 ∧ funct3 w ≠ 0b000#3 ∧ w.getLsbD 14 = false ∧ regS1 w ≠ 0#5) ∨
    -- a third source that is not also the first
      (ternary w = true ∧ regS3 w ≠ regS1 w))

/-- It is a test of a few fields of the word. -/
instance (w : BitVec 32) : Decidable (ReadMaskMissing w) :=
  inferInstanceAs (Decidable (_ ∧ _))

/-- The address of port a in terms of the word. -/
theorem rfRaddrA_eq (cfg : Config) (first branchTaken : Bool) (i : BitVec 32) :
    rfRaddrA cfg first branchTaken i
      = if ternary i && cfg.rv32b && !first then regS3 i else regS1 i := by
  rw [rfRaddrA, aluDecode_useRs3]

/-- The ports of a compressed word serve every cycle. -/
theorem PortsServe.readEnabled {cfg : Config} {o : CompressedOut} (h : PortsServe o) :
    ReadEnabled cfg o := by
  obtain ⟨ha, hb, ht⟩ := h
  intro first branchTaken
  rw [rfRaddrA_eq, ht]
  exact ⟨by simpa using ha, hb⟩

/-- The ternary instructions are legal only with RV32B. -/
theorem rv32b_of_ternary {cfg : Config} {i : BitVec 32}
    (hl : (mainDecodeRaw cfg true i).illegalInsn = false) (ht : ternary i = true) :
    cfg.rv32b = true := by
  simp only [ternary] at ht
  split at ht
  next ho => simpa [mainDecodeRaw, ho, opIllegal, ht] using hl
  next ho =>
    simp only [Bool.and_eq_true, beq_iff_eq] at ht
    simpa [mainDecodeRaw, ho, opImmIllegal, ht.1, ht.2] using hl
  next => simp at ht

/-- A port a that shows the first source serves a ternary instruction only when the
third source is the same register. -/
theorem portA_first_iff {cfg : Config} {w : BitVec 32}
    (hb : ternary w = true → cfg.rv32b = true) :
    (∀ first : Bool,
        regS1 w = if ternary w && cfg.rv32b && !first then regS3 w else regS1 w) ↔
      ¬ (ternary w = true ∧ regS3 w ≠ regS1 w) := by
  cases ht : ternary w with
  | false => simp
  | true => simp [hb ht, @eq_comm _ (regS1 w)]

/-- Of the words that are not compressed exactly the listed ones are not served. -/
theorem decodeC3_ports {cfg : Config} {w : BitVec 32} (hq : quadrant w = 0b11#2)
    (hl : (mainDecodeRaw cfg true w).illegalInsn = false) :
    ReadEnabled cfg (decodeC3 w) ↔ ¬ ReadMaskMissing w := by
  cases ho : Opcode.ofBits (opcodeBits w) with
  | none => simp [mainDecodeRaw, ho] at hl
  | some o =>
      have hf := field62_of_opcode ho
      have hport := portA_first_iff (rv32b_of_ternary hl)
      simp only [ReadEnabled, decodeC3_instr, rfRaddrA_eq, rfRaddrB, ReadMaskMissing, hq]
      cases o
      case op =>
        simpa [readsA, readsB, ho, hf, Opcode.bits, CompressedOut.portA, CompressedOut.portB,
          decodeC3] using hport
      case opImm =>
        simpa [readsA, readsB, ho, hf, Opcode.bits, CompressedOut.portA, CompressedOut.portB,
          decodeC3] using hport
      case system =>
        simp [readsA, readsB, ternary, ho, hf, Opcode.bits, CompressedOut.portA, decodeC3,
          @eq_comm _ 0#5 (regS1 w)]
      all_goals
        simp [readsA, readsB, ternary, ho, hf, Opcode.bits, CompressedOut.portA,
          CompressedOut.portB, decodeC3]

/-- The ports of an accepted word serve every cycle, up to the listed words. -/
theorem readEnabled_iff {cfg : Config} {w : BitVec 32} (h : Accepts cfg w) :
    ReadEnabled cfg (compressedDecoder w) ↔ ¬ ReadMaskMissing w := by
  obtain ⟨hc, hm⟩ := accepts_iff.mp h
  obtain hq | hq | hq | hq := quadrant_cases w
  · rw [compressedDecoder_c0 hq] at hc ⊢
    simp [ReadMaskMissing, hq, (decodeC0_ports hc).readEnabled]
  · rw [compressedDecoder_c1 hq] at hc ⊢
    simp [ReadMaskMissing, hq, (decodeC1_ports hc).readEnabled]
  · rw [compressedDecoder_c2 hq] at hc ⊢
    simp [ReadMaskMissing, hq, (decodeC2_ports hc).readEnabled]
  · rw [compressedDecoder_c3 hq] at hm ⊢
    exact decodeC3_ports hq hm

/-! ### The masked register file -/

/-- In every cycle with the instruction of `s` in ID, for every register file, each port
that the decoder marks as used returns the register that the decoder addresses. -/
def ReadTransparent (cfg : Config) (s : IfIdReg) : Prop :=
  ∀ fsm x (rf : RegisterFile), InId s x →
    ((IdStage.main cfg fsm x).rfRenA = true →
      rf.readSecure s.rfReadEnableA
        = rf.read (rfRaddrA cfg (IdStage.instrFirstCycle fsm x) x.branchTaken x.instr)) ∧
    ((IdStage.main cfg fsm x).rfRenB = true →
      rf.readSecure s.rfReadEnableB = rf.read (rfRaddrB x.instr))

/-- The masks are transparent for a word when they serve its cycles. -/
theorem readTransparent_iff {cfg : Config} {w : BitVec 32} (h : Accepts cfg w) :
    ReadTransparent cfg (IfIdReg.ofWord w) ↔ ReadEnabled cfg (compressedDecoder w) := by
  constructor
  · intro ht first branchTaken
    -- the state of the ID-EX machine that gives the cycle `first`
    let fsm : IdFsm := if first then .firstCycle else .multiCycle
    have hf : IdStage.instrFirstCycle fsm (lastCycle (IfIdReg.ofWord w) branchTaken) = first := by
      cases first <;> rfl
    have hx : InId (IfIdReg.ofWord w) (lastCycle (IfIdReg.ofWord w) branchTaken) :=
      ⟨rfl, rfl, rfl⟩
    have hall := fun rf => ht fsm _ rf hx
    rw [main_of_inId h hx, mainDecodeRaw_rfRenA, mainDecodeRaw_rfRenB, hf] at hall
    refine ⟨fun ha => read_eq_iff.mp fun rf => ?_, fun hb => read_eq_iff.mp fun rf => ?_⟩
    · rw [← readSecure_portA]
      exact (hall rf).1 ha
    · rw [← readSecure_portB]
      exact (hall rf).2 hb
  · intro hen fsm x rf hx
    obtain ⟨ha, hb⟩ := hen (IdStage.instrFirstCycle fsm x) x.branchTaken
    have hi : x.instr = (compressedDecoder w).instr := hx.2.1
    rw [main_of_inId h hx, mainDecodeRaw_rfRenA, mainDecodeRaw_rfRenB, hi]
    refine ⟨fun hra => ?_, fun hrb => ?_⟩
    · rw [← ha hra]
      exact readSecure_portA _ rf
    · rw [← hb hrb]
      exact readSecure_portB _ rf

/-- **Secure register reads.** For an accepted word in ID, in any run of the pipeline
registers, every masked port in use returns the addressed register, in every cycle and for
every register file, exactly when the word is none of the listed ones. -/
theorem regread_transparent_iff (cfg : Config) {s : IfIdReg} (h0 : s.instrValidId = false)
    {ins : List IfIdIn} {w : BitVec 32} (hv : (run IfIdReg.next s ins).instrValidId = true)
    (hw : IfIdReg.lastWord ins = some w) (hacc : Accepts cfg w) :
    ReadTransparent cfg (run IfIdReg.next s ins) ↔ ¬ ReadMaskMissing w := by
  obtain ⟨w', hw', hs⟩ := IfIdReg.ifId_valid h0 ins hv
  obtain rfl : w' = w := Option.some.inj (hw'.symm.trans hw)
  rw [hs, readTransparent_iff hacc, readEnabled_iff hacc]

/-- `add x1, x2, x3` in ID, after one fetch. -/
theorem regread_transparent_add :
    ReadTransparent ⟨true, false, true⟩ (run IfIdReg.next .reset [.fetch 0x003100b3#32]) ↔
      ¬ ReadMaskMissing 0x003100b3#32 :=
  regread_transparent_iff _ rfl (by decide) (by decide) (by decide)

/-- `csrrw x0, mstatus, x1` is accepted, and its source is read as zero. -/
theorem csrrw_read_masked :
    Accepts ⟨true, false, true⟩ 0x30009073#32 ∧
      IfIdReg.lastWord [.fetch 0x30009073#32] = some 0x30009073#32 ∧
      (run IfIdReg.next .reset [.fetch 0x30009073#32]).instrValidId = true ∧
      ¬ ReadTransparent ⟨true, false, true⟩
        (run IfIdReg.next .reset [.fetch 0x30009073#32]) := by
  have hacc : Accepts ⟨true, false, true⟩ 0x30009073#32 := by decide
  have hs : run IfIdReg.next .reset [.fetch 0x30009073#32] = IfIdReg.ofWord 0x30009073#32 := rfl
  refine ⟨hacc, rfl, rfl, ?_⟩
  rw [hs, readTransparent_iff hacc, readEnabled_iff hacc]
  decide

end CocoIbex
