import CocoIbex.Gating
import CocoIbex.RegisterFile

/-!
# Secure Register Writes

With `REGWRITE_SECURE` the register file masks the data it stores with write enables that the
compressed decoder computes from the fetched word. This module compares them with the writes
that the ID stage and the LSU make for the same word. The enables are there for every accepted
word except four kinds, listed in `WriteMaskMissing`: for these the masked register file stores
zero.

The write of a word goes to the destination of its expansion, and so the enable has to be the
one of that register (`WriteEnabled`). A word that writes nothing, or writes register zero,
needs none. As with the reads, the comparison goes through the quadrants and opcodes of the
compressed decoder, and the pipeline registers carry the enables to ID together with the word.

For the words on the list the data are masked and not the write itself, so that the register is
cleared. Where the data are zero anyway this does not show, and the statement is one over all
data.

## Main results

* `writeEnabled_iff` — the enables of an accepted word cover its register write, up to the
  listed words;
* `not_writeMaskMissing_of_mem` — no load or store is on the list;
* `regwrite_transparent_iff` — in any run of the pipeline registers the masked register file
  stores what the plain one stores if and only if the word is none of these.
-/

namespace CocoIbex

open Machine

/-! ### Who writes a register -/

/-- The instructions that write their destination register in some cycle. -/
def writesReg (i : BitVec 32) : Bool :=
  match Opcode.ofBits (opcodeBits i) with
  | some .jal | some .jalr | some .lui | some .auipc | some .opImm | some .op | some .load => true
  | some .system => funct3 i != 0b000#3
  | _ => false

/-- A write of the ID stage belongs to an instruction that writes. -/
theorem writesReg_of_rfWe {cfg : Config} {first : Bool} {i : BitVec 32}
    (h : (mainDecodeRaw cfg first i).rfWe = true) : writesReg i = true := by
  simp only [mainDecodeRaw] at h
  simp only [writesReg]
  split at h <;> simp_all
  · split at h <;> simp_all
  · split at h <;> simp_all [systemOut_rfWe]

/-- A load writes. -/
theorem writesReg_of_load {cfg : Config} {first : Bool} {i : BitVec 32}
    (h : (mainDecodeRaw cfg first i).dataReq = true)
    (hs : (mainDecodeRaw cfg first i).dataWe = false) : writesReg i = true := by
  simp only [mainDecodeRaw] at h hs
  simp only [writesReg]
  split at h <;> simp_all
  · split at h <;> simp_all
  · split at h <;> simp_all [systemOut_dataReq]

/-- An instruction that writes does so from its second cycle on at the latest: from the
LSU for a load, from ID otherwise. -/
theorem rfWe_of_writesReg (cfg : Config) {i : BitVec 32} (h : writesReg i = true) :
    (mainDecodeRaw cfg false i).rfWe = true ∨
      ((mainDecodeRaw cfg false i).dataReq = true ∧
        (mainDecodeRaw cfg false i).dataWe = false) := by
  simp only [writesReg] at h
  simp only [mainDecodeRaw]
  split at h <;> simp_all

/-! ### The enables of a word -/

/-- The words whose register write the compressed decoder does not enable. -/
def WriteMaskMissing (w : BitVec 32) : Prop :=
  -- c.slli
  (quadrant w = 0b10#2 ∧ funct3C w = 0b000#3 ∧ regD w ≠ 0#5) ∨
  -- c.jal, which writes x1
  (quadrant w = 0b01#2 ∧ funct3C w = 0b001#3) ∨
  -- c.lui
  (quadrant w = 0b01#2 ∧ funct3C w = 0b011#3 ∧ regD w ≠ 0#5 ∧ regD w ≠ 2#5) ∨
  -- the CSR instructions
  (quadrant w = 0b11#2 ∧ field62 w = 0b11100#5 ∧ regD w ≠ 0#5)

/-- It is a test of a few fields of the word. -/
instance (w : BitVec 32) : Decidable (WriteMaskMissing w) :=
  inferInstanceAs (Decidable (_ ∨ _))

/-- The instruction writes no register but x0, or the enabled register is the one it
writes. -/
def WriteEnabled (o : CompressedOut) : Prop :=
  writesReg o.instr = true → regD o.instr ≠ 0#5 →
    o.writeReg = true ∧ o.writeAddress = regD o.instr

/-- Every destination of quadrant C0 is enabled. -/
theorem decodeC0_write {w : BitVec 32} (hl : (decodeC0 w).illegalInstr = false) :
    WriteEnabled (decodeC0 w) := by
  simp only [decodeC0] at hl ⊢
  split at hl <;> simp_all [WriteEnabled, writesReg]

/-- c.lui has no enable, c.addi16sp has. -/
theorem decodeC1Lui_write (w : BitVec 32) :
    WriteEnabled (decodeC1Lui w) ↔ (regD w = 0#5 ∨ regD w = 2#5) := by
  simp only [decodeC1Lui]
  split_ifs with h
  · simp [WriteEnabled, h]
  · simp [WriteEnabled, writesReg, h]

/-- Every destination of the register-register operations of quadrant C1 is enabled. -/
theorem decodeC1Reg_write {w : BitVec 32} (hl : (decodeC1Reg w).illegalInstr = false) :
    WriteEnabled (decodeC1Reg w) := by
  simp only [decodeC1Reg] at hl ⊢
  split at hl <;> simp_all [WriteEnabled, writesReg]

/-- Every destination of the other operations of quadrant C1 is enabled. -/
theorem decodeC1Arith_write {w : BitVec 32} (hl : (decodeC1Arith w).illegalInstr = false) :
    WriteEnabled (decodeC1Arith w) := by
  simp only [decodeC1Arith] at hl ⊢
  split at hl <;> simp_all [WriteEnabled, writesReg]
  exact decodeC1Reg_write hl

/-- In quadrant C1 only c.jal and c.lui lack their enable. -/
theorem decodeC1_write {w : BitVec 32} (hl : (decodeC1 w).illegalInstr = false) :
    WriteEnabled (decodeC1 w) ↔
      ¬ (funct3C w = 0b001#3 ∨ (funct3C w = 0b011#3 ∧ regD w ≠ 0#5 ∧ regD w ≠ 2#5)) := by
  simp only [decodeC1] at hl ⊢
  split at hl
  next h => simp [WriteEnabled, h]
  next h => simp [WriteEnabled, writesReg, h, linkC1_eq h]
  next h => simp [WriteEnabled, h, linkC1_eq h]
  next h => simp [WriteEnabled, h]
  next h =>
    simp only [h, decodeC1Lui_write]
    tauto
  next h => simpa [h] using decodeC1Arith_write hl
  next h => simp_all [WriteEnabled, writesReg]

/-- Every destination of the register operations of quadrant C2 is enabled. -/
theorem decodeC2Arith_write (w : BitVec 32) : WriteEnabled (decodeC2Arith w) := by
  simp only [decodeC2Arith]
  split_ifs with h12 h62 h62 hd
  · simp [WriteEnabled]
  · simp [WriteEnabled]
  · simp [WriteEnabled]
  · have he : writesReg 0x00100073#32 = false := by decide
    simp [WriteEnabled, he]
  · simp [WriteEnabled]

/-- In quadrant C2 only c.slli lacks its enable. -/
theorem decodeC2_write {w : BitVec 32} (hl : (decodeC2 w).illegalInstr = false) :
    WriteEnabled (decodeC2 w) ↔ ¬ (funct3C w = 0b000#3 ∧ regD w ≠ 0#5) := by
  simp only [decodeC2] at hl ⊢
  split at hl
  next h => simp [WriteEnabled, writesReg, h]
  next h => simp [WriteEnabled, h]
  next h => simpa [h] using decodeC2Arith_write w
  next h => simp [WriteEnabled, writesReg, h]
  next h => simp at hl

/-- Of the words that are not compressed only the CSR instructions lack their enable. -/
theorem decodeC3_write {cfg : Config} {w : BitVec 32}
    (hl : (mainDecodeRaw cfg true w).illegalInsn = false) :
    WriteEnabled (decodeC3 w) ↔ ¬ (field62 w = 0b11100#5 ∧ regD w ≠ 0#5) := by
  cases ho : Opcode.ofBits (opcodeBits w) with
  | none => simp [mainDecodeRaw, ho] at hl
  | some o =>
      have hf := field62_of_opcode ho
      cases o
      case system =>
        by_cases h3 : funct3 w = 0b000#3
        · -- the other system instructions are legal only with rd = 0
          have hd : regD w = 0#5 := by simp_all [mainDecodeRaw]
          simp [WriteEnabled, hd, decodeC3_instr]
        · simp [WriteEnabled, writesReg, decodeC3, ho, hf, Opcode.bits, h3]
      all_goals simp [WriteEnabled, writesReg, decodeC3, ho, hf, Opcode.bits]

/-- A load or store is none of the words without an enable. -/
theorem not_writeMaskMissing_of_mem {cfg : Config} {first : Bool} {w : BitVec 32}
    (h : (mainDecodeRaw cfg first (compressedDecoder w).instr).dataReq = true) :
    ¬ WriteMaskMissing w := by
  rintro (⟨hq, hf, -⟩ | ⟨hq, hf⟩ | ⟨hq, hf, -, hd⟩ | ⟨hq, hf, -⟩)
  · rw [compressedDecoder_c2 hq] at h
    simp [decodeC2, hf, mainDecodeRaw] at h
  · rw [compressedDecoder_c1 hq] at h
    simp [decodeC1, hf, mainDecodeRaw] at h
  · rw [compressedDecoder_c1 hq] at h
    simp [decodeC1, hf, decodeC1Lui, hd, mainDecodeRaw] at h
  · rw [compressedDecoder_c3 hq] at h
    cases ho : Opcode.ofBits (opcodeBits w) with
    | none => simp [mainDecodeRaw, ho] at h
    | some o =>
        have hf' := field62_of_opcode ho
        rw [hf] at hf'
        cases o
        case system =>
          rw [decodeC3_instr] at h
          simp only [mainDecodeRaw, ho] at h
          split at h <;> simp [systemOut_dataReq] at h
        all_goals simp [Opcode.bits] at hf'

/-- The enables of an accepted word cover its register write, up to the listed words. -/
theorem writeEnabled_iff {cfg : Config} {w : BitVec 32} (h : Accepts cfg w) :
    WriteEnabled (compressedDecoder w) ↔ ¬ WriteMaskMissing w := by
  obtain ⟨hc, hm⟩ := accepts_iff.mp h
  obtain hq | hq | hq | hq := quadrant_cases w
  · rw [compressedDecoder_c0 hq] at hc ⊢
    simpa [hq, WriteMaskMissing] using decodeC0_write hc
  · rw [compressedDecoder_c1 hq] at hc ⊢
    simpa [hq, WriteMaskMissing] using decodeC1_write hc
  · rw [compressedDecoder_c2 hq] at hc ⊢
    simpa [hq, WriteMaskMissing] using decodeC2_write hc
  · rw [compressedDecoder_c3 hq] at hm ⊢
    simpa [hq, WriteMaskMissing] using decodeC3_write hm

/-! ### The masked register file -/

/-- The cycle `x`, in state `fsm` of the ID stage, writes a register: from the ID stage, or
from the LSU (`rfWeLsu`), which does so for a load. -/
def WritesInCycle (cfg : Config) (fsm : IdFsm) (x : IdIn) (rfWeLsu : Bool) : Prop :=
  IdStage.rfWeId cfg fsm x = true ∨
    (rfWeLsu = true ∧ (IdStage.main cfg fsm x).dataReq = true ∧
      (IdStage.main cfg fsm x).dataWe = false)

/-- In every cycle in which the instruction in `s` writes a register other than x0, the
masks of `s` enable this register and the masked register file stores what the plain one
stores, in it and in no other. -/
def WriteTransparent (cfg : Config) (s : IfIdReg) : Prop :=
  ∀ fsm x rfWeLsu, InId s x → WritesInCycle cfg fsm x rfWeLsu →
    rfWaddr s.instrRdataId ≠ 0#5 →
    s.rfWriteEnable.getLsbD (rfWaddr s.instrRdataId).toNat = true ∧
      ∀ (rf : RegisterFile) (wdata : BitVec 32),
        rf.writeSecure s.rfWriteEnable true (rfWaddr s.instrRdataId) wdata
            = rf.write true (rfWaddr s.instrRdataId) wdata ∧
          ∀ r, r ≠ rfWaddr s.instrRdataId →
            (rf.writeSecure s.rfWriteEnable true (rfWaddr s.instrRdataId) wdata).rfReg r
              = rf.rfReg r

/-- What an accepted word writes in some cycle is what `writesReg` says of it. -/
theorem writesInCycle_writesReg {cfg : Config} {w : BitVec 32} {fsm : IdFsm} {x : IdIn}
    {rfWeLsu : Bool} (h : Accepts cfg w) (hx : InId (IfIdReg.ofWord w) x)
    (hw : WritesInCycle cfg fsm x rfWeLsu) :
    writesReg (compressedDecoder w).instr = true := by
  rw [WritesInCycle, main_of_inId h hx] at hw
  obtain hw | ⟨-, hreq, hwe⟩ := hw
  · have := IdStage.rfWe_of_rfWeId _ _ _ hw
    rw [main_of_inId h hx] at this
    exact writesReg_of_rfWe this
  · exact writesReg_of_load hreq hwe

/-- An accepted word that `writesReg` lists is written in the last cycle. -/
theorem writesInCycle_of_writesReg {cfg : Config} {w : BitVec 32} (h : Accepts cfg w)
    (hw : writesReg (compressedDecoder w).instr = true) :
    WritesInCycle cfg .multiCycle (lastCycle (IfIdReg.ofWord w) true) true := by
  have hm : IdStage.main cfg .multiCycle (lastCycle (IfIdReg.ofWord w) true)
      = mainDecodeRaw cfg false (compressedDecoder w).instr :=
    main_of_inId h ⟨rfl, rfl, rfl⟩
  obtain hwe | ⟨hreq, hst⟩ := rfWe_of_writesReg cfg hw
  · refine Or.inl ?_
    have hr := IdStage.rfWeRaw_multiCycle cfg (lastCycle (IfIdReg.ofWord w) true) rfl
    simp only [IdStage.rfWeId, hr, hm, hwe]
    rfl
  · exact Or.inr ⟨rfl, by rw [hm, hreq], by rw [hm, hst]⟩

/-- The masks are transparent for a word when they enable what it writes. -/
theorem writeTransparent_iff {cfg : Config} {w : BitVec 32} (h : Accepts cfg w) :
    WriteTransparent cfg (IfIdReg.ofWord w) ↔ WriteEnabled (compressedDecoder w) := by
  have hmask : (IfIdReg.ofWord w).rfWriteEnable = (compressedDecoder w).rfWriteEnable := rfl
  have hd : rfWaddr (IfIdReg.ofWord w).instrRdataId = regD (compressedDecoder w).instr := rfl
  rw [WriteTransparent, hmask, hd, CompressedOut.rfWriteEnable_toNat]
  constructor
  · intro ht hw h0
    have hen := (ht .multiCycle _ true ⟨rfl, rfl, rfl⟩ (writesInCycle_of_writesReg h hw) h0).1
    simp only [Bool.and_eq_true, decide_eq_true_eq] at hen
    exact ⟨hen.2, hen.1⟩
  · intro hen fsm x rfWeLsu hx hw h0
    obtain ⟨hwr, haddr⟩ := hen (writesInCycle_writesReg h hx hw) h0
    have hbit : (compressedDecoder w).rfWriteEnable.getLsbD
        (regD (compressedDecoder w).instr).toNat = true := by
      rw [CompressedOut.rfWriteEnable_toNat, hwr, haddr]
      simp
    refine ⟨by simp [hwr, haddr], fun rf wdata => ?_⟩
    rw [rf.writeSecure_eq_write true wdata hbit]
    exact ⟨rfl, fun r hr => rf.write_of_ne true wdata hr⟩

/-- **Secure register writes.** For an accepted word in ID, in any run of the pipeline
registers, the masked register file stores what the plain one stores, in every cycle in
which the word writes, exactly when the word is none of those without a mask. -/
theorem regwrite_transparent_iff (cfg : Config) {s : IfIdReg} (h0 : s.instrValidId = false)
    {ins : List IfIdIn} {w : BitVec 32} (hv : (run IfIdReg.next s ins).instrValidId = true)
    (hw : IfIdReg.lastWord ins = some w) (hacc : Accepts cfg w) :
    WriteTransparent cfg (run IfIdReg.next s ins) ↔ ¬ WriteMaskMissing w := by
  obtain ⟨w', hw', hs⟩ := IfIdReg.ifId_valid h0 ins hv
  obtain rfl : w' = w := Option.some.inj (hw'.symm.trans hw)
  rw [hs, writeTransparent_iff hacc, writeEnabled_iff hacc]

/-- `addi x1, x0, 1` in ID, after one fetch. -/
theorem regwrite_transparent_addi :
    WriteTransparent ⟨true, false, true⟩
        (run IfIdReg.next .reset [.fetch 0x00100093#32]) ↔
      ¬ WriteMaskMissing 0x00100093#32 :=
  regwrite_transparent_iff _ rfl (by decide) (by decide) (by decide)

/-- `c.slli x1, 1` is accepted, and its write is masked to zero. -/
theorem slli_write_masked :
    Accepts ⟨true, false, true⟩ 0x0086#32 ∧
      IfIdReg.lastWord [.fetch 0x0086#32] = some 0x0086#32 ∧
      (run IfIdReg.next .reset [.fetch 0x0086#32]).instrValidId = true ∧
      ¬ WriteTransparent ⟨true, false, true⟩
        (run IfIdReg.next .reset [.fetch 0x0086#32]) := by
  have hacc : Accepts ⟨true, false, true⟩ 0x0086#32 := by decide
  have hs : run IfIdReg.next .reset [.fetch 0x0086#32] = IfIdReg.ofWord 0x0086#32 := rfl
  refine ⟨hacc, rfl, rfl, ?_⟩
  rw [hs, writeTransparent_iff hacc, writeEnabled_iff hacc]
  decide

end CocoIbex
