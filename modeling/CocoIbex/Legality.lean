import CocoIbex.Gating
import CocoIbex.Rv32
import Mathlib.Data.List.Basic

/-!
# Legal Instruction Words

The decoder against the instruction set, without RV32B: which 32-bit words it accepts. It
accepts every legal word, and of the others those of a shift by an immediate whose upper bits it
does not look at (`ShamtUnchecked`). An illegal word enables nothing.

A word is legal if it is the encoding of an instruction, and an encoding is a function on
syntax. So the comparison goes through `insnWord`, the same set of words described by their
fields: the opcode, the funct fields, and what has to be fixed beside them. The encodings are
shown to be these words, and the decoder is compared with them opcode by opcode.

With `ShamtUnchecked` the list is complete in both directions: the words on it are accepted, are
no encodings, and there are no others.

## Main results

* `encode_base` — the encoding of RV32I in the terms of the decoders;
* `mem_opRv32i_iff` — the register-register operations are those of the table;
* `legality_right_iff` — the decoder is right on a word if and only if it is none of the shifts
  with unchecked bits.
-/

namespace CocoIbex

open Rv32

/-! ### Words from their fields -/

/-- A word is put together from the fields of its R format. -/
theorem encR_fields {w : BitVec 32} {o : Opcode} (h : opcodeBits w = o.bits) :
    encR (funct7 w) (regS2 w) (regS1 w) (funct3 w) (regD w) o = w := by
  rw [encR, ← h]
  refine BitVec.eq_of_toNat_eq ?_
  simp only [Bits.toNat_append_eq, funct7, regS2, regS1, funct3, regD, opcodeBits,
    BitVec.extractLsb_toNat, Nat.shiftRight_eq_div_pow]
  have := w.isLt
  omega

/-- A word is put together from the fields of its I format. -/
theorem encI_fields {w : BitVec 32} {o : Opcode} (h : opcodeBits w = o.bits) :
    encI (funct12 w) (regS1 w) (funct3 w) (regD w) o = w := by
  rw [encI, ← h]
  refine BitVec.eq_of_toNat_eq ?_
  simp only [Bits.toNat_append_eq, funct12, regS1, funct3, regD, opcodeBits,
    BitVec.extractLsb_toNat, Nat.shiftRight_eq_div_pow]
  have := w.isLt
  omega

/-- A word is put together from the fields of its U format. -/
theorem encU_fields {w : BitVec 32} {o : Opcode} (h : opcodeBits w = o.bits) :
    encU (w.extractLsb 31 12) (regD w) o = w := by
  rw [encU, ← h]
  refine BitVec.eq_of_toNat_eq ?_
  simp only [Bits.toNat_append_eq, regD, opcodeBits, BitVec.extractLsb_toNat,
    Nat.shiftRight_eq_div_pow]
  have := w.isLt
  omega

/-- `instr[14]` is the upper bit of funct3. -/
theorem getLsbD_14 (w : BitVec 32) : w.getLsbD 14 = (funct3 w).getLsbD 2 := by
  simp [funct3]

/-- `instr[13:12]` are the lower bits of funct3. -/
theorem extractLsb_13_12 (w : BitVec 32) : w.extractLsb 13 12 = (funct3 w).extractLsb 1 0 := by
  refine BitVec.eq_of_toNat_eq ?_
  simp only [funct3, BitVec.extractLsb_toNat, Nat.shiftRight_eq_div_pow]
  omega

/-- The upper field of a word of the S format. -/
def immHigh (imm : BitVec 12) : BitVec 7 := imm.extractLsb' 5 7

/-- The lower field of a word of the S format. -/
def immLow (imm : BitVec 12) : BitVec 5 := imm.extractLsb' 0 5

/-- The upper field of a word of the B format. -/
def offHigh (off : BitVec 12) : BitVec 7 := off.extractLsb' 11 1 ++ off.extractLsb' 4 6

/-- The lower field of a word of the B format. -/
def offLow (off : BitVec 12) : BitVec 5 := off.extractLsb' 0 4 ++ off.extractLsb' 10 1

/-- The immediate field of a word of the J format. -/
def offJ (off : BitVec 20) : BitVec 20 :=
  off.extractLsb' 19 1 ++ off.extractLsb' 0 10 ++ off.extractLsb' 10 1 ++ off.extractLsb' 11 8

/-- The word of an instruction of RV32I in the terms of the decoders. -/
def baseWord : Base → BitVec 32
  | .lui imm rd => encU imm rd .lui
  | .auipc imm rd => encU imm rd .auipc
  | .jal off rd => encU (offJ off) rd .jal
  | .jalr imm rs1 rd => encI imm rs1 0b000#3 rd .jalr
  | .branch cond off rs2 rs1 => encR (offHigh off) rs2 rs1 cond.funct3 (offLow off) .branch
  | .load kind imm rs1 rd => encI imm rs1 kind.funct3 rd .load
  | .store size imm rs2 rs1 => encR (immHigh imm) rs2 rs1 (0#1 ++ size.bits) (immLow imm) .store
  | .opImm o imm rs1 rd => encI imm rs1 o.funct3 rd .opImm
  | .shiftImm o shamt rs1 rd => encR o.funct7 shamt rs1 o.funct3 rd .opImm
  | .op o rs2 rs1 rd => encR o.funct7 rs2 rs1 o.funct3 rd .op
  | .fence fields rs1 rd => encI fields rs1 0b000#3 rd .miscMem
  | .ecall => encI 0x000#12 0#5 0b000#3 0#5 .system
  | .ebreak => encI 0x001#12 0#5 0b000#3 0#5 .system

/-- The word of an instruction in the terms of the decoders. -/
def insnWord : Insn → BitVec 32
  | .base i => baseWord i
  | .mulDiv f3 rs2 rs1 rd => encR 0b0000001#7 rs2 rs1 f3 rd .op
  | .csr o addr rs1 rd => encI addr rs1 (0#1 ++ o.bits) rd .system
  | .csrImm o addr uimm rd => encI addr uimm (1#1 ++ o.bits) rd .system
  | .fenceI fields rs1 rd => encI fields rs1 0b001#3 rd .miscMem
  | .mret => encI 0x302#12 0#5 0b000#3 0#5 .system
  | .dret => encI 0x7b2#12 0#5 0b000#3 0#5 .system
  | .wfi => encI 0x105#12 0#5 0b000#3 0#5 .system

/-- The encoding of RV32I in the terms of the decoders. -/
theorem encode_base (i : Base) : i.encode = baseWord i := by
  cases i <;> rfl

/-- The encoding in the terms of the decoders. -/
theorem encode_insn (i : Insn) : i.encode = insnWord i := by
  cases i with
  | base i => exact encode_base i
  | _ => rfl

/-- The immediate of a word of the S format. -/
theorem exists_immS (f7 : BitVec 7) (rd : BitVec 5) :
    ∃ imm : BitVec 12, immHigh imm = f7 ∧ immLow imm = rd := by
  refine ⟨f7 ++ rd, ?_, ?_⟩
  · exact (Bits.extract_skip f7 rd 0 7).trans (Bits.extract_all f7)
  · exact Bits.extract_last f7 rd

/-- The offset of a word of the B format. -/
theorem exists_offB (f7 : BitVec 7) (rd : BitVec 5) :
    ∃ off : BitVec 12, offHigh off = f7 ∧ offLow off = rd := by
  refine ⟨f7.extractLsb' 6 1 ++ rd.extractLsb' 0 1 ++ f7.extractLsb' 0 6 ++ rd.extractLsb' 1 4,
    ?_, ?_⟩
  all_goals
    refine BitVec.eq_of_getLsbD_eq fun i hi => ?_
    simp only [offHigh, offLow]
    interval_cases i <;> simp only [BitVec.getLsbD_append, BitVec.getLsbD_extractLsb'] <;> rfl

/-- The offset of a word of the J format. -/
theorem exists_offJ (imm : BitVec 20) :
    ∃ off : BitVec 20, offJ off = imm := by
  refine ⟨imm.extractLsb' 19 1 ++ imm.extractLsb' 0 8 ++ imm.extractLsb' 8 1
    ++ imm.extractLsb' 9 10, ?_⟩
  refine BitVec.eq_of_getLsbD_eq fun i hi => ?_
  simp only [offJ]
  interval_cases i <;> simp only [BitVec.getLsbD_append, BitVec.getLsbD_extractLsb'] <;> rfl

/-! ### The case distinction of the decoder -/

/-- The funct7 and funct3 of a shift by an immediate whose bits 26 and 25 should be zero, but
are not looked at. -/
def shamtUnchecked (f7 : BitVec 7) (f3 : BitVec 3) : Bool :=
  (f3 == 0b001#3 && (f7 == 0b0000001#7 || f7 == 0b0000010#7 || f7 == 0b0000011#7))
    || (f3 == 0b101#3 && (f7 == 0b0000001#7 || f7 == 0b0100001#7))

/-- The shifts to the left are those with funct7 zero. -/
theorem exists_shift_left (f7 : BitVec 7) :
    (∃ o : Shift, o.funct7 = f7 ∧ o.funct3 = 0b001#3) ↔ f7 = 0b0000000#7 := by
  constructor
  · rintro ⟨_ | _ | _, rfl, h⟩
    · rfl
    · cases h
    · cases h
  · rintro rfl
    exact ⟨.left, rfl, rfl⟩

/-- The shifts to the right are those with one of two funct7. -/
theorem exists_shift_right (f7 : BitVec 7) :
    (∃ o : Shift, o.funct7 = f7 ∧ o.funct3 = 0b101#3) ↔
      f7 = 0b0000000#7 ∨ f7 = 0b0100000#7 := by
  constructor
  · rintro ⟨_ | _ | _, rfl, h⟩
    · cases h
    · exact Or.inl rfl
    · exact Or.inr rfl
  · rintro (rfl | rfl)
    · exact ⟨.right, rfl, rfl⟩
    · exact ⟨.arith, rfl, rfl⟩

/-- The legal register-immediate operations are the operations and the shifts, and the shifts
with unchecked bits. -/
theorem opImmIllegal_iff (b : Bool) (f7 : BitVec 7) (rs2 : BitVec 5) (f3 : BitVec 3) :
    opImmIllegal ⟨true, false, b⟩ f7 rs2 f3 = false ↔
      (∃ o : ImmOp, o.funct3 = f3) ∨ (∃ o : Shift, o.funct7 = f7 ∧ o.funct3 = f3) ∨
        shamtUnchecked f7 f3 = true := by
  have hf3 : ∀ f3 : BitVec 3, f3 = 0b001#3 ∨ f3 = 0b101#3 ∨ ∃ o : ImmOp, o.funct3 = f3 := by
    decide
  obtain rfl | rfl | ⟨o, rfl⟩ := hf3 f3
  · have hno : ¬ ∃ o : ImmOp, o.funct3 = 0b001#3 := by decide
    have hbits : ∀ f7 : BitVec 7, f7.extractLsb 6 2 = 0b00000#5 ↔
        f7 = 0b0000000#7 ∨ shamtUnchecked f7 0b001#3 = true := by decide +kernel
    simp only [exists_shift_left, hno, false_or, ← hbits]
    simp [opImmIllegal]
  · have hno : ¬ ∃ o : ImmOp, o.funct3 = 0b101#3 := by decide
    have hbits : ∀ f7 : BitVec 7, (f7.getLsbD 1 = false ∧
          f7.extractLsb 6 2 ∈ [0b00000#5, 0b01000#5]) ↔
        (f7 = 0b0000000#7 ∨ f7 = 0b0100000#7) ∨ shamtUnchecked f7 0b101#3 = true := by
      decide +kernel
    simp only [exists_shift_right, hno, false_or, ← hbits]
    simp only [opImmIllegal, Bool.not_false]
    cases f7.getLsbD 1 <;> simp [or_iff_not_imp_left]
  · simp only [exists_apply_eq_apply, true_or, iff_true]
    cases o <;> rfl

/-- The register-register operations of RV32I are those of the list. -/
theorem mem_opRv32i_iff (f7 : BitVec 7) (f3 : BitVec 3) :
    (f7, f3) ∈ opRv32i ↔ ∃ o : RegOp, o.funct7 = f7 ∧ o.funct3 = f3 := by
  constructor
  · have hall : ∀ p ∈ opRv32i, ∃ o : RegOp, o.funct7 = p.1 ∧ o.funct3 = p.2 :=
      List.forall_iff_forall_mem.mp (by decide)
    exact fun h => hall _ h
  · rintro ⟨o, rfl, rfl⟩
    revert o
    decide

/-- The legal register-register operations. -/
theorem opIllegal_iff (b : Bool) (f7 : BitVec 7) (f3 : BitVec 3) :
    opIllegal ⟨true, false, b⟩ f7 f3 = false ↔
      f7 = 0b0000001#7 ∨ ∃ o : RegOp, o.funct7 = f7 ∧ o.funct3 = f3 := by
  rw [← mem_opRv32i_iff, opIllegal]
  by_cases ht : opTernary f7 f3 = true
  · -- no operation without RV32B has bit 26 set
    have hno : ∀ p ∈ opRv32i, opTernary p.1 p.2 = false :=
      List.forall_iff_forall_mem.mp (by decide)
    have hmem : (f7, f3) ∉ opRv32i := fun h => by simp [hno _ h] at ht
    have hf7 : f7 ≠ 0b0000001#7 := by
      rintro rfl
      simp [opTernary] at ht
    simp [ht, hmem, hf7]
  · by_cases hmem : (f7, f3) ∈ opRv32i
    · simp [ht, hmem]
    · have hm : ∀ p ∈ opRv32b, p.1 ≠ 0b0000001#7 := List.forall_iff_forall_mem.mp (by decide)
      have hb : f7 = 0b0000001#7 → (f7, f3) ∉ opRv32b := fun h hp => hm _ hp h
      simpa [ht, hmem] using hb

/-- The words of a shift by an immediate whose upper bits the decoder does not look at. -/
def ShamtUnchecked (w : BitVec 32) : Prop :=
  opcodeBits w = Opcode.opImm.bits ∧ shamtUnchecked (funct7 w) (funct3 w) = true

/-- It is a test of a few fields of the word. -/
instance (w : BitVec 32) : Decidable (ShamtUnchecked w) := inferInstanceAs (Decidable (_ ∧ _))

/-! ### Accepted words -/

/-- The opcode of an instruction. -/
def opcodeOf : Insn → Opcode
  | .base (.lui ..) => .lui
  | .base (.auipc ..) => .auipc
  | .base (.jal ..) => .jal
  | .base (.jalr ..) => .jalr
  | .base (.branch ..) => .branch
  | .base (.load ..) => .load
  | .base (.store ..) => .store
  | .base (.opImm ..) | .base (.shiftImm ..) => .opImm
  | .base (.op ..) | .mulDiv .. => .op
  | .base (.fence ..) | .fenceI .. => .miscMem
  | .base .ecall | .base .ebreak | .csr .. | .csrImm .. | .mret | .dret | .wfi => .system

/-- The opcode is in the low bits of the word. -/
theorem opcodeBits_insnWord (i : Insn) : opcodeBits (insnWord i) = (opcodeOf i).bits := by
  cases i with
  | base i => cases i <;> simp [insnWord, baseWord, opcodeOf]
  | _ => simp [insnWord, opcodeOf]

/-- The encodings of the conditions of a branch. -/
theorem exists_cond (f3 : BitVec 3) :
    (∃ c : Cond, c.funct3 = f3) ↔ (f3 == 0b010#3 || f3 == 0b011#3) = false := by
  revert f3
  decide

/-- The encodings of the sizes of a store. -/
theorem exists_size (f3 : BitVec 3) :
    (∃ size : Size, 0#1 ++ size.bits = f3) ↔
      (f3.getLsbD 2 || f3.extractLsb 1 0 == 0b11#2) = false := by
  revert f3
  decide

/-- The encodings of the loads. -/
theorem exists_load (f3 : BitVec 3) :
    (∃ k : Rv32.Load, k.funct3 = f3) ↔
      (f3.extractLsb 1 0 == 0b11#2 || (f3.extractLsb 1 0 == 0b10#2 && f3.getLsbD 2)) = false := by
  revert f3
  decide

/-- The encodings of the CSR operations. -/
theorem exists_csrOp (f3 : BitVec 3) :
    ((∃ o : Rv32.CsrOp, 0#1 ++ o.bits = f3) ∨ ∃ o : Rv32.CsrOp, 1#1 ++ o.bits = f3) ↔
      (f3.extractLsb 1 0 == 0b00#2) = false := by
  revert f3
  decide

/-- The function codes of the system instructions. -/
theorem systemOut_illegal (f12 : BitVec 12) :
    (systemOut f12).illegalInsn = false ↔
      f12 = 0x000#12 ∨ f12 = 0x001#12 ∨ f12 = 0x302#12 ∨ f12 = 0x7b2#12 ∨ f12 = 0x105#12 := by
  rw [systemOut]
  split_ifs <;> simp_all

/-- The decoder accepts the word of every instruction of RV32I. -/
theorem legal_base (b first : Bool) (i : Base) :
    (mainDecodeRaw ⟨true, false, b⟩ first (baseWord i)).illegalInsn = false := by
  cases i with
  | branch cond off rs2 rs1 =>
      simpa [mainDecodeRaw, baseWord] using (exists_cond cond.funct3).mp ⟨cond, rfl⟩
  | load kind imm rs1 rd =>
      simp only [mainDecodeRaw, getLsbD_14, extractLsb_13_12, baseWord, opcodeBits_encI,
        funct3_encI, Opcode.ofBits_bits]
      exact (exists_load kind.funct3).mp ⟨kind, rfl⟩
  | store size imm rs2 rs1 =>
      simp only [mainDecodeRaw, getLsbD_14, extractLsb_13_12, baseWord, opcodeBits_encR,
        funct3_encR, Opcode.ofBits_bits]
      exact (exists_size (0#1 ++ size.bits)).mp ⟨size, rfl⟩
  | opImm o imm rs1 rd =>
      simpa [mainDecodeRaw, baseWord] using (opImmIllegal_iff b _ _ _).mpr (Or.inl ⟨o, rfl⟩)
  | shiftImm o shamt rs1 rd =>
      simpa [mainDecodeRaw, baseWord] using
        (opImmIllegal_iff b _ _ _).mpr (Or.inr (Or.inl ⟨o, rfl, rfl⟩))
  | op o rs2 rs1 rd =>
      simpa [mainDecodeRaw, baseWord] using (opIllegal_iff b _ _).mpr (Or.inr ⟨o, rfl, rfl⟩)
  | _ => simp [mainDecodeRaw, baseWord, systemOut]

/-- The decoder accepts the word of every instruction. -/
theorem legal_insn (b first : Bool) (i : Insn) :
    (mainDecodeRaw ⟨true, false, b⟩ first (insnWord i)).illegalInsn = false := by
  cases i with
  | base i => exact legal_base b first i
  | mulDiv f3 rs2 rs1 rd =>
      simpa [mainDecodeRaw, insnWord] using (opIllegal_iff b _ f3).mpr (Or.inl rfl)
  | csr o addr rs1 rd =>
      have hf : (0#1 ++ o.bits : BitVec 3) ≠ 0b000#3 := by cases o <;> decide
      simpa [mainDecodeRaw, insnWord, hf, extractLsb_13_12] using
        (exists_csrOp (0#1 ++ o.bits)).mp (Or.inl ⟨o, rfl⟩)
  | csrImm o addr uimm rd =>
      have hf : (1#1 ++ o.bits : BitVec 3) ≠ 0b000#3 := by cases o <;> decide
      simpa [mainDecodeRaw, insnWord, hf, extractLsb_13_12] using
        (exists_csrOp (1#1 ++ o.bits)).mp (Or.inr ⟨o, rfl⟩)
  | _ => simp [mainDecodeRaw, insnWord, systemOut]

/-- The opcode of a word that the decoder knows. -/
theorem opcodeBits_of_ofBits {w : BitVec 32} {o : Opcode}
    (h : Opcode.ofBits (opcodeBits w) = some o) : opcodeBits w = o.bits := by
  have hb := List.find?_some h
  exact (beq_iff_eq.mp hb).symm

/-- An accepted word encodes an instruction, or it is a shift with unchecked bits. -/
theorem legal_of_accepted {b first : Bool} {w : BitVec 32}
    (hl : (mainDecodeRaw ⟨true, false, b⟩ first w).illegalInsn = false) :
    Legal w ∨ ShamtUnchecked w := by
  cases ho : Opcode.ofBits (opcodeBits w) with
  | none => simp [mainDecodeRaw, ho] at hl
  | some o =>
      have hop := opcodeBits_of_ofBits ho
      have hR := encR_fields hop
      have hI := encI_fields hop
      have hU := encU_fields hop
      simp only [mainDecodeRaw, ho, getLsbD_14, extractLsb_13_12] at hl
      cases o with
      | lui => exact Or.inl ⟨.base (.lui (w.extractLsb 31 12) (regD w)), hU⟩
      | auipc => exact Or.inl ⟨.base (.auipc (w.extractLsb 31 12) (regD w)), hU⟩
      | jal =>
          obtain ⟨off, hoff⟩ := exists_offJ (w.extractLsb 31 12)
          rw [← hoff] at hU
          exact Or.inl ⟨.base (.jal off (regD w)), hU⟩
      | jalr =>
          have hf : funct3 w = 0b000#3 := by simpa using hl
          rw [hf] at hI
          exact Or.inl ⟨.base (.jalr (funct12 w) (regS1 w) (regD w)), hI⟩
      | branch =>
          obtain ⟨cond, hc⟩ := (exists_cond (funct3 w)).mpr hl
          obtain ⟨off, hf7, hrd⟩ := exists_offB (funct7 w) (regD w)
          rw [← hc, ← hf7, ← hrd] at hR
          exact Or.inl ⟨.base (.branch cond off (regS2 w) (regS1 w)), hR⟩
      | load =>
          obtain ⟨kind, hk⟩ := (exists_load (funct3 w)).mpr hl
          rw [← hk] at hI
          exact Or.inl ⟨.base (.load kind (funct12 w) (regS1 w) (regD w)), hI⟩
      | store =>
          obtain ⟨size, hs⟩ := (exists_size (funct3 w)).mpr hl
          obtain ⟨imm, hf7, hrd⟩ := exists_immS (funct7 w) (regD w)
          rw [← hs, ← hf7, ← hrd] at hR
          exact Or.inl ⟨.base (.store size imm (regS2 w) (regS1 w)), hR⟩
      | opImm =>
          obtain ⟨o, hf⟩ | ⟨o, hf7, hf⟩ | hsh := (opImmIllegal_iff b _ _ _).mp hl
          · rw [← hf] at hI
            exact Or.inl ⟨.base (.opImm o (funct12 w) (regS1 w) (regD w)), hI⟩
          · rw [← hf, ← hf7] at hR
            exact Or.inl ⟨.base (.shiftImm o (regS2 w) (regS1 w) (regD w)), hR⟩
          · exact Or.inr ⟨hop, hsh⟩
      | op =>
          obtain hf7 | ⟨o, hf7, hf⟩ := (opIllegal_iff b _ _).mp hl
          · rw [hf7] at hR
            exact Or.inl ⟨.mulDiv (funct3 w) (regS2 w) (regS1 w) (regD w), hR⟩
          · rw [← hf, ← hf7] at hR
            exact Or.inl ⟨.base (.op o (regS2 w) (regS1 w) (regD w)), hR⟩
      | miscMem =>
          have hf : funct3 w = 0b000#3 ∨ funct3 w = 0b001#3 := by
            dsimp only at hl
            split at hl
            next h => exact Or.inl h
            next h => exact Or.inr h
            next => cases hl
          obtain hf | hf := hf
          · rw [hf] at hI
            exact Or.inl ⟨.base (.fence (funct12 w) (regS1 w) (regD w)), hI⟩
          · rw [hf] at hI
            exact Or.inl ⟨.fenceI (funct12 w) (regS1 w) (regD w), hI⟩
      | system =>
          by_cases hf : funct3 w = 0b000#3
          · simp only [hf, if_true, Bool.or_eq_false_iff, bne_eq_false_iff_eq] at hl
            obtain ⟨⟨h12, hs1⟩, hd⟩ := hl
            rw [hf, hs1, hd] at hI
            rw [systemOut_illegal] at h12
            obtain h12 | h12 | h12 | h12 | h12 := h12
            all_goals rw [h12] at hI
            · exact Or.inl ⟨.base .ecall, hI⟩
            · exact Or.inl ⟨.base .ebreak, hI⟩
            · exact Or.inl ⟨.mret, hI⟩
            · exact Or.inl ⟨.dret, hI⟩
            · exact Or.inl ⟨.wfi, hI⟩
          · rw [if_neg hf] at hl
            obtain ⟨o, hc⟩ | ⟨o, hc⟩ := (exists_csrOp (funct3 w)).mpr hl
            · rw [← hc] at hI
              exact Or.inl ⟨.csr o (funct12 w) (regS1 w) (regD w), hI⟩
            · rw [← hc] at hI
              exact Or.inl ⟨.csrImm o (funct12 w) (regS1 w) (regD w), hI⟩

/-- A shift with unchecked bits encodes no instruction. -/
theorem not_legal_of_shamtUnchecked {w : BitVec 32} (h : ShamtUnchecked w) : ¬ Legal w := by
  rintro ⟨i, rfl⟩
  obtain ⟨hop, hsh⟩ := h
  rw [encode_insn] at hop hsh
  rw [opcodeBits_insnWord] at hop
  have hImm : ∀ (o : ImmOp) (f7 : BitVec 7), shamtUnchecked f7 o.funct3 = false := by
    intro o f7
    cases o <;> rfl
  have hShift : ∀ o : Shift, shamtUnchecked o.funct7 o.funct3 = false := by decide
  cases i with
  | base i =>
      cases i with
      | opImm o imm rs1 rd =>
          rw [insnWord, baseWord, funct3_encI, hImm] at hsh
          cases hsh
      | shiftImm o shamt rs1 rd =>
          rw [insnWord, baseWord, funct7_encR, funct3_encR, hShift] at hsh
          cases hsh
      | _ => cases hop
  | _ => cases hop

/-! ### What the decoder enables -/

/-- `mult_en_o`. -/
def multEn (cfg : Config) (first branchTaken illegalC : Bool) (w : BitVec 32) : Bool :=
  if (mainDecode cfg first illegalC w).illegalInsn then false
  else (aluDecode cfg first branchTaken w).multSel

/-- `div_en_o`. -/
def divEn (cfg : Config) (first branchTaken illegalC : Bool) (w : BitVec 32) : Bool :=
  if (mainDecode cfg first illegalC w).illegalInsn then false
  else (aluDecode cfg first branchTaken w).divSel

/-- The decoder enables no register write, memory request, jump, branch or CSR access, and
does not start the multiplier or divider. -/
structure EnablesNothing (cfg : Config) (first branchTaken illegalC : Bool) (w : BitVec 32) :
    Prop where
  rfWe : (mainDecode cfg first illegalC w).rfWe = false
  dataReq : (mainDecode cfg first illegalC w).dataReq = false
  jumpInDec : (mainDecode cfg first illegalC w).jumpInDec = false
  jumpSet : (mainDecode cfg first illegalC w).jumpSet = false
  branchInDec : (mainDecode cfg first illegalC w).branchInDec = false
  csrAccess : (mainDecode cfg first illegalC w).csrAccess = false
  multEn : multEn cfg first branchTaken illegalC w = false
  divEn : divEn cfg first branchTaken illegalC w = false

/-- An illegal word enables nothing, in any configuration. -/
theorem enablesNothing_of_illegal {cfg : Config} {first illegalC : Bool} {w : BitVec 32}
    (branchTaken : Bool) (h : (mainDecode cfg first illegalC w).illegalInsn = true) :
    EnablesNothing cfg first branchTaken illegalC w := by
  have hill : ((mainDecodeRaw cfg first w).illegalInsn || illegalC) = true := by
    rw [mainDecode, MainOut.squash_illegalInsn] at h
    exact h
  have hsq : mainDecode cfg first illegalC w =
      { mainDecodeRaw cfg first w with
        illegalInsn := true, rfWe := false, dataReq := false, dataWe := false,
        jumpInDec := false, jumpSet := false, branchInDec := false, csrAccess := false } := by
    simp only [mainDecode, MainOut.squash, hill, if_true]
  constructor
  · rw [hsq]
  · rw [hsq]
  · rw [hsq]
  · rw [hsq]
  · rw [hsq]
  · rw [hsq]
  · rw [CocoIbex.multEn, if_pos h]
  · rw [CocoIbex.divEn, if_pos h]

/-- The decoder and the instruction set agree on the word: it is accepted if and only if it
is legal, and enables nothing if it is not accepted. -/
def LegalityRight (cfg : Config) (first branchTaken : Bool) (w : BitVec 32) : Prop :=
  ((mainDecode cfg first false w).illegalInsn = false ↔ Legal w) ∧
    ((mainDecode cfg first false w).illegalInsn = true →
      EnablesNothing cfg first branchTaken false w)

/-- **Legality without RV32B.** The decoder agrees with the instruction set on every word
but the shifts by an immediate with unchecked bits. -/
theorem legality_right_iff (b first branchTaken : Bool) (w : BitVec 32) :
    LegalityRight ⟨true, false, b⟩ first branchTaken w ↔ ¬ ShamtUnchecked w := by
  have hmain : (mainDecode ⟨true, false, b⟩ first false w).illegalInsn
      = (mainDecodeRaw ⟨true, false, b⟩ first w).illegalInsn := by
    simp [mainDecode]
  constructor
  · rintro ⟨hiff, -⟩ hsh
    have hacc : (mainDecodeRaw ⟨true, false, b⟩ first w).illegalInsn = false := by
      have h := (opImmIllegal_iff b (funct7 w) (regS2 w) (funct3 w)).mpr (Or.inr (Or.inr hsh.2))
      simp only [mainDecodeRaw, hsh.1, Opcode.ofBits_bits]
      exact h
    rw [hmain] at hiff
    exact not_legal_of_shamtUnchecked hsh (hiff.mp hacc)
  · intro hsh
    refine ⟨?_, enablesNothing_of_illegal branchTaken⟩
    rw [hmain]
    constructor
    · exact fun hacc => (legal_of_accepted hacc).resolve_right hsh
    · rintro ⟨i, rfl⟩
      rw [encode_insn]
      exact legal_insn b first i

/-- `slli x1, x1, 0` with bit 25 set is reserved, and accepted as a shift. -/
theorem shamt_bit_accepted :
    ¬ LegalityRight ⟨true, false, false⟩ true false 0x02009093#32 ∧
      (mainDecode ⟨true, false, false⟩ true false 0x02009093#32).illegalInsn = false ∧
      (mainDecode ⟨true, false, false⟩ true false 0x02009093#32).rfWe = true := by
  have hsh : ShamtUnchecked 0x02009093#32 := by decide
  refine ⟨fun h => ?_, by decide, by decide⟩
  exact not_legal_of_shamtUnchecked hsh (h.1.mp (by decide))

end CocoIbex
