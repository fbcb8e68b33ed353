import CocoIbex.CompressedDecoder
import CocoIbex.Legality
import CocoIbex.Rvc

/-!
# The Expansion of Compressed Instructions

The compressed decoder against the C extension: which halfwords it accepts, and the words to
which it expands them. Both sides are cut along the fields of the CI format, by which every part
of a halfword that the decoder looks at can be named.

The comparison has two directions. For an instruction of the extension, the decoder accepts its
encoding and gives the encoding of its expansion, with `illegal_instr_o` low, one lemma for each
group of instructions. For a halfword that encodes no instruction, the decoder rejects it; there
the proof goes through the cases of the decoder and finds for each accepted halfword the
instruction that it encodes. A rejected word is forwarded unchanged, which is the default of the
source.

The word is given by its fields (`HasFields`), so that neither side ever looks at all sixteen
bits at once.

## Main results

* `expandsTo_of_encode` — the decoder at a word whose low half is a compressed instruction;
* `compressedDecoder_expands` — both directions, and that the upper half of an accepted word
  does not matter.
-/

namespace CocoIbex

open Rv32

/-! ### The fields of a halfword -/

/-- A field in the low half of a word. -/
theorem extract_low (w : BitVec 32) (k n : ℕ) (h : k + n ≤ 16) :
    w.extractLsb' k n = (w.extractLsb' 0 16).extractLsb' k n := by
  refine BitVec.eq_of_getLsbD_eq fun i hi => ?_
  have hk : k + i < 16 := by omega
  simp only [BitVec.getLsbD_extractLsb', hi, hk, Nat.zero_add, decide_true, Bool.true_and]

/-- The low half of a word by the fields of the CI format. -/
theorem low_eq (w : BitVec 32) :
    w.extractLsb' 0 16
      = Rvc.ciType (funct3C w) (w.extractLsb' 12 1) (regD w) (field62 w) (quadrant w) := by
  refine BitVec.eq_of_toNat_eq ?_
  have := w.isLt
  simp only [Rvc.ciType, Bits.toNat_append_eq, funct3C, regD, field62, quadrant,
    BitVec.extractLsb, BitVec.extractLsb'_toNat, Nat.shiftRight_eq_div_pow]
  omega

/-- The low half of a word has the fields. -/
structure HasFields (w : BitVec 32) (f3 : BitVec 3) (b12 : BitVec 1) (rd imm : BitVec 5)
    (q : BitVec 2) : Prop where
  quadrant : quadrant w = q
  funct3C : funct3C w = f3
  bit12 : w.extractLsb' 12 1 = b12
  regD : regD w = rd
  field62 : field62 w = imm

/-- The fields of a word whose low half is put together from fields. -/
theorem hasFields_of_low {w : BitVec 32} {f3 : BitVec 3} {b12 : BitVec 1} {rd imm : BitVec 5}
    {q : BitVec 2} (h : w.extractLsb' 0 16 = Rvc.ciType f3 b12 rd imm q) :
    HasFields w f3 b12 rd imm q where
  quadrant := ((extract_low w 0 2 (by omega)).trans (congrArg _ h)).trans (Bits.extract_last _ _)
  funct3C := ((extract_low w 13 3 (by omega)).trans (congrArg _ h)).trans <|
    (Bits.extract_skip _ q _ _).trans <| (Bits.extract_skip _ imm _ _).trans <|
      (Bits.extract_skip _ rd _ _).trans <| (Bits.extract_skip _ b12 0 _).trans
        (Bits.extract_all _)
  bit12 := ((extract_low w 12 1 (by omega)).trans (congrArg _ h)).trans <|
    (Bits.extract_skip _ q _ _).trans <| (Bits.extract_skip _ imm _ _).trans <|
      (Bits.extract_skip _ rd 0 _).trans (Bits.extract_last _ _)
  regD := ((extract_low w 7 5 (by omega)).trans (congrArg _ h)).trans <|
    (Bits.extract_skip _ q _ _).trans <| (Bits.extract_skip _ imm 0 _).trans
      (Bits.extract_last _ _)
  field62 := ((extract_low w 2 5 (by omega)).trans (congrArg _ h)).trans <|
    (Bits.extract_skip _ q 0 _).trans (Bits.extract_last _ _)

/-- The fields of a word by those of its low half. -/
theorem fields_ci (high : BitVec 16) (f3 : BitVec 3) (b12 : BitVec 1) (rd imm : BitVec 5)
    (q : BitVec 2) : HasFields (high ++ Rvc.ciType f3 b12 rd imm q) f3 b12 rd imm q :=
  hasFields_of_low (Bits.extract_last _ _)

/-- A halfword of the CB format by the fields of the CI format. -/
theorem cbType_eq (f3 up rs1 : BitVec 3) (low : BitVec 5) (q : BitVec 2) :
    Rvc.cbType f3 up rs1 low q
      = Rvc.ciType f3 (up.extractLsb' 2 1) (up.extractLsb' 0 2 ++ rs1) low q := by
  refine BitVec.eq_of_getLsbD_eq fun i hi => ?_
  simp only [Rvc.cbType, Rvc.ciType, BitVec.getLsbD_append, BitVec.getLsbD_extractLsb']
  interval_cases i <;> rfl

/-- The fields of a word whose low half has the CB format. -/
theorem fields_cb (high : BitVec 16) (f3 up rs1 : BitVec 3) (low : BitVec 5) (q : BitVec 2) :
    HasFields (high ++ Rvc.cbType f3 up rs1 low q) f3 (up.extractLsb' 2 1)
      (up.extractLsb' 0 2 ++ rs1) low q := by
  rw [cbType_eq]
  exact fields_ci high _ _ _ _ _

/-- The register in the middle of the CB format. -/
theorem regHighC_cb (high : BitVec 16) (f3 up rs1 : BitVec 3) (low : BitVec 5) (q : BitVec 2) :
    regHighC (high ++ Rvc.cbType f3 up rs1 low q) = Rvc.reg rs1 := by
  refine BitVec.eq_of_getLsbD_eq fun i hi => ?_
  simp only [regHighC, Rvc.reg, Rvc.cbType, BitVec.getLsbD_append, BitVec.getLsbD_extractLsb]
  interval_cases i <;> rfl

/-- The register at the end of the CB format. -/
theorem regLowC_cb (high : BitVec 16) (f3 up rs1 : BitVec 3) (x : BitVec 2) (rs2 : BitVec 3)
    (q : BitVec 2) :
    regLowC (high ++ Rvc.cbType f3 up rs1 (x ++ rs2) q) = Rvc.reg rs2 := by
  refine BitVec.eq_of_getLsbD_eq fun i hi => ?_
  simp only [regLowC, Rvc.reg, Rvc.cbType, BitVec.getLsbD_append, BitVec.getLsbD_extractLsb]
  interval_cases i <;> rfl

/-- A halfword of a jump by the fields of the CI format. -/
theorem jump_eq (f3 : BitVec 3) (field : BitVec 11) (q : BitVec 2) :
    f3 ++ field ++ q
      = Rvc.ciType f3 (field.extractLsb' 10 1) (field.extractLsb' 5 5) (field.extractLsb' 0 5)
          q := by
  refine BitVec.eq_of_getLsbD_eq fun i hi => ?_
  simp only [Rvc.ciType, BitVec.getLsbD_append, BitVec.getLsbD_extractLsb']
  interval_cases i <;> rfl

/-- The fields of a jump. -/
theorem fields_jump (high : BitVec 16) (f3 : BitVec 3) (field : BitVec 11) (q : BitVec 2) :
    HasFields (high ++ (f3 ++ field ++ q)) f3 (field.extractLsb' 10 1) (field.extractLsb' 5 5)
      (field.extractLsb' 0 5) q := by
  rw [jump_eq]
  exact fields_ci high _ _ _ _ _

/-- The bits of the copies of bit 12. -/
theorem getLsbD_sign12 (w : BitVec 32) (n i : ℕ) :
    (sign12 w n).getLsbD i = (decide (i < n) && w.getLsbD 12) := by
  rw [sign12]
  cases w.getLsbD 12 <;> simp

/-- Bit 12 of a word, from its field. -/
theorem HasFields.getLsbD_12 {w : BitVec 32} {f3 : BitVec 3} {b12 : BitVec 1} {rd imm : BitVec 5}
    {q : BitVec 2} (h : HasFields w f3 b12 rd imm q) : w.getLsbD 12 = b12.getLsbD 0 := by
  rw [← h.bit12]
  simp

/-- Bit 12 of a word as a field. -/
theorem bit_12 (w : BitVec 32) : bit w 12 = w.extractLsb' 12 1 := by
  refine BitVec.eq_of_getLsbD_eq fun i hi => ?_
  obtain rfl : i = 0 := by omega
  simp [bit]

/-- The test of the immediate of `c.addi16sp` and `c.lui`. -/
theorem immZero_eq_false {w : BitVec 32} {f3 : BitVec 3} {b12 : BitVec 1} {rd imm : BitVec 5}
    {q : BitVec 2} (h : HasFields w f3 b12 rd imm q) (hne : b12 ++ imm ≠ 0#6) :
    ((bit w 12 ++ field62 w : BitVec 6) == 0#6) = false := by
  rw [bit_12, h.bit12, h.field62]
  exact beq_eq_false_iff_ne.mpr hne

/-! ### The immediates -/

section

variable (high : BitVec 16)

/-- The immediate of `c.addi`, `c.li` and `c.andi`. -/
theorem immC1_eq {w : BitVec 32} {f3 : BitVec 3} {rd : BitVec 5} {q : BitVec 2} {imm : BitVec 6}
    (h : HasFields w f3 (imm.extractLsb' 5 1) rd (imm.extractLsb' 0 5) q) :
    immC1 w = imm.signExtend 12 := by
  have h12 : w.getLsbD 12 = imm.getLsbD 5 := h.getLsbD_12.trans (by simp)
  refine BitVec.eq_of_getLsbD_eq fun i hi => ?_
  simp only [immC1, h.field62, bit, getLsbD_sign12, h12, BitVec.getLsbD_append,
    BitVec.getLsbD_extractLsb', BitVec.getLsbD_ofBool, BitVec.getLsbD_signExtend,
    BitVec.msb_eq_getLsbD_last]
  interval_cases i <;> rfl

/-- The offset of `c.jal` and `c.j`. -/
theorem immCJ_eq (f3 : BitVec 3) (off : BitVec 11) (q : BitVec 2) :
    immCJ (high ++ (f3 ++ Rvc.jumpField off ++ q)) = offJ (off.signExtend 20) := by
  refine BitVec.eq_of_getLsbD_eq fun i hi => ?_
  simp only [immCJ, offJ, bit, getLsbD_sign12, Rvc.jumpField, BitVec.getLsbD_append,
    BitVec.getLsbD_extractLsb', BitVec.getLsbD_extractLsb, BitVec.getLsbD_ofBool,
    BitVec.getLsbD_signExtend, BitVec.msb_eq_getLsbD_last]
  interval_cases i <;> rfl

end

/-! ### The expansion of an instruction -/

/-- The decoder accepts the word and expands it to the instruction. -/
def ExpandsTo (w : BitVec 32) (c : Rvc.Insn) : Prop :=
  (compressedDecoder w).illegalInstr = false ∧ (compressedDecoder w).instr = c.expand.encode

/-- Words of the I format with equal fields. -/
theorem encI_congr {imm imm' : BitVec 12} {rs1 rs1' rd rd' : BitVec 5} {f3 : BitVec 3}
    {o : Opcode} (hi : imm = imm') (hs : rs1 = rs1') (hd : rd = rd') :
    encI imm rs1 f3 rd o = encI imm' rs1' f3 rd' o := by
  rw [hi, hs, hd]

/-- Words of the R format with equal fields. -/
theorem encR_congr {f7 f7' : BitVec 7} {rs2 rs2' rs1 rs1' rd rd' : BitVec 5} {f3 f3' : BitVec 3}
    {o : Opcode} (h7 : f7 = f7') (h2 : rs2 = rs2') (h1 : rs1 = rs1') (h3 : f3 = f3')
    (hd : rd = rd') : encR f7 rs2 rs1 f3 rd o = encR f7' rs2' rs1' f3' rd' o := by
  rw [h7, h2, h1, h3, hd]

section

variable (high : BitVec 16)

/-! ### Quadrant C0 -/

set_option maxRecDepth 4000 in
/-- The scattered immediate of c.addi4spn is zero with the immediate only. -/
theorem addi4spn_scattered (imm : BitVec 8) : imm ≠ 0#8 →
    imm.extractLsb' 2 2 ++ imm.extractLsb' 4 4 ++ imm.extractLsb' 0 1 ++ imm.extractLsb' 1 1
      ≠ 0#8 := by
  decide +revert

set_option maxRecDepth 4000 in
/-- The immediate of c.addi4spn is zero with the scattered immediate only. -/
theorem addi4spn_gathered (v : BitVec 8) : v.extractLsb' 2 4 ++ v.extractLsb' 6 2
    ++ v.extractLsb' 0 1 ++ v.extractLsb' 1 1 = 0#8 → v = 0#8 := by
  decide +revert

/-- `c.addi4spn` expands to an `addi` of x2 with the scaled immediate, which is not zero. -/
theorem expandsTo_addi4spn (rd : BitVec 3) (imm : BitVec 8) (h : imm ≠ 0#8) :
    ExpandsTo (high ++ (Rvc.Insn.addi4spn rd imm h).encode) (.addi4spn rd imm h) := by
  -- the halfword has the CB format too
  have he : (Rvc.Insn.addi4spn rd imm h).encode
      = Rvc.cbType 0b000#3 (imm.extractLsb' 2 2 ++ imm.extractLsb' 7 1) (imm.extractLsb' 4 3)
          (imm.extractLsb' 0 1 ++ imm.extractLsb' 1 1 ++ rd) 0b00#2 := by
    refine BitVec.eq_of_getLsbD_eq fun i hi => ?_
    simp only [Rvc.Insn.encode, Rvc.cbType, BitVec.getLsbD_append, BitVec.getLsbD_extractLsb']
    interval_cases i <;> rfl
  rw [he, ExpandsTo, compressedDecoder_c0 (fields_cb ..).quadrant, decodeC0,
    (fields_cb ..).funct3C]
  constructor
  · -- the decoder tests the scattered immediate
    refine beq_eq_false_iff_ne.mpr (ne_of_eq_of_ne ?_ (addi4spn_scattered imm h))
    refine BitVec.eq_of_getLsbD_eq fun i hi => ?_
    simp only [Rvc.cbType, BitVec.getLsbD_append, BitVec.getLsbD_extractLsb',
      BitVec.getLsbD_extractLsb]
    interval_cases i <;> rfl
  · refine encI_congr ?_ rfl (regLowC_cb ..)
    refine BitVec.eq_of_getLsbD_eq fun i hi => ?_
    simp only [bit, Rvc.cbType, BitVec.getLsbD_append, BitVec.getLsbD_extractLsb',
      BitVec.getLsbD_extractLsb, BitVec.getLsbD_ofBool]
    interval_cases i <;> rfl

/-- `c.lw` expands to `lw` between two of the eight registers that three bits name. -/
theorem expandsTo_lw (rd rs1 : BitVec 3) (imm : BitVec 5) :
    ExpandsTo (high ++ (Rvc.Insn.lw rd rs1 imm).encode) (.lw rd rs1 imm) := by
  rw [Rvc.Insn.encode, ExpandsTo, compressedDecoder_c0 (fields_cb ..).quadrant, decodeC0,
    (fields_cb ..).funct3C]
  refine ⟨rfl, encI_congr ?_ (regHighC_cb ..) (regLowC_cb ..)⟩
  refine BitVec.eq_of_getLsbD_eq fun i hi => ?_
  simp only [bit, Rvc.cbType, BitVec.getLsbD_append, BitVec.getLsbD_extractLsb',
    BitVec.getLsbD_extractLsb, BitVec.getLsbD_ofBool]
  interval_cases i <;> rfl

/-- `c.sw` expands to `sw` of one of these registers with the address in another. -/
theorem expandsTo_sw (rs2 rs1 : BitVec 3) (imm : BitVec 5) :
    ExpandsTo (high ++ (Rvc.Insn.sw rs2 rs1 imm).encode) (.sw rs2 rs1 imm) := by
  rw [Rvc.Insn.encode, ExpandsTo, compressedDecoder_c0 (fields_cb ..).quadrant, decodeC0,
    (fields_cb ..).funct3C]
  refine ⟨rfl, encR_congr ?_ (regLowC_cb ..) (regHighC_cb ..) rfl ?_⟩
  all_goals
    refine BitVec.eq_of_getLsbD_eq fun i hi => ?_
    simp only [bit, Rvc.cbType, BitVec.getLsbD_append, BitVec.getLsbD_extractLsb',
      BitVec.getLsbD_extractLsb, BitVec.getLsbD_ofBool]
    interval_cases i <;> rfl

/-! ### Quadrant C1 -/

/-- `c.addi` expands to `addi` with one register as source and destination; with x0 and an
immediate of zero that is `c.nop`. -/
theorem expandsTo_addi (rd : BitVec 5) (imm : BitVec 6) :
    ExpandsTo (high ++ (Rvc.Insn.addi rd imm).encode) (.addi rd imm) := by
  rw [Rvc.Insn.encode, ExpandsTo, compressedDecoder_c1 (fields_ci ..).quadrant, decodeC1,
    (fields_ci ..).funct3C]
  exact ⟨rfl, encI_congr (immC1_eq (fields_ci ..)) (fields_ci ..).regD (fields_ci ..).regD⟩

/-- `c.jal` expands to `jal` with the link in x1. -/
theorem expandsTo_jal (off : BitVec 11) :
    ExpandsTo (high ++ (Rvc.Insn.jal off).encode) (.jal off) := by
  have hl := linkC1_eq (fields_jump high 0b001#3 (Rvc.jumpField off) 0b01#2).funct3C
  rw [Rvc.Insn.encode, ExpandsTo, compressedDecoder_c1 (fields_jump ..).quadrant, decodeC1,
    (fields_jump ..).funct3C]
  refine ⟨rfl, ?_⟩
  change encU (immCJ _) (linkC1 _) .jal = _
  rw [immCJ_eq, hl]
  rfl

/-- `c.li` expands to `addi` from x0. -/
theorem expandsTo_li (rd : BitVec 5) (imm : BitVec 6) :
    ExpandsTo (high ++ (Rvc.Insn.li rd imm).encode) (.li rd imm) := by
  rw [Rvc.Insn.encode, ExpandsTo, compressedDecoder_c1 (fields_ci ..).quadrant, decodeC1,
    (fields_ci ..).funct3C]
  exact ⟨rfl, encI_congr (immC1_eq (fields_ci ..)) rfl (fields_ci ..).regD⟩

/-- `c.addi16sp` expands to `addi` of x2 to itself, with an immediate that is a multiple of 16. -/
theorem expandsTo_addi16sp (imm : BitVec 6) (h : imm ≠ 0#6) :
    ExpandsTo (high ++ (Rvc.Insn.addi16sp imm h).encode) (.addi16sp imm h) := by
  rw [Rvc.Insn.encode, ExpandsTo, compressedDecoder_c1 (fields_ci ..).quadrant, decodeC1,
    (fields_ci ..).funct3C]
  change _ ∧ (decodeC1Lui _).instr = _
  rw [decodeC1Lui, if_pos (fields_ci ..).regD]
  constructor
  · have hne : ∀ imm : BitVec 6, imm ≠ 0#6 →
        imm.extractLsb' 5 1 ++ (imm.extractLsb' 0 1 ++ imm.extractLsb' 2 1 ++ imm.extractLsb' 3 2
          ++ imm.extractLsb' 1 1) ≠ 0#6 := by decide
    exact immZero_eq_false (fields_ci ..) (hne imm h)
  · refine encI_congr ?_ rfl rfl
    refine BitVec.eq_of_getLsbD_eq fun i hi => ?_
    simp only [bit, getLsbD_sign12, Rvc.ciType, BitVec.getLsbD_append, BitVec.getLsbD_extractLsb',
      BitVec.getLsbD_extractLsb, BitVec.getLsbD_ofBool, BitVec.getLsbD_signExtend,
      BitVec.msb_eq_getLsbD_last]
    interval_cases i <;> rfl

/-- `c.lui` expands to `lui` with the sign of its six bits in all higher ones. -/
theorem expandsTo_lui (rd : BitVec 5) (imm : BitVec 6) (hrd : rd ≠ 2#5) (h : imm ≠ 0#6) :
    ExpandsTo (high ++ (Rvc.Insn.lui rd imm hrd h).encode) (.lui rd imm hrd h) := by
  have hf := fields_ci high 0b011#3 (imm.extractLsb' 5 1) rd (imm.extractLsb' 0 5) 0b01#2
  rw [Rvc.Insn.encode, ExpandsTo, compressedDecoder_c1 hf.quadrant, decodeC1, hf.funct3C]
  change _ ∧ (decodeC1Lui _).instr = _
  rw [decodeC1Lui, if_neg (hf.regD.symm ▸ hrd)]
  constructor
  · have hne : ∀ imm : BitVec 6, imm ≠ 0#6 →
        imm.extractLsb' 5 1 ++ imm.extractLsb' 0 5 ≠ 0#6 := by decide
    exact immZero_eq_false hf (hne imm h)
  · change encU (sign12 _ 15 ++ field62 _) (CocoIbex.regD _) .lui = encU (imm.signExtend 20) rd .lui
    rw [hf.regD, hf.field62]
    congr 1
    refine BitVec.eq_of_getLsbD_eq fun i hi => ?_
    simp only [getLsbD_sign12, Rvc.ciType, BitVec.getLsbD_append, BitVec.getLsbD_extractLsb',
      BitVec.getLsbD_signExtend, BitVec.msb_eq_getLsbD_last]
    interval_cases i <;> rfl

/-- `instr_i[11:10]` of the CB format. -/
theorem extract_11_10 (f3 up rs1 : BitVec 3) (low : BitVec 5) (q : BitVec 2) :
    (high ++ Rvc.cbType f3 up rs1 low q).extractLsb 11 10 = up.extractLsb' 0 2 := by
  refine BitVec.eq_of_getLsbD_eq fun i hi => ?_
  simp only [Rvc.cbType, BitVec.getLsbD_append, BitVec.getLsbD_extractLsb',
    BitVec.getLsbD_extractLsb]
  interval_cases i <;> rfl

/-- `c.srli` and `c.srai` expand to their shifts by a constant below 32. -/
theorem expandsTo_shiftRight (arith : Bool) (rd : BitVec 3) (shamt : BitVec 5) :
    ExpandsTo (high ++ (Rvc.Insn.shiftRight arith rd shamt).encode)
      (.shiftRight arith rd shamt) := by
  have hf := fields_cb high 0b100#3 (0b00#2 ++ BitVec.ofBool arith) rd shamt 0b01#2
  have h12 : (high ++ Rvc.cbType 0b100#3 (0b00#2 ++ BitVec.ofBool arith) rd shamt 0b01#2).getLsbD
      12 = false := hf.getLsbD_12.trans (by cases arith <;> rfl)
  rw [Rvc.Insn.encode, ExpandsTo, compressedDecoder_c1 hf.quadrant, decodeC1, hf.funct3C]
  change (decodeC1Arith _).illegalInstr = false ∧ (decodeC1Arith _).instr = _
  rw [decodeC1Arith, extract_11_10]
  cases arith with
  | false =>
    exact ⟨h12, encR_congr rfl hf.field62 (regHighC_cb ..) rfl (regHighC_cb ..)⟩
  | true =>
    exact ⟨h12, encR_congr rfl hf.field62 (regHighC_cb ..) rfl (regHighC_cb ..)⟩

/-- `c.andi` expands to `andi` with the extended immediate. -/
theorem expandsTo_andi (rd : BitVec 3) (imm : BitVec 6) :
    ExpandsTo (high ++ (Rvc.Insn.andi rd imm).encode) (.andi rd imm) := by
  have hf := fields_cb high 0b100#3 (imm.extractLsb' 5 1 ++ 0b10#2) rd (imm.extractLsb' 0 5) 0b01#2
  rw [Rvc.Insn.encode, ExpandsTo, compressedDecoder_c1 hf.quadrant, decodeC1, hf.funct3C]
  change (decodeC1Arith _).illegalInstr = false ∧ (decodeC1Arith _).instr = _
  rw [decodeC1Arith, extract_11_10, Bits.extract_last]
  refine ⟨rfl, encI_congr (immC1_eq ⟨hf.quadrant, hf.funct3C, ?_, hf.regD, hf.field62⟩)
    (regHighC_cb ..) (regHighC_cb ..)⟩
  exact hf.bit12.trans ((Bits.extract_skip _ 0b10#2 0 _).trans (Bits.extract_all _))

/-- `instr_i[6:5]` of the CB format. -/
theorem extract_6_5 (f3 up rs1 : BitVec 3) (x : BitVec 2) (rs2 : BitVec 3) (q : BitVec 2) :
    (high ++ Rvc.cbType f3 up rs1 (x ++ rs2) q).extractLsb 6 5 = x := by
  refine BitVec.eq_of_getLsbD_eq fun i hi => ?_
  simp only [Rvc.cbType, BitVec.getLsbD_append, BitVec.getLsbD_extractLsb]
  interval_cases i <;> rfl

/-- The four operations on two registers expand to the ones of RV32I. -/
theorem expandsTo_op (o : Rvc.RegOp) (rd rs2 : BitVec 3) :
    ExpandsTo (high ++ (Rvc.Insn.op o rd rs2).encode) (.op o rd rs2) := by
  have hf := fields_cb high 0b100#3 0b011#3 rd (o.bits ++ rs2) 0b01#2
  rw [Rvc.Insn.encode, ExpandsTo, compressedDecoder_c1 hf.quadrant, decodeC1, hf.funct3C]
  change (decodeC1Arith _).illegalInstr = false ∧ (decodeC1Arith _).instr = _
  rw [decodeC1Arith, extract_11_10]
  change (decodeC1Reg _).illegalInstr = false ∧ (decodeC1Reg _).instr = _
  rw [decodeC1Reg, bit_12, hf.bit12, extract_6_5]
  cases o with
  | sub => exact ⟨rfl, encR_congr rfl (regLowC_cb ..) (regHighC_cb ..) rfl (regHighC_cb ..)⟩
  | xor => exact ⟨rfl, encR_congr rfl (regLowC_cb ..) (regHighC_cb ..) rfl (regHighC_cb ..)⟩
  | or => exact ⟨rfl, encR_congr rfl (regLowC_cb ..) (regHighC_cb ..) rfl (regHighC_cb ..)⟩
  | and => exact ⟨rfl, encR_congr rfl (regLowC_cb ..) (regHighC_cb ..) rfl (regHighC_cb ..)⟩

/-- `c.j` expands to `jal` with the link thrown away. -/
theorem expandsTo_j (off : BitVec 11) :
    ExpandsTo (high ++ (Rvc.Insn.j off).encode) (.j off) := by
  have hl := linkC1_eq (fields_jump high 0b101#3 (Rvc.jumpField off) 0b01#2).funct3C
  rw [Rvc.Insn.encode, ExpandsTo, compressedDecoder_c1 (fields_jump ..).quadrant, decodeC1,
    (fields_jump ..).funct3C]
  refine ⟨rfl, ?_⟩
  change encU (immCJ _) (linkC1 _) .jal = _
  rw [immCJ_eq, hl]
  rfl

/-- `c.beqz` and `c.bnez` expand to branches that compare with x0. -/
theorem expandsTo_branch (ne : Bool) (rs1 : BitVec 3) (off : BitVec 8) :
    ExpandsTo (high ++ (Rvc.Insn.branch ne rs1 off).encode) (.branch ne rs1 off) := by
  have hf := fields_cb high (0b11#2 ++ BitVec.ofBool ne)
    (off.extractLsb' 7 1 ++ off.extractLsb' 2 2) rs1
    (off.extractLsb' 5 2 ++ off.extractLsb' 0 2 ++ off.extractLsb' 4 1) 0b01#2
  rw [Rvc.Insn.encode, ExpandsTo, compressedDecoder_c1 hf.quadrant, decodeC1, hf.funct3C,
    encode_base]
  cases ne
  all_goals
    refine ⟨rfl, encR_congr ?_ rfl (regHighC_cb ..) ?_ ?_⟩
    all_goals
      refine BitVec.eq_of_getLsbD_eq fun i hi => ?_
      simp only [bit, getLsbD_sign12, offHigh, offLow, Rvc.cbType, BitVec.getLsbD_append,
        BitVec.getLsbD_extractLsb', BitVec.getLsbD_extractLsb, BitVec.getLsbD_ofBool,
        BitVec.getLsbD_signExtend, BitVec.msb_eq_getLsbD_last]
      interval_cases i <;> rfl

/-! ### Quadrant C2 -/

/-- `c.slli` expands to `slli` with one register as source and destination. -/
theorem expandsTo_slli (rd shamt : BitVec 5) :
    ExpandsTo (high ++ (Rvc.Insn.slli rd shamt).encode) (.slli rd shamt) := by
  rw [Rvc.Insn.encode, ExpandsTo, compressedDecoder_c2 (fields_ci ..).quadrant, decodeC2,
    (fields_ci ..).funct3C]
  exact ⟨(fields_ci ..).getLsbD_12,
    encR_congr rfl (fields_ci ..).field62 (fields_ci ..).regD rfl (fields_ci ..).regD⟩

/-- `c.lwsp` expands to `lw` with the address in x2. -/
theorem expandsTo_lwsp (rd : BitVec 5) (imm : BitVec 6) (h : rd ≠ 0#5) :
    ExpandsTo (high ++ (Rvc.Insn.lwsp rd imm h).encode) (.lwsp rd imm h) := by
  rw [Rvc.Insn.encode, ExpandsTo, compressedDecoder_c2 (fields_ci ..).quadrant, decodeC2,
    (fields_ci ..).funct3C]
  refine ⟨?_, encI_congr ?_ rfl (fields_ci ..).regD⟩
  · simp [(fields_ci ..).regD, h]
  · refine BitVec.eq_of_getLsbD_eq fun i hi => ?_
    simp only [bit, Rvc.ciType, BitVec.getLsbD_append, BitVec.getLsbD_extractLsb',
      BitVec.getLsbD_extractLsb, BitVec.getLsbD_ofBool]
    interval_cases i <;> rfl

/-- The decoder at a halfword of quadrant C2 with `instr_i[15:13] = 100`. -/
theorem expandsTo_c2Arith {w : BitVec 32} {b12 : BitVec 1} {rd rs2 : BitVec 5} {c : Rvc.Insn}
    (hf : HasFields w 0b100#3 b12 rd rs2 0b10#2)
    (h : (decodeC2Arith w).illegalInstr = false ∧ (decodeC2Arith w).instr = baseWord c.expand) :
    ExpandsTo w c := by
  rw [ExpandsTo, compressedDecoder_c2 hf.quadrant, decodeC2, hf.funct3C, encode_base]
  exact h

/-- `c.jr` expands to `jalr` with the link thrown away. -/
theorem expandsTo_jr (rs1 : BitVec 5) (h : rs1 ≠ 0#5) :
    ExpandsTo (high ++ (Rvc.Insn.jr rs1 h).encode) (.jr rs1 h) := by
  have hf := fields_ci high 0b100#3 0#1 rs1 0#5 0b10#2
  have h12 : BitVec.getLsbD _ 12 = false := hf.getLsbD_12
  refine expandsTo_c2Arith hf ?_
  rw [Rvc.Insn.encode, decodeC2Arith, if_pos h12, if_neg (not_not.mpr hf.field62)]
  refine ⟨?_, encI_congr rfl hf.regD rfl⟩
  simp [hf.regD, h]

/-- `c.mv` expands to `add` with x0. -/
theorem expandsTo_mv (rd rs2 : BitVec 5) (h : rs2 ≠ 0#5) :
    ExpandsTo (high ++ (Rvc.Insn.mv rd rs2 h).encode) (.mv rd rs2 h) := by
  have hf := fields_ci high 0b100#3 0#1 rd rs2 0b10#2
  have h12 : BitVec.getLsbD _ 12 = false := hf.getLsbD_12
  refine expandsTo_c2Arith hf ?_
  rw [Rvc.Insn.encode, decodeC2Arith, if_pos h12, if_pos (hf.field62.symm ▸ h)]
  exact ⟨rfl, encR_congr rfl hf.field62 rfl rfl hf.regD⟩

/-- `c.ebreak` expands to `ebreak`. -/
theorem expandsTo_ebreak : ExpandsTo (high ++ Rvc.Insn.ebreak.encode) .ebreak := by
  have hf := fields_ci high 0b100#3 1#1 0#5 0#5 0b10#2
  have h12 : ¬ BitVec.getLsbD _ 12 = false := ne_of_eq_of_ne hf.getLsbD_12 (by decide)
  refine expandsTo_c2Arith hf ?_
  rw [Rvc.Insn.encode, decodeC2Arith, if_neg h12,
    if_neg (not_not.mpr hf.field62), if_pos hf.regD]
  exact ⟨rfl, rfl⟩

/-- `c.jalr` expands to `jalr` with the link in x1. -/
theorem expandsTo_jalr (rs1 : BitVec 5) (h : rs1 ≠ 0#5) :
    ExpandsTo (high ++ (Rvc.Insn.jalr rs1 h).encode) (.jalr rs1 h) := by
  have hf := fields_ci high 0b100#3 1#1 rs1 0#5 0b10#2
  have h12 : ¬ BitVec.getLsbD _ 12 = false := ne_of_eq_of_ne hf.getLsbD_12 (by decide)
  refine expandsTo_c2Arith hf ?_
  rw [Rvc.Insn.encode, decodeC2Arith, if_neg h12,
    if_neg (not_not.mpr hf.field62), if_neg (hf.regD.symm ▸ h)]
  exact ⟨rfl, encI_congr rfl hf.regD rfl⟩

/-- `c.add` expands to `add` with one register as source and destination. -/
theorem expandsTo_add (rd rs2 : BitVec 5) (h : rs2 ≠ 0#5) :
    ExpandsTo (high ++ (Rvc.Insn.add rd rs2 h).encode) (.add rd rs2 h) := by
  have hf := fields_ci high 0b100#3 1#1 rd rs2 0b10#2
  have h12 : ¬ BitVec.getLsbD _ 12 = false := ne_of_eq_of_ne hf.getLsbD_12 (by decide)
  refine expandsTo_c2Arith hf ?_
  rw [Rvc.Insn.encode, decodeC2Arith, if_neg h12,
    if_pos (hf.field62.symm ▸ h)]
  exact ⟨rfl, encR_congr rfl hf.field62 hf.regD rfl hf.regD⟩

/-- `c.swsp` expands to `sw` with the address in x2. -/
theorem expandsTo_swsp (rs2 : BitVec 5) (imm : BitVec 6) :
    ExpandsTo (high ++ (Rvc.Insn.swsp rs2 imm).encode) (.swsp rs2 imm) := by
  -- the halfword has the CI format too
  have he : (Rvc.Insn.swsp rs2 imm).encode
      = Rvc.ciType 0b110#3 (imm.extractLsb' 3 1) (imm.extractLsb' 0 3 ++ imm.extractLsb' 4 2) rs2
          0b10#2 := by
    refine BitVec.eq_of_getLsbD_eq fun i hi => ?_
    simp only [Rvc.Insn.encode, Rvc.ciType, BitVec.getLsbD_append, BitVec.getLsbD_extractLsb']
    interval_cases i <;> rfl
  rw [he, ExpandsTo, compressedDecoder_c2 (fields_ci ..).quadrant, decodeC2,
    (fields_ci ..).funct3C, encode_base]
  refine ⟨rfl, encR_congr ?_ (fields_ci ..).field62 rfl rfl ?_⟩
  all_goals
    refine BitVec.eq_of_getLsbD_eq fun i hi => ?_
    simp only [bit, immHigh, immLow, Rvc.ciType, BitVec.getLsbD_append, BitVec.getLsbD_extractLsb',
      BitVec.getLsbD_extractLsb, BitVec.getLsbD_ofBool]
    interval_cases i <;> rfl

/-- The decoder accepts every compressed instruction and expands it. -/
theorem expandsTo (c : Rvc.Insn) : ExpandsTo (high ++ c.encode) c := by
  cases c with
  | addi4spn rd imm h => exact expandsTo_addi4spn high rd imm h
  | lw rd rs1 imm => exact expandsTo_lw high rd rs1 imm
  | sw rs2 rs1 imm => exact expandsTo_sw high rs2 rs1 imm
  | addi rd imm => exact expandsTo_addi high rd imm
  | jal off => exact expandsTo_jal high off
  | li rd imm => exact expandsTo_li high rd imm
  | addi16sp imm h => exact expandsTo_addi16sp high imm h
  | lui rd imm hrd h => exact expandsTo_lui high rd imm hrd h
  | shiftRight arith rd shamt => exact expandsTo_shiftRight high arith rd shamt
  | andi rd imm => exact expandsTo_andi high rd imm
  | op o rd rs2 => exact expandsTo_op high o rd rs2
  | j off => exact expandsTo_j high off
  | branch ne rs1 off => exact expandsTo_branch high ne rs1 off
  | slli rd shamt => exact expandsTo_slli high rd shamt
  | lwsp rd imm h => exact expandsTo_lwsp high rd imm h
  | jr rs1 h => exact expandsTo_jr high rs1 h
  | mv rd rs2 h => exact expandsTo_mv high rd rs2 h
  | ebreak => exact expandsTo_ebreak high
  | jalr rs1 h => exact expandsTo_jalr high rs1 h
  | add rd rs2 h => exact expandsTo_add high rd rs2 h
  | swsp rs2 imm => exact expandsTo_swsp high rs2 imm

end

/-! ### The encoding of an accepted word -/

/-- The low half of a word by the fields of the CB format. -/
theorem low_eq_cb (w : BitVec 32) :
    w.extractLsb' 0 16
      = Rvc.cbType (funct3C w) (bit w 12 ++ w.extractLsb 11 10) (w.extractLsb' 7 3)
          (w.extractLsb 6 5 ++ w.extractLsb' 2 3) (quadrant w) := by
  refine BitVec.eq_of_getLsbD_eq fun i hi => ?_
  simp only [Rvc.cbType, funct3C, quadrant, bit, BitVec.getLsbD_append,
    BitVec.getLsbD_extractLsb', BitVec.getLsbD_extractLsb, BitVec.getLsbD_ofBool]
  interval_cases i <;> rfl

/-- The values of a field of three bits. -/
theorem bitVec3_cases : ∀ f : BitVec 3, f = 0b000#3 ∨ f = 0b001#3 ∨ f = 0b010#3 ∨ f = 0b011#3
    ∨ f = 0b100#3 ∨ f = 0b101#3 ∨ f = 0b110#3 ∨ f = 0b111#3 := by
  decide

/-- The values of a field of two bits. -/
theorem bitVec2_cases : ∀ f : BitVec 2, f = 0b00#2 ∨ f = 0b01#2 ∨ f = 0b10#2 ∨ f = 0b11#2 := by
  decide

/-- The low half of the word is a compressed instruction. -/
def Encodes (w : BitVec 32) : Prop := ∃ c : Rvc.Insn, c.encode = w.extractLsb' 0 16

section

variable {w : BitVec 32}

/-- An accepted word of quadrant C0. -/
theorem encodes_c0 (hq : quadrant w = 0b00#2) (h : (decodeC0 w).illegalInstr = false) :
    Encodes w := by
  rw [decodeC0] at h
  obtain h3 | h3 | h3 | h3 | h3 | h3 | h3 | h3 := bitVec3_cases (funct3C w)
  all_goals rw [h3] at h
  · -- c.addi4spn
    refine ⟨.addi4spn (w.extractLsb' 2 3) _ (mt (addi4spn_gathered (w.extractLsb 12 5))
      (beq_eq_false_iff_ne.mp h)), ?_⟩
    rw [low_eq, hq, h3]
    refine BitVec.eq_of_getLsbD_eq fun i hi => ?_
    simp only [Rvc.Insn.encode, Rvc.ciType, regD, field62, BitVec.getLsbD_append,
      BitVec.getLsbD_extractLsb', BitVec.getLsbD_extractLsb]
    interval_cases i <;> rfl
  · cases h
  · -- c.lw
    refine ⟨.lw (w.extractLsb' 2 3) (w.extractLsb' 7 3)
      (bit w 5 ++ w.extractLsb 12 10 ++ bit w 6), ?_⟩
    rw [low_eq, hq, h3]
    refine BitVec.eq_of_getLsbD_eq fun i hi => ?_
    simp only [Rvc.Insn.encode, Rvc.cbType, Rvc.ciType, bit, regD, field62, BitVec.getLsbD_append,
      BitVec.getLsbD_extractLsb', BitVec.getLsbD_extractLsb, BitVec.getLsbD_ofBool]
    interval_cases i <;> rfl
  · cases h
  · cases h
  · cases h
  · -- c.sw
    refine ⟨.sw (w.extractLsb' 2 3) (w.extractLsb' 7 3)
      (bit w 5 ++ w.extractLsb 12 10 ++ bit w 6), ?_⟩
    rw [low_eq, hq, h3]
    refine BitVec.eq_of_getLsbD_eq fun i hi => ?_
    simp only [Rvc.Insn.encode, Rvc.cbType, Rvc.ciType, bit, regD, field62, BitVec.getLsbD_append,
      BitVec.getLsbD_extractLsb', BitVec.getLsbD_extractLsb, BitVec.getLsbD_ofBool]
    interval_cases i <;> rfl
  · cases h

/-- The immediate of six bits of quadrant C1. -/
def imm6 (w : BitVec 32) : BitVec 6 := w.extractLsb' 12 1 ++ field62 w

/-- The fields of an immediate that is put together from them. -/
theorem imm6_high (w : BitVec 32) : (imm6 w).extractLsb' 5 1 = w.extractLsb' 12 1 :=
  (Bits.extract_skip _ (field62 w) 0 1).trans (Bits.extract_all _)

/-- The lower five bits of the six-bit immediate are a field of the word of their own. -/
theorem imm6_low (w : BitVec 32) : (imm6 w).extractLsb' 0 5 = field62 w :=
  Bits.extract_last _ _

/-- The offset of a jump. -/
def jumpOff (w : BitVec 32) : BitVec 11 :=
  bit w 12 ++ bit w 8 ++ w.extractLsb 10 9 ++ bit w 6 ++ bit w 7 ++ bit w 2 ++ bit w 11
    ++ w.extractLsb 5 3

/-- The offset of a jump and the shuffled bits of its field are each the permutation of the other.
-/
theorem jumpField_jumpOff (w : BitVec 32) : Rvc.jumpField (jumpOff w) = w.extractLsb' 2 11 := by
  refine BitVec.eq_of_getLsbD_eq fun i hi => ?_
  simp only [Rvc.jumpField, jumpOff, bit, BitVec.getLsbD_append, BitVec.getLsbD_extractLsb',
    BitVec.getLsbD_extractLsb, BitVec.getLsbD_ofBool]
  interval_cases i <;> rfl

/-- The low half of a word by the fields of a jump. -/
theorem low_eq_jump (w : BitVec 32) :
    w.extractLsb' 0 16 = funct3C w ++ w.extractLsb' 2 11 ++ quadrant w := by
  refine BitVec.eq_of_getLsbD_eq fun i hi => ?_
  simp only [funct3C, quadrant, BitVec.getLsbD_append, BitVec.getLsbD_extractLsb',
    BitVec.getLsbD_extractLsb]
  interval_cases i <;> rfl

/-- The register field of the CI format ends in fields of the CB format. -/
theorem field62_eq (w : BitVec 32) : field62 w = w.extractLsb 6 5 ++ w.extractLsb' 2 3 := by
  refine BitVec.eq_of_getLsbD_eq fun i hi => ?_
  simp only [field62, BitVec.getLsbD_append, BitVec.getLsbD_extractLsb',
    BitVec.getLsbD_extractLsb]
  interval_cases i <;> rfl

/-- The two fields by which the operations on two registers are decoded. -/
theorem append_fields {a : BitVec 1} {b : BitVec 2} {v : BitVec 3} (h : a ++ b = v) :
    a = v.extractLsb' 2 1 ∧ b = v.extractLsb' 0 2 := by
  subst h
  exact ⟨((Bits.extract_skip a b 0 1).trans (Bits.extract_all a)).symm,
    (Bits.extract_last a b).symm⟩

/-- An accepted word of quadrant C1 with an operation on two registers. -/
theorem encodes_c1Reg (hq : quadrant w = 0b01#2) (h3 : funct3C w = 0b100#3)
    (h10 : w.extractLsb 11 10 = 0b11#2) (o : Rvc.RegOp)
    (h : bit w 12 ++ w.extractLsb 6 5 = 0#1 ++ o.bits) : Encodes w := by
  obtain ⟨h12, h65⟩ := append_fields h
  refine ⟨.op o (w.extractLsb' 7 3) (w.extractLsb' 2 3), ?_⟩
  rw [low_eq_cb, hq, h3, h10, h12, h65]
  cases o <;> rfl

/-- An accepted word of quadrant C1 with `instr_i[15:13] = 100`. -/
theorem encodes_c1Arith (hq : quadrant w = 0b01#2) (h3 : funct3C w = 0b100#3)
    (h : (decodeC1Arith w).illegalInstr = false) : Encodes w := by
  rw [decodeC1Arith] at h
  obtain h10 | h10 | h10 | h10 := bitVec2_cases (w.extractLsb 11 10)
  all_goals rw [h10] at h
  · -- c.srli
    have h12 : w.getLsbD 12 = false := h
    refine ⟨.shiftRight false (w.extractLsb' 7 3) (w.extractLsb 6 5 ++ w.extractLsb' 2 3), ?_⟩
    rw [low_eq_cb, hq, h3, h10, bit, h12]
    rfl
  · -- c.srai
    have h12 : w.getLsbD 12 = false := h
    refine ⟨.shiftRight true (w.extractLsb' 7 3) (w.extractLsb 6 5 ++ w.extractLsb' 2 3), ?_⟩
    rw [low_eq_cb, hq, h3, h10, bit, h12]
    rfl
  · -- c.andi
    refine ⟨.andi (w.extractLsb' 7 3) (imm6 w), ?_⟩
    rw [Rvc.Insn.encode, imm6_high, imm6_low, low_eq_cb, hq, h3, h10, field62_eq, ← bit_12]
  · -- the operations on two registers
    change (decodeC1Reg w).illegalInstr = false at h
    rw [decodeC1Reg] at h
    obtain h5 | h5 | h5 | h5 | h5 | h5 | h5 | h5 := bitVec3_cases (bit w 12 ++ w.extractLsb 6 5)
    all_goals rw [h5] at h
    · exact encodes_c1Reg hq h3 h10 .sub h5
    · exact encodes_c1Reg hq h3 h10 .xor h5
    · exact encodes_c1Reg hq h3 h10 .or h5
    · exact encodes_c1Reg hq h3 h10 .and h5
    · cases h
    · cases h
    · cases h
    · cases h

/-- An accepted word of quadrant C1 with `instr_i[15:13] = 011`. -/
theorem encodes_c1Lui (hq : quadrant w = 0b01#2) (h3 : funct3C w = 0b011#3)
    (h : (decodeC1Lui w).illegalInstr = false) : Encodes w := by
  rw [decodeC1Lui] at h
  by_cases hd : regD w = 2#5
  · rw [if_pos hd] at h
    have hz : ∀ v : BitVec 6, v.extractLsb' 5 1 ++ v.extractLsb' 1 2 ++ v.extractLsb' 3 1
        ++ v.extractLsb' 0 1 ++ v.extractLsb' 4 1 = 0#6 → v = 0#6 := by decide
    refine ⟨.addi16sp _ (mt (hz (bit w 12 ++ field62 w)) (beq_eq_false_iff_ne.mp h)), ?_⟩
    rw [low_eq, hq, h3, hd]
    refine BitVec.eq_of_getLsbD_eq fun i hi => ?_
    simp only [Rvc.Insn.encode, Rvc.ciType, bit, field62, BitVec.getLsbD_append,
      BitVec.getLsbD_extractLsb', BitVec.getLsbD_extractLsb, BitVec.getLsbD_ofBool]
    interval_cases i <;> rfl
  · rw [if_neg hd] at h
    refine ⟨.lui (regD w) (imm6 w) hd ?_, ?_⟩
    · rw [imm6, ← bit_12]
      exact beq_eq_false_iff_ne.mp h
    · rw [Rvc.Insn.encode, imm6_high, imm6_low, low_eq, hq, h3]

/-- A word of quadrant C1 with a branch. -/
theorem encodes_branch (hq : quadrant w = 0b01#2) (ne : Bool)
    (h3 : funct3C w = 0b11#2 ++ BitVec.ofBool ne) : Encodes w := by
  refine ⟨.branch ne (w.extractLsb' 7 3)
    (bit w 12 ++ w.extractLsb 6 5 ++ bit w 2 ++ w.extractLsb 11 10 ++ w.extractLsb 4 3), ?_⟩
  rw [low_eq_cb, hq, h3]
  refine BitVec.eq_of_getLsbD_eq fun i hi => ?_
  simp only [Rvc.Insn.encode, Rvc.cbType, bit, BitVec.getLsbD_append, BitVec.getLsbD_extractLsb',
    BitVec.getLsbD_extractLsb, BitVec.getLsbD_ofBool]
  interval_cases i <;> rfl

/-- An accepted word of quadrant C1. -/
theorem encodes_c1 (hq : quadrant w = 0b01#2) (h : (decodeC1 w).illegalInstr = false) :
    Encodes w := by
  rw [decodeC1] at h
  obtain h3 | h3 | h3 | h3 | h3 | h3 | h3 | h3 := bitVec3_cases (funct3C w)
  all_goals rw [h3] at h
  · refine ⟨.addi (regD w) (imm6 w), ?_⟩
    rw [Rvc.Insn.encode, imm6_high, imm6_low, low_eq, hq, h3]
  · refine ⟨.jal (jumpOff w), ?_⟩
    rw [Rvc.Insn.encode, jumpField_jumpOff, low_eq_jump, hq, h3]
  · refine ⟨.li (regD w) (imm6 w), ?_⟩
    rw [Rvc.Insn.encode, imm6_high, imm6_low, low_eq, hq, h3]
  · exact encodes_c1Lui hq h3 h
  · exact encodes_c1Arith hq h3 h
  · refine ⟨.j (jumpOff w), ?_⟩
    rw [Rvc.Insn.encode, jumpField_jumpOff, low_eq_jump, hq, h3]
  · exact encodes_branch hq false h3
  · exact encodes_branch hq true h3

/-- An accepted word of quadrant C2 with `instr_i[15:13] = 100`. -/
theorem encodes_c2Arith (hq : quadrant w = 0b10#2) (h3 : funct3C w = 0b100#3)
    (h : (decodeC2Arith w).illegalInstr = false) : Encodes w := by
  rw [decodeC2Arith] at h
  by_cases h12 : w.getLsbD 12 = false
  · rw [if_pos h12] at h
    have hb : w.extractLsb' 12 1 = 0#1 := by
      rw [← bit_12, bit, h12]
      rfl
    by_cases h62 : field62 w = 0#5
    · rw [if_neg (not_not.mpr h62)] at h
      refine ⟨.jr (regD w) (beq_eq_false_iff_ne.mp h), ?_⟩
      rw [low_eq, hq, h3, hb, h62]
      rfl
    · refine ⟨.mv (regD w) (field62 w) h62, ?_⟩
      rw [low_eq, hq, h3, hb]
      rfl
  · have hb : w.extractLsb' 12 1 = 1#1 := by
      rw [← bit_12, bit, Bool.eq_true_of_not_eq_false h12]
      rfl
    by_cases h62 : field62 w = 0#5
    · by_cases hd : regD w = 0#5
      · refine ⟨.ebreak, ?_⟩
        rw [low_eq, hq, h3, hb, h62, hd]
        rfl
      · refine ⟨.jalr (regD w) hd, ?_⟩
        rw [low_eq, hq, h3, hb, h62]
        rfl
    · refine ⟨.add (regD w) (field62 w) h62, ?_⟩
      rw [low_eq, hq, h3, hb]
      rfl

/-- An accepted word of quadrant C2. -/
theorem encodes_c2 (hq : quadrant w = 0b10#2) (h : (decodeC2 w).illegalInstr = false) :
    Encodes w := by
  rw [decodeC2] at h
  obtain h3 | h3 | h3 | h3 | h3 | h3 | h3 | h3 := bitVec3_cases (funct3C w)
  all_goals rw [h3] at h
  · -- c.slli
    have h12 : w.getLsbD 12 = false := h
    refine ⟨.slli (regD w) (field62 w), ?_⟩
    rw [low_eq, hq, h3, ← bit_12, bit, h12]
    rfl
  · cases h
  · -- c.lwsp
    refine ⟨.lwsp (regD w) (w.extractLsb 3 2 ++ bit w 12 ++ w.extractLsb 6 4)
      (beq_eq_false_iff_ne.mp h), ?_⟩
    rw [low_eq, hq, h3]
    refine BitVec.eq_of_getLsbD_eq fun i hi => ?_
    simp only [Rvc.Insn.encode, Rvc.ciType, bit, regD, field62, BitVec.getLsbD_append,
      BitVec.getLsbD_extractLsb', BitVec.getLsbD_extractLsb, BitVec.getLsbD_ofBool]
    interval_cases i <;> rfl
  · cases h
  · exact encodes_c2Arith hq h3 h
  · cases h
  · -- c.swsp
    refine ⟨.swsp (field62 w) (w.extractLsb 8 7 ++ bit w 12 ++ w.extractLsb 11 9), ?_⟩
    rw [low_eq, hq, h3]
    refine BitVec.eq_of_getLsbD_eq fun i hi => ?_
    simp only [Rvc.Insn.encode, Rvc.ciType, bit, regD, field62, BitVec.getLsbD_append,
      BitVec.getLsbD_extractLsb', BitVec.getLsbD_extractLsb, BitVec.getLsbD_ofBool]
    interval_cases i <;> rfl
  · cases h

/-- An accepted word that is compressed. -/
theorem encodes_of_accepted (hq : quadrant w ≠ 0b11#2)
    (h : (compressedDecoder w).illegalInstr = false) : Encodes w := by
  obtain h0 | h1 | h2 | h3 := quadrant_cases w
  · exact encodes_c0 h0 (compressedDecoder_c0 h0 ▸ h)
  · exact encodes_c1 h1 (compressedDecoder_c1 h1 ▸ h)
  · exact encodes_c2 h2 (compressedDecoder_c2 h2 ▸ h)
  · exact absurd h3 hq

/-- A word by its two halves. -/
theorem halves_eq (w : BitVec 32) : w.extractLsb' 16 16 ++ w.extractLsb' 0 16 = w := by
  refine BitVec.eq_of_toNat_eq ?_
  simp only [Bits.toNat_append_eq, BitVec.extractLsb'_toNat, Nat.shiftRight_eq_div_pow]
  have := w.isLt
  omega

/-- The decoder at a word whose low half is a compressed instruction. -/
theorem expandsTo_of_encode {c : Rvc.Insn} (h : c.encode = w.extractLsb' 0 16) :
    ExpandsTo w c := by
  have := expandsTo (w.extractLsb' 16 16) c
  rwa [h, halves_eq] at this

/-- What is accepted are the compressed instructions. -/
theorem accepted_iff_encodes (hq : quadrant w ≠ 0b11#2) :
    (compressedDecoder w).illegalInstr = false ↔ Encodes w :=
  ⟨encodes_of_accepted hq, fun ⟨_, h⟩ => (expandsTo_of_encode h).1⟩

end

/-! ### The decoder against the extension -/

/-- The decoder treats the words alike: one verdict, and one expansion if it accepts them. -/
def SameExpansion (v w : BitVec 32) : Prop :=
  (compressedDecoder v).illegalInstr = (compressedDecoder w).illegalInstr
    ∧ ((compressedDecoder w).illegalInstr = false →
      (compressedDecoder v).instr = (compressedDecoder w).instr)

/-- Words with equal low halves are treated alike. -/
theorem sameExpansion_of_low {v w : BitVec 32} (hq : quadrant w ≠ 0b11#2)
    (h : v.extractLsb' 0 16 = w.extractLsb' 0 16) : SameExpansion v w := by
  have hqv : quadrant v = quadrant w :=
    (extract_low v 0 2 (by omega)).trans ((congrArg _ h).trans (extract_low w 0 2 (by omega)).symm)
  have hiff : (compressedDecoder v).illegalInstr = false
      ↔ (compressedDecoder w).illegalInstr = false := by
    rw [accepted_iff_encodes (hqv.symm ▸ hq), accepted_iff_encodes hq, Encodes, h, Encodes]
  refine ⟨Bool.eq_iff_iff.mpr (by simpa using not_congr hiff), fun hw => ?_⟩
  obtain ⟨c, hc⟩ := encodes_of_accepted hq hw
  exact (expandsTo_of_encode (hc.trans h.symm)).2.trans (expandsTo_of_encode hc).2.symm

/-- The compressed decoder accepts a word that is not a full one iff its low half is an
instruction of the C extension, and then expands it to the instruction that this stands for.
The upper half does not matter. -/
theorem compressedDecoder_expands (w : BitVec 32) (hq : quadrant w ≠ 0b11#2) :
    isCompressed w = true
    ∧ ((compressedDecoder w).illegalInstr = false
      ↔ ∃ c : Rvc.Insn, c.encode = w.extractLsb' 0 16)
    ∧ (∀ c : Rvc.Insn, c.encode = w.extractLsb' 0 16 →
      (compressedDecoder w).instr = c.expand.encode)
    ∧ ∀ v : BitVec 32, v.extractLsb' 0 16 = w.extractLsb' 0 16 → SameExpansion v w :=
  ⟨bne_iff_ne.mpr hq, accepted_iff_encodes hq, fun _ hc => (expandsTo_of_encode hc).2,
    fun _ hv => sameExpansion_of_low hq hv⟩

/-- `c.addi x8, -1` below other bits: it stands for `addi x8, x8, -1`. -/
theorem compressedDecoder_expands_addi :
    (compressedDecoder 0xabcd147d#32).illegalInstr = false
    ∧ (compressedDecoder 0xabcd147d#32).instr
      = (Rvc.Insn.addi 8#5 0b111111#6).expand.encode :=
  have h := compressedDecoder_expands 0xabcd147d#32 (by decide)
  ⟨h.2.1.mpr ⟨.addi 8#5 0b111111#6, by decide⟩, h.2.2.1 (.addi 8#5 0b111111#6) (by decide)⟩

/-- A word that is rejected is forwarded with its upper half. -/
theorem rejected_word_forwarded :
    ¬ ∀ v w : BitVec 32, quadrant w ≠ 0b11#2 → v.extractLsb' 0 16 = w.extractLsb' 0 16 →
      (compressedDecoder v).instr = (compressedDecoder w).instr := by
  intro h
  exact absurd (h 0x00012000#32 0x00002000#32 (by decide) (by decide)) (by decide)

end CocoIbex
