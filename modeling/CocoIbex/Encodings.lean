import CocoIbex.FetchedInsn

/-!
# Unique Encodings

No two instructions of RV32IM have the same word, so the machine that executes the instructions
of a memory has at most one next state.

The instruction set is given as syntax with an encoding, and the machine of RV32IMC takes a step
for any instruction whose encoding is at its address. That this is a function of the state is
not part of its definition and is proved here. The fields of an encoding are read back one after
the other, from the opcode on; the offsets of branches and jumps, whose bits are scattered over
the word, are put together again by `offOfFields`.

For a compressed instruction the compressed decoder does the work: what it makes of the half
word is the encoding of the expansion, and so determines it.

## Main results

* `Step.unique` — from a state of the machine there is at most one next state.
-/

namespace CocoIbex

open Rv32

/-! ### Fields -/

/-- The immediate of a store from its fields. -/
theorem immHigh_append_immLow (imm : BitVec 12) : immHigh imm ++ immLow imm = imm := by
  refine BitVec.eq_of_getLsbD_eq fun i hi => ?_
  simp only [immHigh, immLow, BitVec.getLsbD_append, BitVec.getLsbD_extractLsb']
  interval_cases i <;> rfl

/-- The offset in the fields of a branch. -/
def offOfFields (high : BitVec 7) (low : BitVec 5) : BitVec 12 :=
  high.extractLsb' 6 1 ++ low.extractLsb' 0 1 ++ high.extractLsb' 0 6 ++ low.extractLsb' 1 4

/-- The offset of a branch or store from its two fields. -/
@[simp] theorem offOfFields_fields (off : BitVec 12) :
    offOfFields (offHigh off) (offLow off) = off := by
  refine BitVec.eq_of_getLsbD_eq fun i hi => ?_
  simp only [offOfFields, offHigh, offLow, BitVec.getLsbD_append, BitVec.getLsbD_extractLsb']
  interval_cases i <;> rfl

/-- The offset in the field of a jump. -/
def offOfField (imm : BitVec 20) : BitVec 20 :=
  imm.extractLsb' 19 1 ++ imm.extractLsb' 0 8 ++ imm.extractLsb' 8 1 ++ imm.extractLsb' 9 10

/-- The offset of a jump from its shuffled field. -/
@[simp] theorem offOfField_offJ (off : BitVec 20) : offOfField (offJ off) = off := by
  refine BitVec.eq_of_getLsbD_eq fun i hi => ?_
  simp only [offOfField, offJ, BitVec.getLsbD_append, BitVec.getLsbD_extractLsb']
  interval_cases i <;> rfl

/-! ### Words -/

/-- A word in the U format has one immediate and one destination. -/
theorem encU_inj {imm imm' : BitVec 20} {rd rd' : BitVec 5} {o o' : Opcode}
    (h : encU imm rd o = encU imm' rd' o') : imm = imm' ∧ rd = rd' := by
  have hi : ∀ (imm : BitVec 20) (rd : BitVec 5) (o : Opcode),
      (encU imm rd o).extractLsb 31 12 = imm := fun imm rd o =>
    (Bits.extract_skip _ o.bits _ _).trans ((Bits.extract_skip _ rd 0 _).trans (Bits.extract_all _))
  refine ⟨?_, by simpa using congrArg regD h⟩
  rw [← hi imm rd o, h, hi]

/-- A word in the I format has one value in each field. -/
theorem encI_inj {imm imm' : BitVec 12} {rs1 rs1' rd rd' : BitVec 5} {f3 f3' : BitVec 3}
    {o o' : Opcode} (h : encI imm rs1 f3 rd o = encI imm' rs1' f3' rd' o') :
    imm = imm' ∧ rs1 = rs1' ∧ f3 = f3' ∧ rd = rd' :=
  ⟨by simpa using congrArg funct12 h, by simpa using congrArg regS1 h,
    by simpa using congrArg funct3 h, by simpa using congrArg regD h⟩

/-- A word in the R format has one value in each field. -/
theorem encR_inj {f7 f7' : BitVec 7} {rs2 rs2' rs1 rs1' rd rd' : BitVec 5} {f3 f3' : BitVec 3}
    {o o' : Opcode} (h : encR f7 rs2 rs1 f3 rd o = encR f7' rs2' rs1' f3' rd' o') :
    f7 = f7' ∧ rs2 = rs2' ∧ rs1 = rs1' ∧ f3 = f3' ∧ rd = rd' :=
  ⟨by simpa using congrArg funct7 h, by simpa using congrArg regS2 h,
    by simpa using congrArg regS1 h, by simpa using congrArg funct3 h,
    by simpa using congrArg regD h⟩

/-- Every instruction of RV32I has an encoding of its own. -/
theorem baseWord_injective : Function.Injective baseWord := by
  intro i i' h
  have hop : opcodeOf (.base i) = opcodeOf (.base i') := by
    have hb := congrArg opcodeBits h
    have hw : ∀ j, opcodeBits (baseWord j) = (opcodeOf (.base j)).bits := fun j =>
      opcodeBits_insnWord (.base j)
    rw [hw, hw] at hb
    simpa using congrArg Opcode.ofBits hb
  cases i with
  | lui imm rd =>
      cases i' with
      | lui imm' rd' =>
          obtain ⟨rfl, rfl⟩ := encU_inj h
          rfl
      | _ => cases hop
  | auipc imm rd =>
      cases i' with
      | auipc imm' rd' =>
          obtain ⟨rfl, rfl⟩ := encU_inj h
          rfl
      | _ => cases hop
  | jal off rd =>
      cases i' with
      | jal off' rd' =>
          obtain ⟨hoff, rfl⟩ := encU_inj h
          rw [← offOfField_offJ off, hoff, offOfField_offJ]
      | _ => cases hop
  | jalr imm rs1 rd =>
      cases i' with
      | jalr imm' rs1' rd' =>
          obtain ⟨rfl, rfl, -, rfl⟩ := encI_inj h
          rfl
      | _ => cases hop
  | branch cond off rs2 rs1 =>
      cases i' with
      | branch cond' off' rs2' rs1' =>
          obtain ⟨hhigh, rfl, rfl, hcond, hlow⟩ := encR_inj h
          have hc : ∀ c c' : Cond, c.funct3 = c'.funct3 → c = c' := by decide
          obtain rfl := hc _ _ hcond
          rw [← offOfFields_fields off, hhigh, hlow, offOfFields_fields]
      | _ => cases hop
  | load kind imm rs1 rd =>
      cases i' with
      | load kind' imm' rs1' rd' =>
          obtain ⟨rfl, rfl, hkind, rfl⟩ := encI_inj h
          have hk : ∀ k k' : Rv32.Load, k.funct3 = k'.funct3 → k = k' := by decide
          obtain rfl := hk _ _ hkind
          rfl
      | _ => cases hop
  | store size imm rs2 rs1 =>
      cases i' with
      | store size' imm' rs2' rs1' =>
          obtain ⟨hhigh, rfl, rfl, hsize, hlow⟩ := encR_inj h
          have hs : ∀ s s' : Size, (0#1 ++ s.bits : BitVec 3) = 0#1 ++ s'.bits → s = s' := by
            decide
          obtain rfl := hs _ _ hsize
          rw [← immHigh_append_immLow imm, hhigh, hlow, immHigh_append_immLow]
      | _ => cases hop
  | opImm o imm rs1 rd =>
      cases i' with
      | opImm o' imm' rs1' rd' =>
          obtain ⟨rfl, rfl, ho, rfl⟩ := encI_inj h
          have hi : ∀ o o' : ImmOp, o.funct3 = o'.funct3 → o = o' := by decide
          obtain rfl := hi _ _ ho
          rfl
      | shiftImm o' shamt' rs1' rd' =>
          have hi : ∀ (o : ImmOp) (o' : Shift), o.funct3 ≠ o'.funct3 := by decide
          exact absurd (by simpa [baseWord] using congrArg funct3 h) (hi o o')
      | _ => cases hop
  | shiftImm o shamt rs1 rd =>
      cases i' with
      | shiftImm o' shamt' rs1' rd' =>
          obtain ⟨h7, rfl, rfl, h3, rfl⟩ := encR_inj h
          have hi : ∀ o o' : Shift, o.funct3 = o'.funct3 → o.funct7 = o'.funct7 → o = o' := by
            decide
          obtain rfl := hi _ _ h3 h7
          rfl
      | opImm o' imm' rs1' rd' =>
          have hi : ∀ (o : ImmOp) (o' : Shift), o'.funct3 ≠ o.funct3 := by decide
          exact absurd (by simpa [baseWord] using congrArg funct3 h) (hi o' o)
      | _ => cases hop
  | op o rs2 rs1 rd =>
      cases i' with
      | op o' rs2' rs1' rd' =>
          obtain ⟨h7, rfl, rfl, h3, rfl⟩ := encR_inj h
          have hi : ∀ o o' : RegOp, o.funct3 = o'.funct3 → o.funct7 = o'.funct7 → o = o' := by
            decide
          obtain rfl := hi _ _ h3 h7
          rfl
      | _ => cases hop
  | fence fields rs1 rd =>
      cases i' with
      | fence fields' rs1' rd' =>
          obtain ⟨rfl, rfl, -, rfl⟩ := encI_inj h
          rfl
      | _ => cases hop
  | ecall =>
      cases i' with
      | ecall => rfl
      | ebreak => cases (encI_inj h).1
      | _ => cases hop
  | ebreak =>
      cases i' with
      | ebreak => rfl
      | ecall => cases (encI_inj h).1
      | _ => cases hop

/-- So has every instruction of RV32IM. -/
theorem ImInsn.encode_injective : Function.Injective ImInsn.encode := by
  intro i i' h
  have hne : ∀ (j : Base) (op : MulDiv) (rs2 rs1 rd : BitVec 5),
      baseWord j ≠ encR 0b0000001#7 rs2 rs1 op.funct3 rd .op := by
    intro j op rs2 rs1 rd hj
    have hop := congrArg opcodeBits hj
    have h7 := congrArg funct7 hj
    cases j with
    | op o =>
        have ho : ∀ o : RegOp, o.funct7 ≠ 0b0000001#7 := by decide
        exact ho o (by simpa [baseWord] using h7)
    | _ =>
        simp only [baseWord, opcodeBits_encU, opcodeBits_encI, opcodeBits_encR] at hop
        exact absurd hop (by decide)
  cases i with
  | base j =>
      have hj : j.encode = i'.encode := h
      rw [encode_base] at hj
      cases i' with
      | base j' =>
          rw [baseWord_injective (hj.trans (encode_base j'))]
      | mulDiv op rs2 rs1 rd => exact absurd hj (hne _ _ _ _ _)
  | mulDiv op rs2 rs1 rd =>
      cases i' with
      | base j' => exact absurd ((encode_base j').symm.trans h.symm) (hne _ _ _ _ _)
      | mulDiv op' rs2' rs1' rd' =>
          obtain ⟨-, rfl, rfl, hop, rfl⟩ := @encR_inj _ _ _ _ _ _ _ _ _ _ .op .op h
          have hm : ∀ o o' : MulDiv, o.funct3 = o'.funct3 → o = o' := by
            rintro (_ | _) (_ | _) h <;> first | rfl | cases h
          obtain rfl := hm _ _ hop
          rfl

/-! ### The machine -/

/-- There is one instruction at an address. -/
theorem HasInsn.unique {rom : FetchMem} {pc : BitVec 31} {i i' : ImInsn} {c c' : Bool}
    (h : HasInsn rom pc i c) (h' : HasInsn rom pc i' c') : i = i' ∧ c = c' := by
  have hw : WordAt rom pc (rom.half (pc + 1#31) ++ rom.half pc) :=
    ⟨extractLsb'_append_low _ _, fun _ => BitVec.extractLsb'_append_eq_left⟩
  obtain ⟨hlen, hinstr, -⟩ := hw.decoded h
  obtain ⟨hlen', hinstr', -⟩ := hw.decoded h'
  exact ⟨ImInsn.encode_injective (hinstr.symm.trans hinstr'), hlen.symm.trans hlen'⟩

/-- And there is one next state. -/
theorem Step.unique {rom : FetchMem} {n : ℕ} (s s₁ s₂ : Arch n) (h₁ : Step rom s s₁)
    (h₂ : Step rom s s₂) : s₁ = s₂ := by
  obtain ⟨i, c, e, hf, he, rfl⟩ := h₁
  obtain ⟨i', c', e', hf', he', rfl⟩ := h₂
  obtain ⟨rfl, rfl⟩ := HasInsn.unique hf hf'
  rw [he] at he'
  rw [Option.some.inj he']

end CocoIbex
