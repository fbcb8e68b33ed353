import CocoIbex.ReadLeak
import CocoIbex.Rvb

/-!
# The Register Check of RV32E

With RV32E there are sixteen registers, and the decoder makes an instruction illegal that names
another one. What is checked is taken from the operand muxes of the ALU and from the write
enable of the cycle, and nothing is checked in the build with secure reads. The module compares
the check with the registers that a word uses by its format: `rv32e_check_iff` lists where they
agree.

A register is beyond the sixteen if its number has the upper bit set (`Upper`). The decoder
looks at port a where the ALU takes its first operand from a register, at port b where it takes
its second one, and at the destination where the cycle writes. A store has its data from port b
and its offset from an immediate, so the data register is not checked; a jump writes in one
cycle and adds in another.

The check changes the legality only, and is an addition to the decoder (`checkedDecode`); the
other modules are about a core with all registers.

## Main results

* `rv32e_check_iff` — for every word that is legal but for its registers, in every cycle and in
  both builds, when the check is right.
-/

namespace CocoIbex

open Rv32

/-! ### The check -/

section

variable (cfg : Config) (first branchTaken illegalC : Bool) (i : BitVec 32)

/-- `illegal_reg_rv32e`, by the parameter `RV32E` and the build. -/
def illegalRegRv32e (rv32e regreadSecure : Bool) : Bool :=
  if rv32e then
    if regreadSecure then false
    else
      ((rfRaddrA cfg first branchTaken i).getLsbD 4
          && (aluDecode cfg first branchTaken i).aluOpAMuxSel == .regA)
        || ((rfRaddrB i).getLsbD 4 && (aluDecode cfg first branchTaken i).aluOpBMuxSel == .regB)
        || ((rfWaddr i).getLsbD 4 && (mainDecode cfg first illegalC i).rfWe)
  else false

/-- The main decode with the check: `illegal_insn_o` and `rf_we_o`. -/
def checkedDecode (rv32e regreadSecure : Bool) : MainOut :=
  let o := mainDecode cfg first illegalC i
  let illegalReg := illegalRegRv32e cfg first branchTaken illegalC i rv32e regreadSecure
  { o with illegalInsn := o.illegalInsn || illegalReg, rfWe := o.rfWe && !illegalReg }

end

/-! ### The registers of a word -/

/-- A register that RV32E does not have. -/
def Upper (r : BitVec 5) : Prop := 16 ≤ r.toNat

/-- A register number is compared with sixteen. -/
instance (r : BitVec 5) : Decidable (Upper r) := inferInstanceAs (Decidable (_ ≤ _))

/-- The word reads or writes a register that RV32E does not have. -/
def UsesUpper (w : BitVec 32) : Prop :=
  ∃ r ∈ sourcesOf w ++ Rvb.thirdSourceOf w ++ destinationOf w, Upper r

/-- A word names at most three registers. -/
instance (w : BitVec 32) : Decidable (UsesUpper w) :=
  inferInstanceAs (Decidable (∃ r ∈ _, _))

/-- The upper registers have bit four set. -/
theorem getLsbD_4 (r : BitVec 5) : r.getLsbD 4 = decide (Upper r) :=
  (BitVec.msb_eq_getLsbD_last r).symm.trans (BitVec.msb_eq_decide r)

/-- The third source by the decoder. -/
theorem thirdSourceOf_eq {w : BitVec 32} {o : Opcode} (h : opcodeBits w = o.bits) :
    Rvb.thirdSourceOf w = if ternary w then [regS3 w] else [] := by
  have hop : w.extractLsb' 0 7 = o.bits := h
  have hf3 : w.extractLsb' 12 3 = funct3 w := rfl
  have hs3 : w.extractLsb' 27 5 = regS3 w := rfl
  have h26 : w.getLsbD 26 = (funct7 w).getLsbD 1 := by simp [funct7]
  have hbits : ∀ f : BitVec 3, f.extractLsb 1 0 = 0b01#2 ↔ f ∈ [0b001#3, 0b101#3] := by decide
  simp only [Rvb.thirdSourceOf, hop, hf3, hs3, h26, ternary, h, Opcode.ofBits_bits]
  cases o <;> simp [Opcode.bits, opTernary, hbits, and_comm]

/-- The destination of a word with a major opcode. -/
def destinationBy (w : BitVec 32) : Opcode → List (BitVec 5)
  | .miscMem | .store | .branch => []
  | .system => if funct3 w = 0b000#3 then [] else [regD w]
  | _ => [regD w]

/-- The destination in the format of a word is that by its major opcode. -/
theorem destinationOf_eq {w : BitVec 32} {o : Opcode} (h : opcodeBits w = o.bits) :
    destinationOf w = destinationBy w o := by
  have hop : w.extractLsb' 0 7 = o.bits := h
  have hf3 : w.extractLsb' 12 3 = funct3 w := rfl
  have hd : w.extractLsb' 7 5 = regD w := rfl
  simp only [destinationOf, hop, hf3, hd]
  cases o <;> simp [destinationBy, Opcode.bits]

/-! ### Where the check is right -/

/-- The words and cycles for which the check is right. -/
def CheckRight (cfg : Config) (regreadSecure first : Bool) (w : BitVec 32) : Prop :=
  if regreadSecure then ¬ UsesUpper w
  else
    match Opcode.ofBits (opcodeBits w) with
    -- the link register is checked in the cycle that writes it
    | some .jal => Upper (regD w) → first = false ∨ cfg.branchTargetALU = true
    -- and the base when the ALU adds to it
    | some .jalr =>
      if first && !cfg.branchTargetALU then Upper (regD w) → Upper (regS1 w)
      else Upper (regS1 w) → Upper (regD w)
    | some .branch => Upper (regS1 w) ∨ Upper (regS2 w) → first = true
    -- the data of a store and the destination of a load do not pass the ALU
    | some .store => Upper (regS2 w) → Upper (regS1 w)
    | some .load => Upper (regD w) → Upper (regS1 w)
    -- the third source takes the place of the first
    | some .opImm =>
      ternary w = true →
        if first then Upper (regS3 w) → Upper (regS1 w) ∨ Upper (regD w)
        else Upper (regS1 w) → Upper (regS3 w) ∨ Upper (regD w)
    | some .op =>
      ternary w = true →
        if first then Upper (regS3 w) → Upper (regS1 w) ∨ Upper (regS2 w) ∨ Upper (regD w)
        else Upper (regS1 w) → Upper (regS3 w) ∨ Upper (regS2 w) ∨ Upper (regD w)
    -- a fence passes a register that it does not read
    | some .miscMem => funct3 w = 0b000#3 → ¬ Upper (regS1 w)
    | _ => True

/-- The decoder is right about the registers of an instruction: it is illegal iff it uses one that
RV32E does not have, and then it writes none. -/
def Checks (cfg : Config) (regreadSecure first branchTaken : Bool) (i : BitVec 32) : Prop :=
  let c := compressedDecoder i
  let o := checkedDecode cfg first branchTaken c.illegalInstr c.instr true regreadSecure
  (o.illegalInsn = true ↔ UsesUpper c.instr) ∧ (UsesUpper c.instr → o.rfWe = false)

/-- The check is a computation. -/
instance (cfg : Config) (regreadSecure first branchTaken : Bool) (i : BitVec 32) :
    Decidable (Checks cfg regreadSecure first branchTaken i) :=
  inferInstanceAs (Decidable (_ ∧ _))

/-- The ALU of the register-register operations reads two registers. -/
theorem opAlu_muxes (cfg : Config) (first : Bool) (f7 : BitVec 7) (f3 : BitVec 3) :
    (opAlu cfg first f7 f3).aluOpAMuxSel = .regA ∧
      (opAlu cfg first f7 f3).aluOpBMuxSel = .regB := by
  simp only [opAlu]
  repeat' split
  all_goals exact ⟨rfl, rfl⟩

/-- With a legal word the decoder is right iff the check finds what the word uses. -/
theorem checks_iff {cfg : Config} {regreadSecure first branchTaken : Bool} {i : BitVec 32}
    (hl : (mainDecode cfg first (compressedDecoder i).illegalInstr
      (compressedDecoder i).instr).illegalInsn = false) :
    Checks cfg regreadSecure first branchTaken i ↔
      (illegalRegRv32e cfg first branchTaken (compressedDecoder i).illegalInstr
        (compressedDecoder i).instr true regreadSecure = true ↔
          UsesUpper (compressedDecoder i).instr) := by
  simp only [Checks, checkedDecode, hl, Bool.false_or]
  constructor
  · exact And.left
  · intro h
    exact ⟨h, fun hu => by rw [h.mpr hu, Bool.not_true, Bool.and_false]⟩

/-- The registers that the check finds, for a legal word. -/
theorem check_eq {cfg : Config} {first branchTaken illegalC : Bool} {w : BitVec 32}
    (hl : (mainDecode cfg first illegalC w).illegalInsn = false) :
    (illegalRegRv32e cfg first branchTaken illegalC w true false = true ↔ UsesUpper w) ↔
      CheckRight cfg false first w := by
  have heq : mainDecode cfg first illegalC w = mainDecodeRaw cfg first w :=
    (mainDecode_of_legal hl).2
  have hraw : (mainDecodeRaw cfg first w).illegalInsn = false := heq ▸ hl
  have hwe : (mainDecode cfg first illegalC w).rfWe = (mainDecodeRaw cfg first w).rfWe := by
    rw [heq]
  cases ho : Opcode.ofBits (opcodeBits w) with
  | none => simp [mainDecodeRaw, ho] at hraw
  | some o =>
      have hop := opcodeBits_of_ofBits ho
      simp only [illegalRegRv32e, CheckRight, UsesUpper, if_true, Bool.false_eq_true, if_false, hwe,
        rfRaddrA_eq, rfRaddrB, rfWaddr, getLsbD_4, ho, sourcesOf_eq hop, thirdSourceOf_eq hop,
        destinationOf_eq hop]
      cases o with
      | lui => simp [aluDecode, mainDecodeRaw, ho, sourcesBy, destinationBy, ternary]
      | auipc => simp [aluDecode, pcPlus, mainDecodeRaw, ho, sourcesBy, destinationBy, ternary]
      | jal =>
          cases first <;> cases hb : cfg.branchTargetALU <;>
            simp [aluDecode, pcPlus, mainDecodeRaw, ho, sourcesBy, destinationBy, ternary, hb]
      | jalr =>
          cases first <;> cases hb : cfg.branchTargetALU <;>
            simp [aluDecode, pcPlus, mainDecodeRaw, ho, sourcesBy, destinationBy, ternary, hb]
      | branch =>
          cases first <;> cases hb : cfg.branchTargetALU <;>
            simp [aluDecode, pcPlus, mainDecodeRaw, ho, sourcesBy, destinationBy, ternary, hb]
      | load => simp [aluDecode, mainDecodeRaw, ho, sourcesBy, destinationBy, ternary]
      | store =>
          have h14 : w.getLsbD 14 = false := by
            simp only [mainDecodeRaw, ho, Bool.or_eq_false_iff] at hraw
            exact hraw.1
          simp only [aluDecode, mainDecodeRaw, ho, sourcesBy, destinationBy, ternary, h14,
            Bool.false_eq_true, if_false]
          simp
      | opImm =>
          have hb := rv32b_of_ternary (show (mainDecodeRaw cfg true w).illegalInsn = false by
            simpa only [mainDecodeRaw, ho] using hraw)
          cases ht : ternary w with
          | false => simp [aluDecode, mainDecodeRaw, ho, sourcesBy, destinationBy]
          | true =>
              cases first with
              | false => simp [aluDecode, mainDecodeRaw, ho, sourcesBy, destinationBy, hb ht]
              | true =>
                  simp [aluDecode, mainDecodeRaw, ho, sourcesBy, destinationBy, hb ht]
                  tauto
      | op =>
          have hb := rv32b_of_ternary (show (mainDecodeRaw cfg true w).illegalInsn = false by
            simpa only [mainDecodeRaw, ho] using hraw)
          obtain ⟨hA, hB⟩ := opAlu_muxes cfg first (funct7 w) (funct3 w)
          cases ht : ternary w with
          | false => simp [aluDecode, mainDecodeRaw, ho, sourcesBy, destinationBy, hA, hB, or_assoc]
          | true =>
              cases first <;>
                simp [aluDecode, mainDecodeRaw, ho, sourcesBy, destinationBy, hb ht, hA, hB] <;>
                tauto
      | miscMem =>
          by_cases h0 : funct3 w = 0b000#3
          · simp [aluDecode, mainDecodeRaw, ho, sourcesBy, destinationBy, ternary, h0]
          · by_cases h1 : funct3 w = 0b001#3
            · cases hb : cfg.branchTargetALU <;>
                simp [aluDecode, pcPlus, mainDecodeRaw, ho, sourcesBy, destinationBy, ternary, h1,
                  hb]
            · simp only [mainDecodeRaw, ho] at hraw
              cases hraw
      | system =>
          by_cases h0 : funct3 w = 0b000#3
          · have hz : regS1 w = 0#5 ∧ regD w = 0#5 := by
              simp [mainDecodeRaw, ho, h0] at hraw
              exact ⟨hraw.1.2, hraw.2⟩
            have hu : ¬ Upper 0#5 := by decide
            simp [aluDecode, mainDecodeRaw, ho, sourcesBy, destinationBy, ternary, h0, hz, hu]
          · have hf : ∀ f : BitVec 3, f ≠ 0b000#3 → f.extractLsb 1 0 ≠ 0b00#2 →
                ((f = 0b001#3 ∨ f = 0b010#3 ∨ f = 0b011#3) ↔ f.getLsbD 2 = false) := by decide
            have hcsr : (funct3 w).extractLsb 1 0 ≠ 0b00#2 := by
              simpa [mainDecodeRaw, ho, h0, extractLsb_13_12] using hraw
            have hreg := hf _ h0 hcsr
            cases h2 : (funct3 w).getLsbD 2 <;>
              simp only [h2, Bool.true_eq_false, iff_true, iff_false] at hreg <;>
              simp only [aluDecode, mainDecodeRaw, ho, sourcesBy, destinationBy, ternary, h0,
                getLsbD_14, h2, hreg] <;>
              simp

/-- **The register check of RV32E.** For every fetched word that is legal but for its registers, in
every cycle and both builds, the decoder raises an illegal instruction for exactly the words that
use a register which RV32E does not have, and enables no write then, exactly where `CheckRight`
says so. -/
theorem rv32e_check_iff (cfg : Config) (regreadSecure first branchTaken : Bool) (i : BitVec 32)
    (hl : (mainDecode cfg first (compressedDecoder i).illegalInstr
      (compressedDecoder i).instr).illegalInsn = false) :
    Checks cfg regreadSecure first branchTaken i ↔
      CheckRight cfg regreadSecure first (compressedDecoder i).instr := by
  rw [checks_iff hl]
  cases regreadSecure with
  | false => exact check_eq hl
  | true => simp [illegalRegRv32e, CheckRight]

/-- `add x1, x2, x16` is illegal, and `add x1, x2, x3` is not. -/
theorem rv32e_check_add :
    Checks ⟨true, false, true⟩ false true false 0x010100b3#32
      ∧ Checks ⟨true, false, true⟩ false true false 0x003100b3#32 :=
  ⟨(rv32e_check_iff _ false true false 0x010100b3#32 (by decide)).mpr
      (fun h => absurd h (by decide)),
    (rv32e_check_iff _ false true false 0x003100b3#32 (by decide)).mpr
      (fun h => absurd h (by decide))⟩

/-- `sw x17, 0(x1)` stores a register that RV32E does not have and is legal in both builds, and so
is `add x17, x1, x2` in the build with secure reads, which writes one. -/
theorem store_unchecked :
    (mainDecode ⟨true, false, true⟩ true false 0x0110a023#32).illegalInsn = false
      ∧ UsesUpper 0x0110a023#32
      ∧ (∀ regreadSecure, (checkedDecode ⟨true, false, true⟩ true false false 0x0110a023#32 true
          regreadSecure).illegalInsn = false)
      ∧ (∀ regreadSecure, ¬ Checks ⟨true, false, true⟩ regreadSecure true false 0x0110a023#32)
      ∧ (checkedDecode ⟨true, false, true⟩ true false false 0x002088b3#32 true true).illegalInsn
        = false
      ∧ (checkedDecode ⟨true, false, true⟩ true false false 0x002088b3#32 true true).rfWe = true
      ∧ ¬ Checks ⟨true, false, true⟩ true true false 0x002088b3#32 := by
  refine ⟨by decide, by decide, by decide, ?_, by decide, by decide, ?_⟩
  · intro regreadSecure h
    revert regreadSecure
    decide
  · decide

end CocoIbex
