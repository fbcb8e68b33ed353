import CocoIbex.IdStage
import CocoIbex.IfId

/-!
# Fetched Words in ID

What the gating modules share. The compressed decoder computes its enables from the fetched
word, the main decoder its controls from the expanded instruction; here are the words that both
accept, the cycles in which such a word is in ID, and what the main decoder makes of it there.

A word is accepted if the compressed decoder does not reject it and the main decoder finds its
expansion legal (`Accepts`). A rejected word enables nothing behind ID, so that its masks do not
matter. `InId` ties the inputs of ID to the pipeline registers, be it in the first or in a later
cycle of the instruction, and `lastCycle` is a cycle in which EX and the LSU have what the
instruction waits for.

Each unit of the secure build has a module of its own, which compares the enable of the
compressed decoder with the use that the instruction makes of the unit, opcode by opcode.

## Main results

* `main_of_inId` — the main decode of an accepted word in ID is that of its expansion;
* `mainDecode_of_legal` — and it is not squashed;
* `field62_of_opcode` — the compressed decoder looks at bits 6 to 2 of the opcode only, the main
  decoder at all of them.
-/

namespace CocoIbex

/-! ### Accepted words -/

/-- The compressed and the main decoder accept the fetched word `w`. -/
def Accepts (cfg : Config) (w : BitVec 32) : Prop :=
  (mainDecode cfg true (compressedDecoder w).illegalInstr (compressedDecoder w).instr).illegalInsn
    = false

/-- The decoder is a computation. -/
instance (cfg : Config) (w : BitVec 32) : Decidable (Accepts cfg w) :=
  inferInstanceAs (Decidable (_ = _))

/-- Squashing keeps the legality. -/
@[simp] theorem MainOut.squash_illegalInsn (o : MainOut) :
    o.squash.illegalInsn = o.illegalInsn := by
  rw [MainOut.squash]
  split <;> rfl

/-- A legal instruction is not squashed. -/
theorem MainOut.squash_of_legal {o : MainOut} (h : o.illegalInsn = false) : o.squash = o := by
  simp [MainOut.squash, h]

/-- A legal word is decoded without a squash. -/
theorem mainDecode_of_legal {cfg : Config} {first illegalC : Bool} {i : BitVec 32}
    (hl : (mainDecode cfg first illegalC i).illegalInsn = false) :
    illegalC = false ∧ mainDecode cfg first illegalC i = mainDecodeRaw cfg first i := by
  have hor : ((mainDecodeRaw cfg first i).illegalInsn || illegalC) = false := by
    rw [mainDecode, MainOut.squash_illegalInsn] at hl
    exact hl
  obtain ⟨hraw, rfl⟩ := Bool.or_eq_false_iff.mp hor
  refine ⟨rfl, ?_⟩
  simp only [mainDecode, Bool.or_false]
  exact MainOut.squash_of_legal hraw

/-- The legality of an instruction does not depend on its cycle. -/
theorem mainDecodeRaw_illegalInsn (cfg : Config) (first : Bool) (i : BitVec 32) :
    (mainDecodeRaw cfg first i).illegalInsn = (mainDecodeRaw cfg true i).illegalInsn := by
  simp only [mainDecodeRaw]
  split <;> (try split) <;> rfl

/-- An accepted word is legal in both decoders. -/
theorem accepts_iff {cfg : Config} {w : BitVec 32} :
    Accepts cfg w ↔ (compressedDecoder w).illegalInstr = false ∧
      (mainDecodeRaw cfg true (compressedDecoder w).instr).illegalInsn = false := by
  simp [Accepts, mainDecode, and_comm]

/-- The main decode of an accepted word is the bare case distinction, in every cycle. -/
theorem Accepts.mainDecode {cfg : Config} {w : BitVec 32} (h : Accepts cfg w) (first : Bool) :
    mainDecode cfg first (compressedDecoder w).illegalInstr (compressedDecoder w).instr
      = mainDecodeRaw cfg first (compressedDecoder w).instr := by
  obtain ⟨hc, hm⟩ := accepts_iff.mp h
  have hl : (mainDecodeRaw cfg first (compressedDecoder w).instr).illegalInsn = false := by
    rw [mainDecodeRaw_illegalInsn, hm]
  simp only [CocoIbex.mainDecode, hc, Bool.or_false]
  exact MainOut.squash_of_legal hl

/-- A compressed word has no opcode. -/
theorem ofBits_of_quadrant {w : BitVec 32} (h : quadrant w ≠ 0b11#2) :
    Opcode.ofBits (opcodeBits w) = none := by
  cases ho : Opcode.ofBits (opcodeBits w) with
  | none => rfl
  | some o =>
      have hb : o.bits = opcodeBits w := by simpa using List.find?_some ho
      have hlow : o.bits.extractLsb 1 0 = 0b11#2 := by cases o <;> rfl
      refine absurd ?_ h
      rw [← hlow, hb]
      refine BitVec.eq_of_getLsbD_eq fun k hk => ?_
      have hk7 : k < 7 := by omega
      simp [quadrant, opcodeBits, hk, hk7]

/-- The opcode of a word that is not compressed is in its bits 6 to 2. -/
theorem field62_of_opcode {w : BitVec 32} {o : Opcode}
    (h : Opcode.ofBits (opcodeBits w) = some o) : field62 w = o.bits.extractLsb 6 2 := by
  have hb : o.bits = opcodeBits w := by
    simpa using List.find?_some h
  rw [hb]
  refine BitVec.eq_of_getLsbD_eq fun i hi => ?_
  have hi7 : 2 + i < 7 := by omega
  simp [field62, opcodeBits, hi, hi7]

/-! ### Words in ID -/

/-- The cycle `x` has the instruction of the pipeline registers `s` in ID. -/
def InId (s : IfIdReg) (x : IdIn) : Prop :=
  x.instrValid = s.instrValidId ∧ x.instr = s.instrRdataId ∧ x.illegalCInsn = s.illegalCInsnId

/-- A cycle in which the instruction of `s` executes and EX and the LSU have their
results. -/
def lastCycle (s : IfIdReg) (branchTaken : Bool) : IdIn where
  instrValid := s.instrValidId
  instr := s.instrRdataId
  illegalCInsn := s.illegalCInsnId
  instrFetchErr := false
  controllerRun := true
  flushId := false
  exValid := true
  branchDecision := false
  branchTaken := branchTaken
  dataIndTiming := false
  lsuValid := true
  lsuBusy := false
  illegalCsrInsn := false

/-- The main decode of an accepted word in ID. -/
theorem main_of_inId {cfg : Config} {w : BitVec 32} {fsm : IdFsm} {x : IdIn}
    (h : Accepts cfg w) (hx : InId (IfIdReg.ofWord w) x) :
    IdStage.main cfg fsm x
      = mainDecodeRaw cfg (IdStage.instrFirstCycle fsm x) (compressedDecoder w).instr := by
  obtain ⟨-, hi, hc⟩ := hx
  rw [IdStage.main, hi, hc]
  exact h.mainDecode _

end CocoIbex
