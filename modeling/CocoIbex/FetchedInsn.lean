import CocoIbex.MulDivStep
import CocoIbex.Retirement
import CocoIbex.Rv32Machine
import CocoIbex.RvcExpansion

/-!
# Fetched Instructions

From the half words at an address to the instruction in ID: the word that the fetch hands over
for the address is decoded to the instruction that the memory has there, compressed or not.

`WordAt` is what is known of a fetched word: its lower half is that of the address, and its
upper half is the next one if the instruction is not compressed. Above the length of a
compressed instruction the word may have anything, and the decoders do not look there. What the
memory has at the address is `HasInsn`, given in the syntax of the instruction set.

An instruction with an effect in the machine of RV32IMC asks the controller for nothing special
(`NoTrap`), so that the hart executes it undisturbed.

## Main results

* `isCompressed` — the word has the length of the instruction in the memory;
* `decoded` — the instruction at the address is decoded from the word;
* `plain_encode` and `noTrap_of_effect` — it asks for nothing special, and does not trap.
-/

namespace Rvc

/-- The low bits of a compressed instruction are not those of a full one. -/
theorem Insn.quadrant_encode (c : Insn) : c.encode.extractLsb' 0 2 ≠ 0b11#2 := by
  have hq : ∀ {k : ℕ} (x : BitVec k) (q : BitVec 2), (x ++ q).extractLsb' 0 2 = q := fun x q =>
    BitVec.extractLsb'_append_eq_right
  cases c <;> simp only [Insn.encode, ciType, cbType] <;> erw [hq] <;> decide

end Rvc

namespace CocoIbex

open Rv32

/-- The low bits of a full instruction. -/
theorem quadrant_encode (i : ImInsn) : i.encode.extractLsb' 0 2 = 0b11#2 := by
  have hq : ∀ (x : BitVec 25) (o : BitVec 7),
      ((x ++ o : BitVec 32)).extractLsb' 0 2 = o.extractLsb' 0 2 := fun x o =>
    BitVec.extractLsb'_append_eq_of_add_le (by decide)
  cases i with
  | base i =>
      cases i <;>
        simp only [ImInsn.encode, Base.encode, jType, bType, sType, uType, iType, rType] <;>
        erw [hq] <;> rfl
  | mulDiv op rs2 rs1 rd =>
      simp only [ImInsn.encode, rType]
      erw [hq]
      rfl

/-- The fetch has the word `w` for the instruction at `pc`; of a compressed one only the lower
half counts. -/
structure WordAt (rom : FetchMem) (pc : BitVec 31) (w : BitVec 32) : Prop where
  low : w.extractLsb' 0 16 = rom.half pc
  high : rom.compressed pc = false → w.extractLsb' 16 16 = rom.half (pc + 1#31)

namespace WordAt

variable {rom : FetchMem} {pc : BitVec 31} {w : BitVec 32}

/-- What is delivered is such a word. -/
theorem of_delivers {o : FetchOut} (hd : Delivers rom pc o) (hm : ∀ i, (rom i).pmpErr = false) :
    WordAt rom pc o.rdata :=
  ⟨hd.low (hm _), fun hc => hd.high (hm _) hc (hm _)⟩

/-- The word has the length of the instruction in the memory. -/
theorem isCompressed (hw : WordAt rom pc w) : CocoIbex.isCompressed w = rom.compressed pc := by
  rw [FetchMem.compressed, ← hw.low]
  exact (isCompressedHalf_lower w).symm

variable {i : ImInsn} {c : Bool}

/-- So does the instruction at the address. -/
theorem compressed_of_fetches (hf : HasInsn rom pc i c) : rom.compressed pc = c := by
  rw [FetchMem.compressed, isCompressedHalf]
  cases hf with
  | full h =>
      have hlow : rom.half pc = i.encode.extractLsb' 0 16 := by
        rw [h]
        exact (extractLsb'_append_low _ _).symm
      have hq : (rom.half pc).extractLsb' 0 2 = 0b11#2 := by
        rw [hlow, BitVec.extractLsb'_extractLsb'_of_le (by decide), quadrant_encode]
      rw [hq]
      rfl
  | compressed h =>
      rw [← h]
      exact bne_iff_ne.mpr (Rvc.Insn.quadrant_encode _)

/-- The instruction at the address is decoded from the word. -/
theorem decoded (hw : WordAt rom pc w) (hf : HasInsn rom pc i c) :
    CocoIbex.isCompressed w = c ∧ (compressedDecoder w).instr = i.encode ∧
      (compressedDecoder w).illegalInstr = false := by
  have hc := compressed_of_fetches hf
  have hlen := hw.isCompressed.trans hc
  refine ⟨hlen, ?_⟩
  cases hf with
  | full h =>
      have hword : w = i.encode := by
        rw [h, ← hw.low, ← hw.high hc, halves_eq]
      have hq : quadrant w = 0b11#2 := by simpa [CocoIbex.isCompressed] using hlen
      rw [compressedDecoder_c3 hq]
      exact ⟨hword, rfl⟩
  | compressed h =>
      obtain ⟨hlegal, hinstr⟩ := expandsTo_of_encode (h.trans hw.low.symm)
      exact ⟨hinstr, hlegal⟩

end WordAt

/-! ### The decode -/

/-- An instruction that does not trap. -/
def NoTrap : ImInsn → Prop
  | .base i => i ≠ .ecall ∧ i ≠ .ebreak
  | .mulDiv _ _ _ _ => True

/-- An instruction with an effect does not trap. -/
theorem noTrap_of_effect {i : ImInsn} {pc len : BitVec 32} {reg : BitVec 5 → BitVec 32} {e : Effect}
    (h : i.effect pc len reg = some e) : NoTrap i := by
  cases i with
  | mulDiv => trivial
  | base i =>
      refine ⟨?_, ?_⟩ <;>
        · rintro rfl
          cases h

variable {cfg : Config}

/-- It asks for nothing special. -/
theorem plain_encode (hM : cfg.rv32m = true) (first : Bool) {i : ImInsn} (hr : NoTrap i) :
    (mainDecode cfg first false i.encode).Plain := by
  cases i with
  | mulDiv op rs2 rs1 rd =>
      have hd := mainDecode_mulDiv hM op rs2 rs1 rd first
      change (mainDecode cfg first false (mulDivWord op rs2 rs1 rd)).Plain
      rw [hd]
      exact ⟨rfl, rfl, rfl, rfl, rfl, rfl, rfl⟩
  | base i =>
      change (mainDecode cfg first false i.encode).Plain
      rw [encode_base, mainDecode_base]
      cases i with
      | ecall => exact absurd rfl hr.1
      | ebreak => exact absurd rfl hr.2
      | _ => exact ⟨rfl, rfl, rfl, rfl, rfl, rfl, rfl⟩

/-- The loads and stores ask for the memory. -/
theorem dataReq_base (first : Bool) (i : Base) :
    (mainDecode cfg first false i.encode).dataReq = accessesMemory i := by
  rw [encode_base, mainDecode_base]
  cases i <;> rfl

/-- The multiplications and divisions do not. -/
theorem dataReq_mulDiv (hM : cfg.rv32m = true) (first : Bool) (op : MulDiv)
    (rs2 rs1 rd : BitVec 5) :
    (mainDecode cfg first false (ImInsn.mulDiv op rs2 rs1 rd).encode).dataReq = false := by
  change (mainDecode cfg first false (mulDivWord op rs2 rs1 rd)).dataReq = false
  rw [mainDecode_mulDiv hM]

/-! ### A cycle of a plain instruction -/

namespace Datapath

variable {m : Multiplier} {i : Base} {compressed : Bool} {pc : BitVec 32}
  {reg : BitVec 5 → BitVec 32} {s : Datapath m} {x : DatapathIn}

/-- An instruction that neither loads nor stores writes no register in a first cycle in which it
stays in ID. -/
theorem rfWrite_of_not_done (hs : Starts s) (hx : x.dataIndTiming = false)
    (hb : x.lsuBusy = false) (hm : accessesMemory i = false)
    (hd : (out cfg (idInstr i compressed pc reg) s x).done = false) :
    (out cfg (idInstr i compressed pc reg) s x).rfWrite = none := by
  have hf := fsmOut_first cfg i compressed pc reg hx hs.idFsm
  rw [out_base cfg i compressed pc reg s hx, hf] at hd ⊢
  simp only [hs.idFsm, hb] at hd ⊢
  cases i with
  | load | store => cases hm
  | jal | jalr =>
      cases hbt : cfg.branchTargetALU <;> simp [mainOf, hbt] at hd ⊢
  | branch => simp [mainOf]
  | _ => simp [mainOf] at hd

end Datapath

end CocoIbex
