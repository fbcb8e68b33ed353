import CocoIbex.Rv32

/-!
# The RV32 Bit Manipulation Instructions

Version 0.92 of the extension, as far as a 32-bit core can have it in one ALU: the reference
functions of the instructions, which are given as code on words, and what they do to the bits of
a word. A permutation of the bits is described by what it does to their indices (`Permutes`),
and the generalized reversal and the shuffles by operations on the five bits of an index.

The reference functions are those of the draft, in its own terms: loops over the bits as
recursive functions, shifts by a part of the operand, and stages with their masks. That they
mean what their names say is proved here for those of which it is not plain, and then it is the
meaning that the ALU is compared with: a stage of the circuit exchanges bits by one bit of their
index, and so does a stage of the code.

## Main results

* `clz_eq`, `ctz_eq` and `pcnt_eq` — the counts of zeros and of ones;
* `grev_grev`, `unshfl_shfl` and `shfl_unshfl` — a reversal is its own inverse, and the two
  shuffles are inverse to each other;
* `unshfl_permutes` — the bits of a word under a shuffle.
-/

namespace Rvb

/-! ### Counting -/

/-- `clz`. -/
def clz (rs1 : BitVec 32) : BitVec 32 :=
  BitVec.ofNat 32 (((List.range 32).find? fun count => rs1.getLsbD (31 - count)).getD 32)

/-- `ctz`. -/
def ctz (rs1 : BitVec 32) : BitVec 32 :=
  BitVec.ofNat 32 (((List.range 32).find? fun count => rs1.getLsbD count).getD 32)

/-- `pcnt`. -/
def pcnt (rs1 : BitVec 32) : BitVec 32 :=
  BitVec.ofNat 32 ((List.range 32).foldl (fun count index => count + (rs1.getLsbD index).toNat) 0)

/-! ### Shifts -/

/-- The shift amount of a word. -/
def shamt (rs2 : BitVec 32) : ℕ := rs2.toNat % 32

/-- `slo`, a shift to the left that shifts in ones. -/
def slo (rs1 rs2 : BitVec 32) : BitVec 32 := ~~~(~~~rs1 <<< shamt rs2)

/-- `sro`, a shift to the right that shifts in ones. -/
def sro (rs1 rs2 : BitVec 32) : BitVec 32 := ~~~(~~~rs1 >>> shamt rs2)

/-- `rol`. -/
def rol (rs1 rs2 : BitVec 32) : BitVec 32 :=
  rs1 <<< shamt rs2 ||| rs1 >>> ((32 - shamt rs2) % 32)

/-- `ror`. -/
def ror (rs1 rs2 : BitVec 32) : BitVec 32 :=
  rs1 >>> shamt rs2 ||| rs1 <<< ((32 - shamt rs2) % 32)

/-- `fsl`, a funnel shift by six bits of the amount: the two words change places where it is 32
or more. -/
def fsl (rs1 rs2 rs3 : BitVec 32) : BitVec 32 :=
  let amount := rs2.toNat % 64
  let A := if 32 ≤ amount then rs3 else rs1
  let B := if 32 ≤ amount then rs1 else rs3
  let amount := if 32 ≤ amount then amount - 32 else amount
  if amount = 0 then A else A <<< amount ||| B >>> (32 - amount)

/-- `fsr`. -/
def fsr (rs1 rs2 rs3 : BitVec 32) : BitVec 32 :=
  let amount := rs2.toNat % 64
  let A := if 32 ≤ amount then rs3 else rs1
  let B := if 32 ≤ amount then rs1 else rs3
  let amount := if 32 ≤ amount then amount - 32 else amount
  if amount = 0 then A else A >>> amount ||| B <<< (32 - amount)

/-! ### Single bits and choices -/

/-- `sbset`. -/
def sbset (rs1 rs2 : BitVec 32) : BitVec 32 := rs1 ||| 1#32 <<< shamt rs2

/-- `sbclr`. -/
def sbclr (rs1 rs2 : BitVec 32) : BitVec 32 := rs1 &&& ~~~(1#32 <<< shamt rs2)

/-- `sbinv`. -/
def sbinv (rs1 rs2 : BitVec 32) : BitVec 32 := rs1 ^^^ 1#32 <<< shamt rs2

/-- `sbext`. -/
def sbext (rs1 rs2 : BitVec 32) : BitVec 32 := 1#32 &&& rs1 >>> shamt rs2

/-- `cmix`. -/
def cmix (rs1 rs2 rs3 : BitVec 32) : BitVec 32 := rs1 &&& rs2 ||| rs3 &&& ~~~rs2

/-- `cmov`. -/
def cmov (rs1 rs2 rs3 : BitVec 32) : BitVec 32 := if rs2 = 0#32 then rs3 else rs1

/-- `min`. -/
def min (rs1 rs2 : BitVec 32) : BitVec 32 := if rs1.slt rs2 then rs1 else rs2

/-- `max`. -/
def max (rs1 rs2 : BitVec 32) : BitVec 32 := if rs2.slt rs1 then rs1 else rs2

/-- `minu`. -/
def minu (rs1 rs2 : BitVec 32) : BitVec 32 := if rs1.ult rs2 then rs1 else rs2

/-- `maxu`. -/
def maxu (rs1 rs2 : BitVec 32) : BitVec 32 := if rs2.ult rs1 then rs1 else rs2

/-- `pack`. -/
def pack (rs1 rs2 : BitVec 32) : BitVec 32 := rs2 <<< 16 ||| rs1 <<< 16 >>> 16

/-- `packu`. -/
def packu (rs1 rs2 : BitVec 32) : BitVec 32 := rs2 >>> 16 <<< 16 ||| rs1 >>> 16

/-- `packh`. -/
def packh (rs1 rs2 : BitVec 32) : BitVec 32 := rs1 &&& 255#32 ||| (rs2 &&& 255#32) <<< 8

/-! ### Reversals and shuffles -/

/-- One stage of `grev`. -/
def grevStage (k : ℕ) (lo hi x : BitVec 32) : BitVec 32 := (x &&& lo) <<< k ||| (x &&& hi) >>> k

/-- `grev`. -/
def grev (rs1 rs2 : BitVec 32) : BitVec 32 :=
  let x := if rs2.getLsbD 0 then grevStage 1 0x55555555#32 0xAAAAAAAA#32 rs1 else rs1
  let x := if rs2.getLsbD 1 then grevStage 2 0x33333333#32 0xCCCCCCCC#32 x else x
  let x := if rs2.getLsbD 2 then grevStage 4 0x0F0F0F0F#32 0xF0F0F0F0#32 x else x
  let x := if rs2.getLsbD 3 then grevStage 8 0x00FF00FF#32 0xFF00FF00#32 x else x
  if rs2.getLsbD 4 then grevStage 16 0x0000FFFF#32 0xFFFF0000#32 x else x

/-- One stage of `gorc`. -/
def gorcStage (k : ℕ) (lo hi x : BitVec 32) : BitVec 32 := x ||| grevStage k lo hi x

/-- `gorc`. -/
def gorc (rs1 rs2 : BitVec 32) : BitVec 32 :=
  let x := if rs2.getLsbD 0 then gorcStage 1 0x55555555#32 0xAAAAAAAA#32 rs1 else rs1
  let x := if rs2.getLsbD 1 then gorcStage 2 0x33333333#32 0xCCCCCCCC#32 x else x
  let x := if rs2.getLsbD 2 then gorcStage 4 0x0F0F0F0F#32 0xF0F0F0F0#32 x else x
  let x := if rs2.getLsbD 3 then gorcStage 8 0x00FF00FF#32 0xFF00FF00#32 x else x
  if rs2.getLsbD 4 then gorcStage 16 0x0000FFFF#32 0xFFFF0000#32 x else x

/-- `shuffle32_stage`. -/
def shuffleStage (maskL maskR : BitVec 32) (N : ℕ) (src : BitVec 32) : BitVec 32 :=
  src &&& ~~~(maskL ||| maskR) ||| (src <<< N &&& maskL ||| src >>> N &&& maskR)

/-- `shfl`. -/
def shfl (rs1 rs2 : BitVec 32) : BitVec 32 :=
  let x := if rs2.getLsbD 3 then shuffleStage 0x00FF0000#32 0x0000FF00#32 8 rs1 else rs1
  let x := if rs2.getLsbD 2 then shuffleStage 0x0F000F00#32 0x00F000F0#32 4 x else x
  let x := if rs2.getLsbD 1 then shuffleStage 0x30303030#32 0x0C0C0C0C#32 2 x else x
  if rs2.getLsbD 0 then shuffleStage 0x44444444#32 0x22222222#32 1 x else x

/-- `unshfl`. -/
def unshfl (rs1 rs2 : BitVec 32) : BitVec 32 :=
  let x := if rs2.getLsbD 0 then shuffleStage 0x44444444#32 0x22222222#32 1 rs1 else rs1
  let x := if rs2.getLsbD 1 then shuffleStage 0x30303030#32 0x0C0C0C0C#32 2 x else x
  let x := if rs2.getLsbD 2 then shuffleStage 0x0F000F00#32 0x00F000F0#32 4 x else x
  if rs2.getLsbD 3 then shuffleStage 0x00FF0000#32 0x0000FF00#32 8 x else x

/-- The instructions with at most two sources that are no rotations. -/
inductive Op
  | clz | ctz | pcnt | slo | sro | sbset | sbclr | sbinv | sbext
  | min | max | minu | maxu | pack | packu | packh
  | grev | gorc | shfl | unshfl
  deriving DecidableEq, Repr

/-- The reference functions. -/
def Op.apply : Op → BitVec 32 → BitVec 32 → BitVec 32
  | .clz => fun rs1 _ => Rvb.clz rs1
  | .ctz => fun rs1 _ => Rvb.ctz rs1
  | .pcnt => fun rs1 _ => Rvb.pcnt rs1
  | .slo => Rvb.slo
  | .sro => Rvb.sro
  | .sbset => Rvb.sbset
  | .sbclr => Rvb.sbclr
  | .sbinv => Rvb.sbinv
  | .sbext => Rvb.sbext
  | .min => Rvb.min
  | .max => Rvb.max
  | .minu => Rvb.minu
  | .maxu => Rvb.maxu
  | .pack => Rvb.pack
  | .packu => Rvb.packu
  | .packh => Rvb.packh
  | .grev => Rvb.grev
  | .gorc => Rvb.gorc
  | .shfl => Rvb.shfl
  | .unshfl => Rvb.unshfl

/-- The instructions that rotate, shift two words through each other or choose by a word. -/
inductive Long
  | rol (rs2 rs1 rd : BitVec 5)
  | ror (rs2 rs1 rd : BitVec 5)
  | rori (imm : BitVec 6) (rs1 rd : BitVec 5)
  | fsl (rs3 rs2 rs1 rd : BitVec 5)
  | fsr (rs3 rs2 rs1 rd : BitVec 5)
  | fsri (rs3 : BitVec 5) (imm : BitVec 6) (rs1 rd : BitVec 5)
  | cmix (rs3 rs2 rs1 rd : BitVec 5)
  | cmov (rs3 rs2 rs1 rd : BitVec 5)
  deriving DecidableEq, Repr

/-- The word of an instruction. -/
def Long.encode : Long → BitVec 32
  | .rol rs2 rs1 rd => Rv32.rType 0b0110000#7 rs2 rs1 0b001#3 rd 0x33#7
  | .ror rs2 rs1 rd => Rv32.rType 0b0110000#7 rs2 rs1 0b101#3 rd 0x33#7
  | .rori imm rs1 rd => Rv32.iType (0b011000#6 ++ imm) rs1 0b101#3 rd 0x13#7
  | .fsl rs3 rs2 rs1 rd => Rv32.rType (rs3 ++ 0b10#2) rs2 rs1 0b001#3 rd 0x33#7
  | .fsr rs3 rs2 rs1 rd => Rv32.rType (rs3 ++ 0b10#2) rs2 rs1 0b101#3 rd 0x33#7
  | .fsri rs3 imm rs1 rd => Rv32.iType (rs3 ++ 1#1 ++ imm) rs1 0b101#3 rd 0x13#7
  | .cmix rs3 rs2 rs1 rd => Rv32.rType (rs3 ++ 0b11#2) rs2 rs1 0b001#3 rd 0x33#7
  | .cmov rs3 rs2 rs1 rd => Rv32.rType (rs3 ++ 0b11#2) rs2 rs1 0b101#3 rd 0x33#7

/-- The third source in the format of a word: that of `cmix`, `cmov`, `fsl` and `fsr`, and of
`fsri`. -/
def thirdSourceOf (w : BitVec 32) : List (BitVec 5) :=
  let opcode := w.extractLsb' 0 7
  let f3 := w.extractLsb' 12 3
  if w.getLsbD 26 = true ∧
      (opcode = 0x33#7 ∧ (f3 = 0b001#3 ∨ f3 = 0b101#3) ∨ opcode = 0x13#7 ∧ f3 = 0b101#3) then
    [w.extractLsb' 27 5]
  else []

/-- What an instruction writes, with the registers `reg`. -/
def Long.write (reg : BitVec 5 → BitVec 32) : Long → BitVec 5 × BitVec 32
  | .rol rs2 rs1 rd => (rd, Rvb.rol (reg rs1) (reg rs2))
  | .ror rs2 rs1 rd => (rd, Rvb.ror (reg rs1) (reg rs2))
  | .rori imm rs1 rd => (rd, Rvb.ror (reg rs1) (imm.setWidth 32))
  | .fsl rs3 rs2 rs1 rd => (rd, Rvb.fsl (reg rs1) (reg rs2) (reg rs3))
  | .fsr rs3 rs2 rs1 rd => (rd, Rvb.fsr (reg rs1) (reg rs2) (reg rs3))
  | .fsri rs3 imm rs1 rd => (rd, Rvb.fsr (reg rs1) (imm.setWidth 32) (reg rs3))
  | .cmix rs3 rs2 rs1 rd => (rd, Rvb.cmix (reg rs1) (reg rs2) (reg rs3))
  | .cmov rs3 rs2 rs1 rd => (rd, Rvb.cmov (reg rs1) (reg rs2) (reg rs3))

/-! ### What is counted -/

/-- `ctz` is the number of trailing zeros. -/
theorem ctz_eq (x : BitVec 32) : ctz x = x.ctz := by
  refine BitVec.eq_of_toNat_eq ?_
  rw [ctz]
  cases hfind : (List.range 32).find? fun count => x.getLsbD count with
  | none =>
      have hzero : x = 0#32 := by
        refine BitVec.eq_of_getLsbD_eq fun i hi => ?_
        have hbit := List.find?_range_eq_none.mp hfind i hi
        simpa using hbit
      have hrev : x.reverse = 0#32 := BitVec.reverse_eq_zero_iff.mpr hzero
      rw [BitVec.ctz_eq_reverse_clz, BitVec.clz_eq_iff_eq_zero.mpr hrev]
      rfl
  | some i =>
      obtain ⟨hbit, hi, hbelow⟩ := List.find?_range_eq_some.mp hfind
      have hne : x ≠ 0#32 := by
        rintro rfl
        simp at hbit
      have htop := BitVec.getLsbD_true_ctz_of_ne_zero hne
      have heq : i = x.ctz.toNat := by
        rcases Nat.lt_trichotomy i x.ctz.toNat with hlt | heq | hgt
        · rw [BitVec.getLsbD_false_of_lt_ctz hlt] at hbit
          cases hbit
        · exact heq
        · have hlow := hbelow _ hgt
          rw [htop] at hlow
          cases hlow
      rw [Option.getD_some, heq, BitVec.ofNat_toNat, BitVec.setWidth_eq]

/-- `clz` is the number of leading zeros. -/
theorem clz_eq (x : BitVec 32) : clz x = x.clz := by
  rw [BitVec.clz_eq_reverse_ctz, ← ctz_eq, clz, ctz]
  congr 2
  refine List.find?_congr fun i hi => ?_
  rw [BitVec.getLsbD_reverse, BitVec.getMsbD_eq_getLsbD,
    decide_eq_true (List.mem_range.mp hi), Bool.true_and]

/-- `pcnt` is the number of ones. -/
theorem pcnt_eq (x : BitVec 32) : pcnt x = x.cpop := by
  have hfold (n : ℕ) : (List.range n).foldl (fun count index => count + (x.getLsbD index).toNat) 0
      = x.cpopNatRec n 0 := by
    induction n with
    | zero => rfl
    | succ n ih =>
        rw [List.range_succ, List.foldl_append, ih, List.foldl_cons, List.foldl_nil,
          BitVec.cpopNatRec_succ, BitVec.cpopNatRec_eq (0 + _), Nat.zero_add]
  rw [pcnt, hfold, BitVec.cpop]

/-! ### Permutations of the bits -/

/-- A bit of a word. -/
def bit (x : BitVec 32) (i : BitVec 5) : Bool := x.getLsbD i.toNat

/-- Words with the same bits are equal. -/
theorem ext_bit {x y : BitVec 32} (h : ∀ i, bit x i = bit y i) : x = y := by
  refine BitVec.eq_of_getLsbD_eq fun i hi => ?_
  have hbit := h (BitVec.ofNat 5 i)
  rwa [bit, bit, BitVec.toNat_ofNat, Nat.mod_eq_of_lt hi] at hbit

/-- The operation puts the bit `π i` in the place `i`. -/
def Permutes (f : BitVec 32 → BitVec 32) (π : BitVec 5 → BitVec 5) : Prop :=
  ∀ x i, bit (f x) i = bit x (π i)

namespace Permutes

variable {f g : BitVec 32 → BitVec 32} {π ρ : BitVec 5 → BitVec 5}

/-- To leave a word is to leave the indices of its bits. -/
theorem id : Permutes (fun x => x) (fun i => i) := fun _ _ => rfl

/-- One permutation after the other. -/
theorem comp (hg : Permutes g ρ) (hf : Permutes f π) :
    Permutes (fun x => g (f x)) (fun i => π (ρ i)) :=
  fun x i => (hg (f x) i).trans (hf x (ρ i))

/-- A stage that is selected or not. -/
theorem ite (b : Bool) (hf : Permutes f π) :
    Permutes (fun x => if b then f x else x) (fun i => if b then π i else i) := by
  cases b
  · exact id
  · exact hf

/-- Operations with the same indices are the same. -/
theorem eq (hf : Permutes f π) (hg : Permutes g ρ) (h : ∀ i, π i = ρ i) (x : BitVec 32) :
    f x = g x :=
  ext_bit fun i => by rw [hf, hg, h]

end Permutes

/-! ### The generalized reversal -/

/-- The masks `lo` and `hi` make a stage that exchanges the bits whose indices differ in `K`. -/
def Exchanges (k : ℕ) (lo hi : BitVec 32) (K : BitVec 5) : Prop :=
  ∀ i : BitVec 5,
    (k ≤ i.toNat ∧ lo.getLsbD (i.toNat - k) = true ∧ hi.getLsbD (k + i.toNat) = false ∧
      i.toNat - k = (i ^^^ K).toNat) ∨
    ((i.toNat < k ∨ lo.getLsbD (i.toNat - k) = false) ∧ hi.getLsbD (k + i.toNat) = true ∧
      k + i.toNat = (i ^^^ K).toNat)

/-- There are 32 indices to look at. -/
instance (k : ℕ) (lo hi : BitVec 32) (K : BitVec 5) : Decidable (Exchanges k lo hi K) :=
  inferInstanceAs (Decidable (∀ _ : BitVec 5, _))

/-- The first stage of a reversal exchanges neighbouring bits. -/
theorem exchanges_1 : Exchanges 1 0x55555555#32 0xAAAAAAAA#32 1#5 := by decide

/-- The second stage exchanges pairs of bits. -/
theorem exchanges_2 : Exchanges 2 0x33333333#32 0xCCCCCCCC#32 2#5 := by decide

/-- The third stage exchanges nibbles. -/
theorem exchanges_4 : Exchanges 4 0x0F0F0F0F#32 0xF0F0F0F0#32 4#5 := by decide

/-- The fourth stage exchanges bytes. -/
theorem exchanges_8 : Exchanges 8 0x00FF00FF#32 0xFF00FF00#32 8#5 := by decide

/-- The last stage exchanges the half words. -/
theorem exchanges_16 : Exchanges 16 0x0000FFFF#32 0xFFFF0000#32 16#5 := by decide

/-- A stage of the reversal. -/
theorem Exchanges.permutes {k : ℕ} {lo hi : BitVec 32} {K : BitVec 5} (h : Exchanges k lo hi K) :
    Permutes (grevStage k lo hi) (fun i => i ^^^ K) := by
  intro x i
  have hi32 : i.toNat < 32 := i.isLt
  simp only [bit, grevStage, BitVec.getLsbD_or, BitVec.getLsbD_shiftLeft,
    BitVec.getLsbD_ushiftRight, BitVec.getLsbD_and, hi32, decide_true, Bool.true_and]
  rcases h i with ⟨hk, hlo, hhi, heq⟩ | ⟨hlo, hhi, heq⟩
  · rw [hlo, hhi, ← heq]
    simp [hk]
  · rw [hhi, ← heq]
    rcases hlo with hlt | hlo
    · simp [hlt]
    · simp [hlo]

/-- The five bits that an index has of a word. -/
def mask (k : BitVec 32) : BitVec 5 := k.setWidth 5

/-- The bits of the second operand that turn on stages are the five that count. -/
theorem getLsbD_mask (k : BitVec 32) {j : ℕ} (hj : j < 5) :
    k.getLsbD j = (mask k).getLsbD j := by
  rw [mask, BitVec.getLsbD_setWidth, decide_eq_true hj, Bool.true_and]

/-- The generalized reversal. -/
theorem grev_permutes (k : BitVec 32) : Permutes (fun x => grev x k) (fun i => i ^^^ mask k) := by
  have hcomp := ((((exchanges_16.permutes.ite (k.getLsbD 4)).comp
    (exchanges_8.permutes.ite (k.getLsbD 3))).comp
    (exchanges_4.permutes.ite (k.getLsbD 2))).comp
    (exchanges_2.permutes.ite (k.getLsbD 1))).comp
    (exchanges_1.permutes.ite (k.getLsbD 0))
  intro x i
  refine (hcomp x i).trans (congrArg (bit x) ?_)
  rw [getLsbD_mask k (show 0 < 5 by omega), getLsbD_mask k (show 1 < 5 by omega),
    getLsbD_mask k (show 2 < 5 by omega), getLsbD_mask k (show 3 < 5 by omega),
    getLsbD_mask k (show 4 < 5 by omega)]
  generalize mask k = m
  revert i m
  decide

/-- A reversal is its own inverse. -/
theorem grev_grev (x k : BitVec 32) : grev (grev x k) k = x := by
  refine ((grev_permutes k).comp (grev_permutes k)).eq Permutes.id (fun i => ?_) x
  rw [BitVec.xor_assoc, BitVec.xor_self, BitVec.xor_zero]

/-! ### The generalized or-combine -/

/-- The operation combines the bits whose indices differ in a part of the mask `M`. -/
def Combines (f : BitVec 32 → BitVec 32) (M : BitVec 5) : Prop :=
  ∀ x i, bit (f x) i = true ↔ ∃ s, s &&& ~~~M = 0#5 ∧ bit x (i ^^^ s) = true

/-- Without any stage a word combines each bit with itself. -/
theorem combines_id : Combines (fun x => x) 0#5 := by
  intro x i
  constructor
  · intro h
    exact ⟨0#5, by decide, by rwa [BitVec.xor_zero]⟩
  · rintro ⟨s, hs, h⟩
    rw [BitVec.not_zero, BitVec.and_allOnes] at hs
    rwa [hs, BitVec.xor_zero] at h

/-- A stage of the or-combine ahead of which are those of other bits of the mask. -/
theorem Combines.stage {f : BitVec 32 → BitVec 32} {M K : BitVec 5} (hf : Combines f M) {k : ℕ}
    {lo hi : BitVec 32} (h : Exchanges k lo hi K)
    (hsplit : ∀ s, s &&& ~~~(M ||| K) = 0#5 ↔ s &&& ~~~M = 0#5 ∨ (s ^^^ K) &&& ~~~M = 0#5) :
    Combines (fun x => gorcStage k lo hi (f x)) (M ||| K) := by
  intro x i
  have hbit : bit (gorcStage k lo hi (f x)) i = (bit (f x) i || bit (f x) (i ^^^ K)) := by
    rw [gorcStage, bit, BitVec.getLsbD_or]
    exact congrArg (bit (f x) i || ·) (h.permutes (f x) i)
  rw [hbit, Bool.or_eq_true, hf, hf]
  constructor
  · rintro (⟨s, hs, hx⟩ | ⟨s, hs, hx⟩)
    · exact ⟨s, (hsplit s).mpr (Or.inl hs), hx⟩
    · refine ⟨s ^^^ K, (hsplit _).mpr (Or.inr ?_), ?_⟩
      · rwa [BitVec.xor_assoc, BitVec.xor_self, BitVec.xor_zero]
      · rwa [BitVec.xor_comm s K, ← BitVec.xor_assoc]
  · rintro ⟨s, hs, hx⟩
    rcases (hsplit s).mp hs with hs | hs
    · exact Or.inl ⟨s, hs, hx⟩
    · refine Or.inr ⟨s ^^^ K, hs, ?_⟩
      rwa [BitVec.xor_comm s K, ← BitVec.xor_assoc, BitVec.xor_assoc i, BitVec.xor_self,
        BitVec.xor_zero]

/-- A stage that is selected or not. -/
theorem Combines.stage_ite {f : BitVec 32 → BitVec 32} {M K : BitVec 5} (hf : Combines f M) {k : ℕ}
    {lo hi : BitVec 32} (h : Exchanges k lo hi K) (b : Bool)
    (hsplit : ∀ s, s &&& ~~~(M ||| K) = 0#5 ↔ s &&& ~~~M = 0#5 ∨ (s ^^^ K) &&& ~~~M = 0#5) :
    Combines (fun x => if b then gorcStage k lo hi (f x) else f x)
      (M ||| if b then K else 0#5) := by
  cases b with
  | false => simpa using hf
  | true => exact hf.stage h hsplit

/-- The parts of a mask with one more bit. -/
theorem parts_succ {M K : BitVec 5} (hK : K ∈ [1#5, 2#5, 4#5, 8#5, 16#5]) (h : M &&& K = 0#5)
    (s : BitVec 5) : s &&& ~~~(M ||| K) = 0#5 ↔ s &&& ~~~M = 0#5 ∨ (s ^^^ K) &&& ~~~M = 0#5 := by
  simp only [List.mem_cons, List.not_mem_nil, or_false] at hK
  rcases hK with rfl | rfl | rfl | rfl | rfl
  all_goals
    revert h
    revert M s
    decide

/-- The generalized or-combine. -/
theorem gorc_combines (k : BitVec 32) : Combines (fun x => gorc x k) (mask k) := by
  have h0 := combines_id.stage_ite exchanges_1 (k.getLsbD 0) (parts_succ (by decide) (by decide))
  have h1 := h0.stage_ite exchanges_2 (k.getLsbD 1)
    (parts_succ (by decide) (by cases k.getLsbD 0 <;> decide))
  have h2 := h1.stage_ite exchanges_4 (k.getLsbD 2)
    (parts_succ (by decide) (by cases k.getLsbD 0 <;> cases k.getLsbD 1 <;> decide))
  have h3 := h2.stage_ite exchanges_8 (k.getLsbD 3) (parts_succ (by decide)
    (by cases k.getLsbD 0 <;> cases k.getLsbD 1 <;> cases k.getLsbD 2 <;> decide))
  have h4 := h3.stage_ite exchanges_16 (k.getLsbD 4) (parts_succ (by decide) (by
    cases k.getLsbD 0 <;> cases k.getLsbD 1 <;> cases k.getLsbD 2 <;> cases k.getLsbD 3 <;> decide))
  have hmask : mask k = 0#5 ||| (if k.getLsbD 0 then 1#5 else 0#5)
      ||| (if k.getLsbD 1 then 2#5 else 0#5) ||| (if k.getLsbD 2 then 4#5 else 0#5)
      ||| (if k.getLsbD 3 then 8#5 else 0#5) ||| (if k.getLsbD 4 then 16#5 else 0#5) := by
    rw [getLsbD_mask k (show 0 < 5 by omega), getLsbD_mask k (show 1 < 5 by omega),
      getLsbD_mask k (show 2 < 5 by omega), getLsbD_mask k (show 3 < 5 by omega),
      getLsbD_mask k (show 4 < 5 by omega)]
    generalize mask k = m
    revert m
    decide
  rw [hmask]
  exact h4

/-- The or-combine brings together what the reversals by the parts of `k` bring to one place. -/
theorem bit_gorc (x k : BitVec 32) (i : BitVec 5) :
    bit (gorc x k) i = true ↔ ∃ s, mask s &&& ~~~mask k = 0#5 ∧ bit (grev x s) i = true := by
  constructor
  · intro h
    obtain ⟨s, hs, hx⟩ := (gorc_combines k x i).mp h
    have hmask : mask (s.setWidth 32) = s := by
      rw [mask, BitVec.setWidth_setWidth_of_le _ (by omega), BitVec.setWidth_eq]
    exact ⟨s.setWidth 32, by rw [hmask, hs], by rwa [grev_permutes (s.setWidth 32) x i, hmask]⟩
  · rintro ⟨s, hs, hx⟩
    rw [grev_permutes s x i] at hx
    exact (gorc_combines k x i).mpr ⟨mask s, hs, hx⟩

/-! ### Shuffles -/

/-- The index with its bits `j` and `j + 1` exchanged. -/
def swapBits (j : ℕ) (i : BitVec 5) : BitVec 5 :=
  if i.getLsbD j = i.getLsbD (j + 1) then i else i ^^^ 3#5 <<< j

/-- To swap two neighbouring bits of an index twice is to leave it. -/
theorem swapBits_swapBits {j : ℕ} (hj : j < 4) (i : BitVec 5) : swapBits j (swapBits j i) = i := by
  revert i
  interval_cases j <;> decide

/-- The masks make a stage that exchanges two bits of the indices. -/
def Shuffles (maskL maskR : BitVec 32) (N j : ℕ) : Prop :=
  ∀ i : BitVec 5,
    (maskL.getLsbD i.toNat = true ∧ maskR.getLsbD i.toNat = false ∧ N ≤ i.toNat ∧
      i.toNat - N = (swapBits j i).toNat) ∨
    (maskL.getLsbD i.toNat = false ∧ maskR.getLsbD i.toNat = true ∧
      N + i.toNat = (swapBits j i).toNat) ∨
    (maskL.getLsbD i.toNat = false ∧ maskR.getLsbD i.toNat = false ∧ swapBits j i = i)

/-- There are 32 indices to look at. -/
instance (maskL maskR : BitVec 32) (N j : ℕ) : Decidable (Shuffles maskL maskR N j) :=
  inferInstanceAs (Decidable (∀ _ : BitVec 5, _))

/-- The widest stage of a shuffle moves the bytes in the middle. -/
theorem shuffles_8 : Shuffles 0x00FF0000#32 0x0000FF00#32 8 3 := by decide

/-- The next stage moves nibbles. -/
theorem shuffles_4 : Shuffles 0x0F000F00#32 0x00F000F0#32 4 2 := by decide

/-- The next stage moves pairs of bits. -/
theorem shuffles_2 : Shuffles 0x30303030#32 0x0C0C0C0C#32 2 1 := by decide

/-- The narrowest stage moves single bits. -/
theorem shuffles_1 : Shuffles 0x44444444#32 0x22222222#32 1 0 := by decide

/-- A stage of a shuffle. -/
theorem Shuffles.permutes {maskL maskR : BitVec 32} {N j : ℕ} (h : Shuffles maskL maskR N j) :
    Permutes (shuffleStage maskL maskR N) (swapBits j) := by
  intro x i
  have hi32 : i.toNat < 32 := i.isLt
  simp only [bit, shuffleStage, BitVec.getLsbD_or, BitVec.getLsbD_shiftLeft,
    BitVec.getLsbD_ushiftRight, BitVec.getLsbD_and, BitVec.getLsbD_not, hi32, decide_true,
    Bool.true_and]
  rcases h i with ⟨hl, hr, hN, heq⟩ | ⟨hl, hr, heq⟩ | ⟨hl, hr, heq⟩
  · rw [hl, hr, ← heq]
    simp [hN]
  · rw [hl, hr, ← heq]
    simp
  · rw [hl, hr, heq]
    simp

/-- A stage that is selected or not. -/
def swapIf (b : Bool) (j : ℕ) (i : BitVec 5) : BitVec 5 := if b then swapBits j i else i

/-- A stage of a shuffle that is turned on or off is its own inverse. -/
theorem swapIf_swapIf {j : ℕ} (hj : j < 4) (b : Bool) (i : BitVec 5) :
    swapIf b j (swapIf b j i) = i := by
  cases b
  · rfl
  · exact swapBits_swapBits hj i

/-- The indices of a shuffle. -/
def shflIndex (k : BitVec 32) (i : BitVec 5) : BitVec 5 :=
  swapIf (k.getLsbD 3) 3
    (swapIf (k.getLsbD 2) 2 (swapIf (k.getLsbD 1) 1 (swapIf (k.getLsbD 0) 0 i)))

/-- The indices of an unshuffle. -/
def unshflIndex (k : BitVec 32) (i : BitVec 5) : BitVec 5 :=
  swapIf (k.getLsbD 0) 0
    (swapIf (k.getLsbD 1) 1 (swapIf (k.getLsbD 2) 2 (swapIf (k.getLsbD 3) 3 i)))

/-- A shuffle moves the bits as `shflIndex` says. -/
theorem shfl_permutes (k : BitVec 32) : Permutes (fun x => shfl x k) (shflIndex k) :=
  (((shuffles_1.permutes.ite _).comp (shuffles_2.permutes.ite _)).comp
    (shuffles_4.permutes.ite _)).comp (shuffles_8.permutes.ite _)

/-- The inverse shuffle moves the bits as `unshflIndex` says. -/
theorem unshfl_permutes (k : BitVec 32) : Permutes (fun x => unshfl x k) (unshflIndex k) :=
  (((shuffles_8.permutes.ite _).comp (shuffles_4.permutes.ite _)).comp
    (shuffles_2.permutes.ite _)).comp (shuffles_1.permutes.ite _)

/-- An unshuffle undoes the shuffle. -/
theorem unshfl_shfl (x k : BitVec 32) : unshfl (shfl x k) k = x := by
  refine ((unshfl_permutes k).comp (shfl_permutes k)).eq Permutes.id (fun i => ?_) x
  simp only [shflIndex, unshflIndex]
  rw [swapIf_swapIf (by omega), swapIf_swapIf (by omega), swapIf_swapIf (by omega),
    swapIf_swapIf (by omega)]

/-- A shuffle undoes the unshuffle. -/
theorem shfl_unshfl (x k : BitVec 32) : shfl (unshfl x k) k = x := by
  refine ((shfl_permutes k).comp (unshfl_permutes k)).eq Permutes.id (fun i => ?_) x
  simp only [shflIndex, unshflIndex]
  rw [swapIf_swapIf (by omega), swapIf_swapIf (by omega), swapIf_swapIf (by omega),
    swapIf_swapIf (by omega)]

end Rvb
