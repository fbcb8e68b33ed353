import CocoIbex.AluSpec
import CocoIbex.Rvb

/-!
# The ALU and the Bit Manipulation Instructions

The units of RV32B against the reference functions of the instructions. What takes one cycle is
`rvb_reference`: the shifter that only goes to the right and the reversal behind it make the
shifts that shift in ones, the single-bit operations, `grev` and `gorc`, and the unshuffle is a
shuffle between two flips.

The shifter is described once, by the bits of its result: those of a shift to the right and of
one to the left, with the amount in use in the cycle (`toNat_shiftAmt`). Every operation on it
is then a reading of these two lemmas at its own setting. The permutations are compared by what
they do to the index of a bit, so that the stages of the circuit and the steps of the reference
code compose in the same way.

## Main results

* `getLsbD_shiftResult_right` and `getLsbD_shiftResult_left` — the bits of the two shifts;
* `rvb_reference` — for every operator of one cycle and all operands, the result of the ALU is
  the reference function of its instruction.
-/

namespace CocoIbex

namespace Alu

/-! ### The shifter in any cycle -/

section

variable {x : AluIn} (hgrev : grevOp true x = false) (hgorc : gorcOp true x = false)

include hgrev hgorc

/-- The shifter is a shift to the right with `shiftOnes` or the sign in front, and a reversal if
it goes to the left. -/
theorem shiftResult_eq : shiftResult true x =
    reverse false (fun _ => shiftLeft true x)
      (((BitVec.ofBool (shiftOnes true x || (shiftArith x && (shiftInput true x).getLsbD 31))
        ++ shiftInput true x : BitVec 33).sshiftRight
          (shiftAmt true x).toNat).extractLsb' 0 32) := by
  simp only [shiftResult, shiftResultExt, hgrev, hgorc, Bool.or_self, Bool.false_and,
    Bool.or_false, Bool.false_eq_true, if_false]

/-- The bits of a shift to the right. -/
theorem getLsbD_shiftResult_right (hl : shiftLeft true x = false) {i : ℕ} (hi : i < 32) :
    (shiftResult true x).getLsbD i =
      if (shiftAmt true x).toNat + i < 32 then
        (shiftInput true x).getLsbD ((shiftAmt true x).toNat + i)
      else shiftOnes true x || (shiftArith x && (shiftInput true x).getLsbD 31) := by
  rw [shiftResult_eq hgrev hgorc, hl, reverse_none, getLsbD_shift_ext _ _ _ hi]

/-- The bits of a shift to the left. -/
theorem getLsbD_shiftResult_left (hl : shiftLeft true x = true) {i : ℕ} (hi : i < 32) :
    (shiftResult true x).getLsbD i =
      if (shiftAmt true x).toNat ≤ i then
        (shiftInput true x).getLsbD ((shiftAmt true x).toNat + (31 - i))
      else shiftOnes true x || (shiftArith x && (shiftInput true x).getLsbD 31) := by
  rw [shiftResult_eq hgrev hgorc, hl, getLsbD_reverse _ hi, getLsbD_shift_ext _ _ _ (by omega)]
  have hiff : (shiftAmt true x).toNat + (31 - i) < 32 ↔ (shiftAmt true x).toNat ≤ i := by omega
  simp only [hiff]

end

section

variable {x : AluIn} (h : Plain x)

include h

/-- The operand of a shift to the right. -/
theorem shiftInput_right (hsb : shiftSbmode true x = false) (hl : shiftLeft true x = false) :
    shiftInput true x = x.operandA := by
  simp only [shiftInput, hsb, hl, shiftOperandA, h.shiftEnable, Bits.gate_true, Bool.false_eq_true,
    if_false]

/-- The operand of a shift to the left. -/
theorem shiftInput_left (hsb : shiftSbmode true x = false) (hl : shiftLeft true x = true) :
    shiftInput true x = operandARev x := by
  simp only [shiftInput, hsb, hl, h.shiftEnable, Bits.gate_true, Bool.false_eq_true, if_false,
    if_true]

/-- The shift amount: the complement in the other cycle, or where a funnel shift exchanges its
words. -/
theorem toNat_shiftAmt : (shiftAmt true x).toNat =
    if x.instrFirstCycle = shiftAmt5 true x then (32 - x.operandB.toNat % 32) % 32
    else x.operandB.toNat % 32 := by
  have hb : shiftOperandB x = x.operandB := by
    rw [shiftOperandB, h.shiftEnable, Bits.gate_true]
  have hamt : (x.operandB.extractLsb' 0 5).toNat = x.operandB.toNat % 32 := by
    rw [BitVec.extractLsb'_toNat, Nat.shiftRight_zero]
  have hcompl : ((shiftAmtCompl x).extractLsb' 0 5).toNat = (32 - x.operandB.toNat % 32) % 32 := by
    rw [shiftAmtCompl, hb, BitVec.extractLsb'_toNat, Nat.shiftRight_zero, BitVec.toNat_sub,
      BitVec.toNat_setWidth, hamt, BitVec.toNat_ofNat]
    omega
  rw [shiftAmt, hb]
  cases x.instrFirstCycle <;> cases shiftAmt5 true x <;> simp [hamt, hcompl]

/-- The word swap of a funnel shift. -/
theorem shiftAmt5_eq : shiftAmt5 true x = (x.operandB.getLsbD 5 && shiftFunnel true x) := by
  rw [shiftAmt5, shiftOperandB, h.shiftEnable, Bits.gate_true]

end

/-! ### Shifts that shift in ones, and single bits -/

section

variable {x : AluIn} (h : Plain x) (hfirst : x.instrFirstCycle = true)

include h hfirst

/-- The shift amount of an instruction of one cycle. -/
theorem toNat_shiftAmt_first (hf : shiftFunnel true x = false) :
    (shiftAmt true x).toNat = Rvb.shamt x.operandB := by
  rw [toNat_shiftAmt h, shiftAmt5_eq h, hf, hfirst, Bool.and_false, if_neg (by decide), Rvb.shamt]

/-- `SLO` shifts left and fills with ones. -/
theorem result_slo (ho : x.operator = .slo) :
    result true x = Rvb.slo x.operandA x.operandB := by
  have hl : shiftLeft true x = true := by simp [shiftLeft, shiftSbmode, ho]
  have hin := shiftInput_left h (by simp [shiftSbmode, ho]) hl
  have hones : shiftOnes true x = true := by simp [shiftOnes, ho]
  have hamt := toNat_shiftAmt_first h hfirst (by simp [shiftFunnel, ho])
  simp only [result, ho]
  refine BitVec.eq_of_getLsbD_eq fun i hi => ?_
  rw [getLsbD_shiftResult_left (by simp [grevOp, ho]) (by simp [gorcOp, ho]) hl hi, hin, hones,
    hamt, Rvb.slo, operandARev, Bits.getLsbD_gen, BitVec.getLsbD_not, BitVec.getLsbD_shiftLeft]
  generalize Rvb.shamt x.operandB = k
  by_cases hk : k ≤ i
  · simp [hk, hi, show k + (31 - i) < 32 by omega, show 31 - (k + (31 - i)) = i - k by omega,
      show i - k < 32 by omega]
  · simp [hk, hi, show i < k by omega]

/-- `SRO` shifts right and fills with ones. -/
theorem result_sro (ho : x.operator = .sro) :
    result true x = Rvb.sro x.operandA x.operandB := by
  have hl : shiftLeft true x = false := by simp [shiftLeft, shiftSbmode, ho]
  have hin := shiftInput_right h (by simp [shiftSbmode, ho]) hl
  have hones : shiftOnes true x = true := by simp [shiftOnes, ho]
  have hamt := toNat_shiftAmt_first h hfirst (by simp [shiftFunnel, ho])
  simp only [result, ho]
  refine BitVec.eq_of_getLsbD_eq fun i hi => ?_
  rw [getLsbD_shiftResult_right (by simp [grevOp, ho]) (by simp [gorcOp, ho]) hl hi, hin, hones,
    hamt, Rvb.sro, BitVec.getLsbD_not, BitVec.getLsbD_ushiftRight, BitVec.getLsbD_not]
  generalize Rvb.shamt x.operandB = k
  by_cases hk : k + i < 32
  · simp [hk, hi]
  · simp [hk, hi]

/-- The single bit. -/
theorem shiftResult_sbmode (hsb : shiftSbmode true x = true) :
    shiftResult true x = 1#32 <<< Rvb.shamt x.operandB := by
  have hop : x.operator = .sbset ∨ x.operator = .sbclr ∨ x.operator = .sbinv := by
    simpa [shiftSbmode, or_assoc] using hsb
  have hl : shiftLeft true x = true := by simp [shiftLeft, hsb]
  have hin : shiftInput true x = 0x80000000#32 := if_pos hsb
  have hones : (shiftOnes true x || (shiftArith x && (0x80000000#32).getLsbD 31)) = false := by
    rcases hop with ho | ho | ho <;> simp [shiftOnes, shiftArith, ho]
  have hamt := toNat_shiftAmt_first h hfirst (by
    rcases hop with ho | ho | ho <;> simp [shiftFunnel, ho])
  have hgrev : grevOp true x = false := by rcases hop with ho | ho | ho <;> simp [grevOp, ho]
  have hgorc : gorcOp true x = false := by rcases hop with ho | ho | ho <;> simp [gorcOp, ho]
  refine BitVec.eq_of_getLsbD_eq fun i hi => ?_
  rw [getLsbD_shiftResult_left hgrev hgorc hl hi, hin, hones, hamt, BitVec.getLsbD_shiftLeft,
    decide_eq_true hi, Bool.true_and]
  have htop : 0x80000000#32 = BitVec.twoPow 32 31 := rfl
  have hone : 1#32 = BitVec.twoPow 32 0 := rfl
  rw [htop, hone, BitVec.getLsbD_twoPow, BitVec.getLsbD_twoPow]
  generalize Rvb.shamt x.operandB = k
  by_cases hk : k ≤ i
  · have hiff : 31 = k + (31 - i) ↔ 0 = i - k := by omega
    simp [hk, hiff, show ¬ i < k by omega]
  · simp [hk, show i < k by omega]

/-- `SBEXT` extracts a single bit. -/
theorem result_sbext (ho : x.operator = .sbext) :
    result true x = Rvb.sbext x.operandA x.operandB := by
  have hl : shiftLeft true x = false := by simp [shiftLeft, shiftSbmode, ho]
  have hin := shiftInput_right h (by simp [shiftSbmode, ho]) hl
  have hamt := toNat_shiftAmt_first h hfirst (by simp [shiftFunnel, ho])
  have hlt : Rvb.shamt x.operandB < 32 := Nat.mod_lt _ (by omega)
  have hbit : (shiftResult true x).getLsbD 0 = x.operandA.getLsbD (Rvb.shamt x.operandB) := by
    rw [getLsbD_shiftResult_right (by simp [grevOp, ho]) (by simp [gorcOp, ho]) hl (by omega), hin,
      hamt, Nat.add_zero, if_pos hlt]
  simp only [result, ho, rv32bOnly, if_true, singlebitResult, hbit, Rvb.sbext]
  refine BitVec.eq_of_getLsbD_eq fun i hi => ?_
  have hone : 1#32 = BitVec.twoPow 32 0 := rfl
  rw [BitVec.getLsbD_setWidth, BitVec.getLsbD_ofBool, BitVec.getLsbD_and, hone,
    BitVec.getLsbD_twoPow, BitVec.getLsbD_ushiftRight, decide_eq_true hi, Bool.true_and]
  by_cases h0 : i = 0
  · simp [h0]
  · simp [h0, show ¬ 0 = i by omega]

end

/-! ### Reversals and shuffles -/

/-- A stage of the reversal structure. -/
theorem reverseStage_eq (gorc : Bool) (k : ℕ) (lo hi v : BitVec 32) :
    reverseStage gorc k lo hi v
      = if gorc then Rvb.gorcStage k lo hi v else Rvb.grevStage k lo hi v := by
  cases gorc
  · simp [reverseStage, Rvb.grevStage]
  · simp [reverseStage, Rvb.gorcStage, Rvb.grevStage, BitVec.or_assoc]

section

variable {x : AluIn} (h : Plain x) (hfirst : x.instrFirstCycle = true)

include h hfirst

/-- The bits of the shift amount. -/
theorem getLsbD_shiftAmt (hf : shiftFunnel true x = false) {j : ℕ} (hj : j < 5) :
    (shiftAmt true x).getLsbD j = x.operandB.getLsbD j := by
  have hamt : shiftAmt true x = x.operandB.setWidth 5 := by
    refine BitVec.eq_of_toNat_eq ?_
    rw [toNat_shiftAmt_first h hfirst hf, BitVec.toNat_setWidth, Rvb.shamt]
  rw [hamt, BitVec.getLsbD_setWidth, decide_eq_true hj, Bool.true_and]

omit hfirst in
/-- What the reversal structure makes of the operand. -/
theorem shiftResult_reverse (hop : x.operator = .grev ∨ x.operator = .gorc) :
    shiftResult true x
      = reverse (gorcOp true x) (fun k => (shiftAmt true x).getLsbD k) x.operandA := by
  have hrev : (grevOp true x || gorcOp true x) = true := by
    rcases hop with ho | ho <;> simp [grevOp, gorcOp, ho]
  have hl : shiftLeft true x = false := by
    rcases hop with ho | ho <;> simp [shiftLeft, shiftSbmode, ho]
  simp only [shiftResult, hrev, hl, shiftOperandA, h.shiftEnable, Bits.gate_true, Bool.true_and,
    Bool.false_or, if_true]

/-- `GREV` reverses the bits, by the stages that the second operand turns on. -/
theorem result_grev (ho : x.operator = .grev) :
    result true x = Rvb.grev x.operandA x.operandB := by
  have hf : shiftFunnel true x = false := by simp [shiftFunnel, ho]
  have hgorc : gorcOp true x = false := by simp [gorcOp, ho]
  simp only [result, ho]
  rw [shiftResult_reverse h (Or.inl ho), hgorc]
  simp only [reverse, reverseStage_eq, Bool.false_eq_true, if_false, Rvb.grev,
    getLsbD_shiftAmt h hfirst hf (show 0 < 5 by omega),
    getLsbD_shiftAmt h hfirst hf (show 1 < 5 by omega),
    getLsbD_shiftAmt h hfirst hf (show 2 < 5 by omega),
    getLsbD_shiftAmt h hfirst hf (show 3 < 5 by omega),
    getLsbD_shiftAmt h hfirst hf (show 4 < 5 by omega)]

/-- `GORC` combines the bits with their reversals, by the stages that the second operand turns on.
-/
theorem result_gorc (ho : x.operator = .gorc) :
    result true x = Rvb.gorc x.operandA x.operandB := by
  have hf : shiftFunnel true x = false := by simp [shiftFunnel, ho]
  have hgorc : gorcOp true x = true := by simp [gorcOp, ho]
  simp only [result, ho]
  rw [shiftResult_reverse h (Or.inr ho), hgorc]
  simp only [reverse, reverseStage_eq, if_true, Rvb.gorc,
    getLsbD_shiftAmt h hfirst hf (show 0 < 5 by omega),
    getLsbD_shiftAmt h hfirst hf (show 1 < 5 by omega),
    getLsbD_shiftAmt h hfirst hf (show 2 < 5 by omega),
    getLsbD_shiftAmt h hfirst hf (show 3 < 5 by omega),
    getLsbD_shiftAmt h hfirst hf (show 4 < 5 by omega)]

/-- `SHFL` shuffles the bits, from the widest stage to the narrowest. -/
theorem result_shfl (ho : x.operator = .shfl) :
    result true x = Rvb.shfl x.operandA x.operandB := by
  have hf : shiftFunnel true x = false := by simp [shiftFunnel, ho]
  simp only [result, ho, rv32bOnly, if_true, shuffleResult, reduceCtorEq, if_false, shuffle,
    Rvb.shfl, getLsbD_shiftAmt h hfirst hf (show 0 < 5 by omega),
    getLsbD_shiftAmt h hfirst hf (show 1 < 5 by omega),
    getLsbD_shiftAmt h hfirst hf (show 2 < 5 by omega),
    getLsbD_shiftAmt h hfirst hf (show 3 < 5 by omega)]
  rfl

end

/-- The five bits of an index in the other order. -/
def flipIndex (i : BitVec 5) : BitVec 5 := i.reverse

/-- To turn an index around twice is to leave it. -/
theorem flipIndex_flipIndex (i : BitVec 5) : flipIndex (flipIndex i) = i :=
  BitVec.reverse_reverse_eq

/-- The flip reverses the bits of the indices. -/
theorem shuffleFlip_permutes : Rvb.Permutes shuffleFlip flipIndex := by
  rintro x ⟨k, hk⟩
  rw [Rvb.bit, Rvb.bit]
  interval_cases k <;> (simp [shuffleFlip]; rfl)

/-- The stages of a shuffle. -/
theorem shuffle_permutes (mode : ℕ → Bool) :
    Rvb.Permutes (shuffle mode) fun i =>
      Rvb.swapIf (mode 3) 3 (Rvb.swapIf (mode 2) 2 (Rvb.swapIf (mode 1) 1
        (Rvb.swapIf (mode 0) 0 i))) :=
  (((Rvb.shuffles_1.permutes.ite _).comp (Rvb.shuffles_2.permutes.ite _)).comp
    (Rvb.shuffles_4.permutes.ite _)).comp (Rvb.shuffles_8.permutes.ite _)

/-- Behind the flip a stage is the one at the other end. -/
theorem swapIf_flipIndex {j : ℕ} (hj : j < 4) (b : Bool) (i : BitVec 5) :
    Rvb.swapIf b j (flipIndex i) = flipIndex (Rvb.swapIf b (3 - j) i) := by
  revert i
  cases b with
  | false => exact fun _ => rfl
  | true => interval_cases j <;> decide

/-- A shuffle between two flips is an unshuffle. -/
theorem shuffle_flip_eq (a k : BitVec 32) :
    shuffleFlip (shuffle (fun j => k.getLsbD (3 - j)) (shuffleFlip a)) = Rvb.unshfl a k := by
  refine ((shuffleFlip_permutes.comp (shuffle_permutes _)).comp shuffleFlip_permutes).eq
    (Rvb.unshfl_permutes k) (fun i => ?_) a
  simp only [Rvb.unshflIndex]
  rw [swapIf_flipIndex (by omega), swapIf_flipIndex (by omega), swapIf_flipIndex (by omega),
    swapIf_flipIndex (by omega), flipIndex_flipIndex]

/-- `UNSHFL` takes the stages in the other order; the ALU gets it from the shuffle by turning the
word around on both sides. -/
theorem result_unshfl {x : AluIn} (h : Plain x) (hfirst : x.instrFirstCycle = true)
    (ho : x.operator = .unshfl) : result true x = Rvb.unshfl x.operandA x.operandB := by
  have hf : shiftFunnel true x = false := by simp [shiftFunnel, ho]
  have hmode : (fun j => (shiftAmt true x).getLsbD (3 - j))
      = fun j => x.operandB.getLsbD (3 - j) :=
    funext fun j => getLsbD_shiftAmt h hfirst hf (by omega)
  simp only [result, ho, rv32bOnly, if_true, shuffleResult, hmode]
  exact shuffle_flip_eq _ _

/-! ### Single bits, the smaller and the larger word -/

section

variable {x : AluIn} (h : Plain x)

include h

section

variable (hfirst : x.instrFirstCycle = true)

include hfirst

/-- `SBSET` sets a single bit. -/
theorem result_sbset (ho : x.operator = .sbset) :
    result true x = Rvb.sbset x.operandA x.operandB := by
  simp only [result, ho, rv32bOnly, if_true, singlebitResult]
  rw [shiftResult_sbmode h hfirst (by simp [shiftSbmode, ho]), Rvb.sbset]

/-- `SBCLR` clears a single bit. -/
theorem result_sbclr (ho : x.operator = .sbclr) :
    result true x = Rvb.sbclr x.operandA x.operandB := by
  simp only [result, ho, rv32bOnly, if_true, singlebitResult]
  rw [shiftResult_sbmode h hfirst (by simp [shiftSbmode, ho]), Rvb.sbclr]

/-- `SBINV` inverts a single bit. -/
theorem result_sbinv (ho : x.operator = .sbinv) :
    result true x = Rvb.sbinv x.operandA x.operandB := by
  simp only [result, ho, rv32bOnly, if_true, singlebitResult]
  rw [shiftResult_sbmode h hfirst (by simp [shiftSbmode, ho]), Rvb.sbinv]

end

/-- `MIN` is the smaller operand as signed numbers, by the comparison of the adder. -/
theorem result_min (ho : x.operator = .min) :
    result true x = Rvb.min x.operandA x.operandB := by
  have hge := isGreaterEqual_sub h (by rw [ho]; rfl)
  rw [ho, show cmpSigned .min = true from rfl, if_pos rfl] at hge
  simp only [result, ho, rv32bOnly, if_true, minmaxResult, cmpResult, hge, Bool.not_not, Rvb.min]

/-- `MINU` is the smaller operand as unsigned numbers. -/
theorem result_minu (ho : x.operator = .minu) :
    result true x = Rvb.minu x.operandA x.operandB := by
  have hge := isGreaterEqual_sub h (by rw [ho]; rfl)
  rw [ho, show cmpSigned .minu = false from rfl, if_neg (by decide)] at hge
  simp only [result, ho, rv32bOnly, if_true, minmaxResult, cmpResult, hge, Bool.not_not, Rvb.minu]

/-- `MAX` is the larger operand as signed numbers. -/
theorem result_max (ho : x.operator = .max) :
    result true x = Rvb.max x.operandA x.operandB := by
  have hge := isGreaterEqual_sub h (by rw [ho]; rfl)
  rw [ho, show cmpSigned .max = true from rfl, if_pos rfl] at hge
  simp only [result, ho, rv32bOnly, if_true, minmaxResult, cmpResult, hge, Rvb.max,
    BitVec.slt_eq_decide]
  rcases lt_trichotomy x.operandA.toInt x.operandB.toInt with hlt | heq | hgt
  · simp [hlt, hlt.le]
  · rw [BitVec.eq_of_toInt_eq heq]
    simp
  · simp [hgt, hgt.le]

/-- `MAXU` is the larger operand as unsigned numbers. -/
theorem result_maxu (ho : x.operator = .maxu) :
    result true x = Rvb.maxu x.operandA x.operandB := by
  have hge := isGreaterEqual_sub h (by rw [ho]; rfl)
  rw [ho, show cmpSigned .maxu = false from rfl, if_neg (by decide)] at hge
  simp only [result, ho, rv32bOnly, if_true, minmaxResult, cmpResult, hge, Rvb.maxu,
    BitVec.ult_eq_decide]
  rcases lt_trichotomy x.operandA.toNat x.operandB.toNat with hlt | heq | hgt
  · simp [hlt, hlt.le]
  · rw [BitVec.eq_of_toNat_eq heq]
    simp
  · simp [hgt, hgt.le]

end

/-! ### Counting -/

/-- The counter that stops at the first zero. -/
theorem foldl_bitcntStep_stop (bits : BitVec 32) (m : ℕ) :
    (List.range m).foldl (bitcntStep false bits) (true, 0#6)
      = (((List.range m).find? fun i => !bits.getLsbD i).isNone,
        BitVec.ofNat 6 (((List.range m).find? fun i => !bits.getLsbD i).getD m)) := by
  induction m with
  | zero => rfl
  | succ m ih =>
      rw [List.range_succ, List.foldl_append, ih, List.find?_append]
      cases (List.range m).find? fun i => !bits.getLsbD i with
      | some i => simp [bitcntStep]
      | none => cases hbit : bits.getLsbD m <;> simp [bitcntStep, hbit, BitVec.ofNat_add]

/-- The counter that counts all ones. -/
theorem foldl_bitcntStep_all (bits : BitVec 32) (m : ℕ) :
    (List.range m).foldl (bitcntStep true bits) (true, 0#6)
      = (true, BitVec.ofNat 6
        ((List.range m).foldl (fun count index => count + (bits.getLsbD index).toNat) 0)) := by
  induction m with
  | zero => rfl
  | succ m ih =>
      rw [List.range_succ, List.foldl_append, ih, List.foldl_append]
      cases hbit : bits.getLsbD m <;> simp [bitcntStep, hbit, BitVec.ofNat_add]

/-- There are no more ones than bits. -/
theorem count_le (bits : BitVec 32) (m : ℕ) :
    (List.range m).foldl (fun count index => count + (bits.getLsbD index).toNat) 0 ≤ m := by
  induction m with
  | zero => rfl
  | succ m ih =>
      have hbit := Bool.toNat_le (bits.getLsbD m)
      rw [List.range_succ, List.foldl_append, List.foldl_cons, List.foldl_nil]
      omega

/-- The first place is at most the number of places. -/
theorem find_getD_le (p : ℕ → Bool) (m : ℕ) : ((List.range m).find? p).getD m ≤ m := by
  cases hfind : (List.range m).find? p with
  | none => rfl
  | some i => exact (List.mem_range.mp (List.mem_of_find?_eq_some hfind)).le

/-- Six bits are enough for a count. -/
theorem setWidth_count {n : ℕ} (hn : n ≤ 32) :
    (BitVec.ofNat 6 n).setWidth 32 = BitVec.ofNat 32 n := by
  refine BitVec.eq_of_toNat_eq ?_
  rw [BitVec.toNat_setWidth, BitVec.toNat_ofNat, BitVec.toNat_ofNat]
  omega

section

variable {x : AluIn}

/-- `PCNT` counts the ones of the word, with the tree of adders of the bit counter. -/
theorem result_pcnt (ho : x.operator = .pcnt) : result true x = Rvb.pcnt x.operandA := by
  have hpcnt : (x.operator == AluOp.pcnt) = true := by rw [ho]; rfl
  simp only [result, ho, rv32bOnly, if_true]
  rw [bitcntResult, hpcnt, bitcntBits, if_pos ho, foldl_bitcntStep_all,
    setWidth_count (count_le x.operandA 32), Rvb.pcnt]

/-- `CTZ` counts the zeros below the lowest one. -/
theorem result_ctz (ho : x.operator = .ctz) : result true x = Rvb.ctz x.operandA := by
  have hpcnt : (x.operator == AluOp.pcnt) = false := by rw [ho]; rfl
  have hbits : bitcntBits x = ~~~x.operandA := by simp [bitcntBits, ho]
  simp only [result, ho, rv32bOnly, if_true]
  rw [bitcntResult, hpcnt, hbits, foldl_bitcntStep_stop, setWidth_count (find_getD_le _ 32),
    Rvb.ctz]
  congr 2
  refine List.find?_congr fun i hi => ?_
  simp [List.mem_range.mp hi]

/-- `CLZ` counts the zeros above the highest one, in the reversed word. -/
theorem result_clz (ho : x.operator = .clz) : result true x = Rvb.clz x.operandA := by
  have hpcnt : (x.operator == AluOp.pcnt) = false := by rw [ho]; rfl
  have hbits : bitcntBits x = ~~~operandARev x := by simp [bitcntBits, ho]
  simp only [result, ho, rv32bOnly, if_true]
  rw [bitcntResult, hpcnt, hbits, foldl_bitcntStep_stop, setWidth_count (find_getD_le _ 32),
    Rvb.clz]
  congr 2
  refine List.find?_congr fun i hi => ?_
  rw [operandARev, BitVec.getLsbD_not, Bits.getLsbD_gen]
  simp [List.mem_range.mp hi]

/-! ### Packing -/

/-- `PACK` puts the lower halves of the operands together. -/
theorem result_pack (ho : x.operator = .pack) :
    result true x = Rvb.pack x.operandA x.operandB := by
  simp only [result, ho, rv32bOnly, if_true, packResult, Rvb.pack]
  refine BitVec.eq_of_getLsbD_eq fun i hi => ?_
  rw [BitVec.getLsbD_append, BitVec.getLsbD_or]
  by_cases h16 : i < 16
  · simp [h16, hi, show 16 + i < 32 by omega]
  · have hhi : i - 16 < 16 := by omega
    have hlo : ¬ 16 + i < 32 := by omega
    simp only [h16, hhi, hlo, hi, BitVec.getLsbD_extractLsb', BitVec.getLsbD_shiftLeft,
      BitVec.getLsbD_ushiftRight, decide_true, decide_false, Bool.true_and, Bool.false_and,
      Bool.or_false, Bool.not_false, Nat.zero_add, if_false]

/-- `PACKU` puts their upper halves together. -/
theorem result_packu (ho : x.operator = .packu) :
    result true x = Rvb.packu x.operandA x.operandB := by
  simp only [result, ho, rv32bOnly, if_true, packResult, Rvb.packu]
  refine BitVec.eq_of_getLsbD_eq fun i hi => ?_
  rw [BitVec.getLsbD_append, BitVec.getLsbD_or]
  by_cases h16 : i < 16
  · simp [h16, hi]
  · have hhi : i - 16 < 16 := by omega
    have hlo : x.operandA.getLsbD (16 + i) = false := BitVec.getLsbD_of_ge _ _ (by omega)
    simp [h16, hi, hhi, hlo]

/-- The mask of a byte. -/
theorem getLsbD_255 {i : ℕ} (hi : i < 32) : (255#32).getLsbD i = decide (i < 8) := by
  interval_cases i <;> rfl

/-- `PACKH` puts their lower bytes together, with zeros above. -/
theorem result_packh (ho : x.operator = .packh) :
    result true x = Rvb.packh x.operandA x.operandB := by
  simp only [result, ho, rv32bOnly, if_true, packResult, Rvb.packh]
  refine BitVec.eq_of_getLsbD_eq fun i hi => ?_
  rw [BitVec.getLsbD_setWidth, BitVec.getLsbD_append, BitVec.getLsbD_or, BitVec.getLsbD_and,
    BitVec.getLsbD_shiftLeft, BitVec.getLsbD_and, getLsbD_255 hi, getLsbD_255 (by omega)]
  by_cases h8 : i < 8
  · simp [h8, hi]
  · by_cases h16 : i - 8 < 8
    · simp [h8, h16, hi]
    · simp [h8, h16]

end

/-! ### All instructions of one cycle -/

/-- The operator of an instruction. -/
def rvbOf : Rvb.Op → AluOp
  | .clz => .clz
  | .ctz => .ctz
  | .pcnt => .pcnt
  | .slo => .slo
  | .sro => .sro
  | .sbset => .sbset
  | .sbclr => .sbclr
  | .sbinv => .sbinv
  | .sbext => .sbext
  | .min => .min
  | .max => .max
  | .minu => .minu
  | .maxu => .maxu
  | .pack => .pack
  | .packu => .packu
  | .packh => .packh
  | .grev => .grev
  | .gorc => .gorc
  | .shfl => .shfl
  | .unshfl => .unshfl

/-- The ALU computes the reference functions. -/
theorem result_rvb {x : AluIn} (h : Plain x) (hfirst : x.instrFirstCycle = true) {o : Rvb.Op}
    (ho : x.operator = rvbOf o) : result true x = o.apply x.operandA x.operandB := by
  cases o with
  | clz => exact result_clz ho
  | ctz => exact result_ctz ho
  | pcnt => exact result_pcnt ho
  | slo => exact result_slo h hfirst ho
  | sro => exact result_sro h hfirst ho
  | sbset => exact result_sbset h hfirst ho
  | sbclr => exact result_sbclr h hfirst ho
  | sbinv => exact result_sbinv h hfirst ho
  | sbext => exact result_sbext h hfirst ho
  | min => exact result_min h ho
  | max => exact result_max h ho
  | minu => exact result_minu h ho
  | maxu => exact result_maxu h ho
  | pack => exact result_pack ho
  | packu => exact result_packu ho
  | packh => exact result_packh ho
  | grev => exact result_grev h hfirst ho
  | gorc => exact result_gorc h hfirst ho
  | shfl => exact result_shfl h hfirst ho
  | unshfl => exact result_unshfl h hfirst ho

/-- The inputs with the operands of an instruction. -/
def execute (x : AluIn) (o : Rvb.Op) (a b : BitVec 32) : BitVec 32 :=
  result true { x with operator := rvbOf o, operandA := a, operandB := b }

/-- What an instruction makes of its operands. -/
theorem execute_eq {x : AluIn} (h : Plain x) (hfirst : x.instrFirstCycle = true) (o : Rvb.Op)
    (a b : BitVec 32) : execute x o a b = o.apply a b := by
  have hplain : Plain { x with operator := rvbOf o, operandA := a, operandB := b } :=
    ⟨h.multdivSel, h.shiftEnable, h.adderEnable⟩
  exact result_rvb hplain hfirst rfl

/-- The permutations are undone by their inverses, the or-combine brings together what the
reversals by the parts of its control word do, the counters count, and every instruction is its
reference function. -/
theorem rvb_reference (x : AluIn) (h : Plain x) (hfirst : x.instrFirstCycle = true) :
    (∀ a k, execute x .grev (execute x .grev a k) k = a)
      ∧ (∀ a k, execute x .unshfl (execute x .shfl a k) k = a)
      ∧ (∀ a k, execute x .shfl (execute x .unshfl a k) k = a)
      ∧ (∀ a k i, Rvb.bit (execute x .gorc a k) i = true ↔
          ∃ s, Rvb.mask s &&& ~~~Rvb.mask k = 0#5 ∧ Rvb.bit (execute x .grev a s) i = true)
      ∧ (∀ a b, execute x .clz a b = a.clz)
      ∧ (∀ a b, execute x .ctz a b = a.ctz)
      ∧ (∀ a b, execute x .pcnt a b = a.cpop)
      ∧ (∀ b, execute x .clz 0#32 b = 32#32 ∧ execute x .ctz 0#32 b = 32#32)
      ∧ ∀ o a b, execute x o a b = o.apply a b := by
  have hexec := execute_eq h hfirst
  refine ⟨fun a k => ?_, fun a k => ?_, fun a k => ?_, fun a k i => ?_, fun a b => ?_,
    fun a b => ?_, fun a b => ?_, fun b => ⟨?_, ?_⟩, hexec⟩
  · rw [hexec, hexec]
    exact Rvb.grev_grev a k
  · rw [hexec, hexec]
    exact Rvb.unshfl_shfl a k
  · rw [hexec, hexec]
    exact Rvb.shfl_unshfl a k
  · simp only [hexec]
    exact Rvb.bit_gorc a k i
  · rw [hexec]
    exact Rvb.clz_eq a
  · rw [hexec]
    exact Rvb.ctz_eq a
  · rw [hexec]
    exact Rvb.pcnt_eq a
  · rw [hexec]
    rfl
  · rw [hexec]
    rfl

/-- The inputs of the ALU in the first cycle of an instruction, with all enables set. -/
def plainIn : AluIn where
  operator := .add
  operandA := 0#32
  operandB := 0#32
  instrFirstCycle := true
  multdivOperandA := 0#33
  multdivOperandB := 0#33
  multdivSel := false
  shiftEnable := true
  adderEnable := true
  imdValQ := 0#32

/-- The reversal of all bits and of all bytes. -/
theorem rvb_reference_rev :
    execute plainIn .grev 0x12345678#32 31#32 = 0x1E6A2C48#32
      ∧ execute plainIn .grev 0x12345678#32 24#32 = 0x78563412#32 := by
  have hexec := (rvb_reference plainIn ⟨rfl, rfl, rfl⟩ rfl).2.2.2.2.2.2.2.2
  rw [hexec, hexec]
  decide

end Alu

end CocoIbex
