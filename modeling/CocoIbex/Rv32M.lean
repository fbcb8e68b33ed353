import Mathlib.Tactic

/-!
# The Multiplications and Divisions of RV32

The eight instructions of the M extension: their funct3, the signedness of their operands, and
their results. A division truncates; the quotient of a division by zero is all ones and its
remainder the dividend. `quotient_eq` and `remainder_eq` say what a signed division is in terms
of the absolute values.

An operand has a value as an integer, signed or unsigned by the instruction (`value`), and the
results are those of integer arithmetic, cut to a word. So the eight instructions need no case
of their own: a product has two halves, and a division a quotient and a remainder. The overflow
of a signed division is not a case either, since the word of the quotient is the dividend again.

## Main results

* `MulDiv.quotient_eq` and `MulDiv.remainder_eq` — a signed division by the division of the
  absolute values, with the signs put in afterwards;
* `changeSign_eq_zero` — the absolute value is zero for zero only.
-/

namespace Rv32

/-- The instructions of the M extension. -/
inductive MulDiv
  | mul | mulh | mulhsu | mulhu | div | divu | rem | remu
  deriving DecidableEq, Repr

namespace MulDiv

/-- The funct3. -/
def funct3 : MulDiv → BitVec 3
  | .mul => 0b000#3
  | .mulh => 0b001#3
  | .mulhsu => 0b010#3
  | .mulhu => 0b011#3
  | .div => 0b100#3
  | .divu => 0b101#3
  | .rem => 0b110#3
  | .remu => 0b111#3

/-- The divisions. -/
def isDiv : MulDiv → Bool
  | .div | .divu | .rem | .remu => true
  | _ => false

/-- The first operand is signed. The low half of a product is that of either kind. -/
def signedA : MulDiv → Bool
  | .mulh | .mulhsu | .div | .rem => true
  | _ => false

/-- The second operand is signed. -/
def signedB : MulDiv → Bool
  | .mulh | .div | .rem => true
  | _ => false

end MulDiv

/-- A word as a number. -/
def value (signed : Bool) (v : BitVec 32) : ℤ := if signed then v.toInt else v.toNat

namespace MulDiv

variable (op : MulDiv) (a b : BitVec 32)

/-- The exact product. -/
def product : ℤ := value op.signedA a * value op.signedB b

/-- The quotient, rounded towards zero. -/
def quotient : BitVec 32 :=
  if b = 0#32 then BitVec.allOnes 32
  else BitVec.ofInt 32 ((value op.signedA a).tdiv (value op.signedB b))

/-- The remainder, with the sign of the dividend. -/
def remainder : BitVec 32 :=
  if b = 0#32 then a else BitVec.ofInt 32 ((value op.signedA a).tmod (value op.signedB b))

/-- The result. -/
def exec : BitVec 32 :=
  match op with
  | .mul => BitVec.ofInt 32 (op.product a b)
  | .mulh | .mulhsu | .mulhu => BitVec.ofInt 32 (op.product a b / 2 ^ 32)
  | .div | .divu => op.quotient a b
  | .rem | .remu => op.remainder a b

/-- The quotient that overflows. -/
example : exec .div 0x80000000#32 0xffffffff#32 = 0x80000000#32 ∧
    exec .rem 0x80000000#32 0xffffffff#32 = 0#32 := by
  decide

end MulDiv

/-! ### Sign and absolute value -/

/-- A word with its sign changed, or as it is. -/
def changeSign (s : Bool) (v : BitVec 32) : BitVec 32 := if s then 0#32 - v else v

/-- A number by its sign and its absolute value. -/
theorem value_eq (signed : Bool) (v : BitVec 32) :
    value signed v = if v.getLsbD 31 && signed then -((changeSign true v).toNat : ℤ)
      else (v.toNat : ℤ) := by
  have hmsb : v.getLsbD 31 = decide (2 ^ 31 ≤ v.toNat) :=
    (BitVec.msb_eq_getLsbD_last v).symm.trans (BitVec.msb_eq_decide v)
  have hv := v.isLt
  rw [value, hmsb, BitVec.toInt_eq_toNat_cond]
  cases signed with
  | false => simp
  | true =>
      simp only [changeSign, if_true, BitVec.toNat_sub, BitVec.toNat_ofNat, Bool.and_true,
        decide_eq_true_eq, Nat.zero_mod]
      split_ifs <;> omega

/-- The number that a word stands for, up to its sign. -/
theorem value_changeSign (signed : Bool) (v : BitVec 32) :
    value signed v = if v.getLsbD 31 && signed
      then -((changeSign (v.getLsbD 31 && signed) v).toNat : ℤ)
      else ((changeSign (v.getLsbD 31 && signed) v).toNat : ℤ) := by
  rw [value_eq]
  cases v.getLsbD 31 && signed <;> rfl

/-- The word of a number and of its opposite. -/
theorem ofInt_changeSign (s : Bool) (n : ℕ) :
    BitVec.ofInt 32 (if s then -(n : ℤ) else n) = changeSign s (BitVec.ofNat 32 n) := by
  cases s with
  | false => simp [changeSign, BitVec.ofInt_natCast]
  | true => simp [changeSign, BitVec.ofInt_neg, BitVec.ofInt_natCast]

variable (op : MulDiv) (a b : BitVec 32)

/-- The absolute value of the first operand. -/
def MulDiv.absA : BitVec 32 := changeSign (a.getLsbD 31 && op.signedA) a

/-- The absolute value of the second operand. -/
def MulDiv.absB : BitVec 32 := changeSign (b.getLsbD 31 && op.signedB) b

/-- The quotient is that of the absolute values, with the sign that differs. -/
theorem MulDiv.quotient_eq (hb : b ≠ 0#32) :
    op.quotient a b = changeSign ((a.getLsbD 31 && op.signedA) ^^ (b.getLsbD 31 && op.signedB))
      (BitVec.ofNat 32 ((op.absA a).toNat / (op.absB b).toNat)) := by
  rw [quotient, if_neg hb, value_changeSign op.signedA, value_changeSign op.signedB,
    ← ofInt_changeSign]
  congr 1
  simp only [absA, absB]
  cases a.getLsbD 31 && op.signedA <;> cases b.getLsbD 31 && op.signedB <;>
    simp [Int.neg_tdiv, Int.tdiv_neg]

/-- The remainder is that of the absolute values, with the sign of the dividend. -/
theorem MulDiv.remainder_eq (hb : b ≠ 0#32) :
    op.remainder a b = changeSign (a.getLsbD 31 && op.signedA)
      (BitVec.ofNat 32 ((op.absA a).toNat % (op.absB b).toNat)) := by
  rw [remainder, if_neg hb, value_changeSign op.signedA, value_changeSign op.signedB,
    ← ofInt_changeSign]
  congr 1
  simp only [absA, absB]
  cases a.getLsbD 31 && op.signedA <;> cases b.getLsbD 31 && op.signedB <;>
    simp [Int.neg_tmod, Int.tmod_neg, Int.tmod_eq_emod_of_nonneg]

/-- The absolute value is zero for zero only. -/
theorem changeSign_eq_zero (s : Bool) (v : BitVec 32) : changeSign s v = 0#32 ↔ v = 0#32 := by
  cases s with
  | false => rfl
  | true => simp [changeSign]

end Rv32
