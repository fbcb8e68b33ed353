import CocoIbex.Bits

/-!
# The Register File

`ibex_register_file_ff`: thirty-two registers of which the first reads as zero. The secure
builds mask every port with one-hot enables: a write stores the data and-ed with the write
enable of the register, a read or-s all registers, each and-ed with its read enable.

The structure `RegisterFile` has the zero of its first register as a field, so that no other
file can be built. A write to register zero is decoded to no register, as in the source.

The two kinds of masks differ in what a missing enable does. A write without its enable stores a
zero into the register, for the data are masked and not the decoded address. A read without an
enable shows zero, and one with two enables the or of two registers.

## Main results

* `write_of_ne` and `write_of_not_we` — what a write leaves as it is;
* `readSecure_eq` — the masked read under enables for at most one register;
* `writeSecure_eq_write` and `writeSecure_eq_write_zero` — the masked write with and without its
  enable;
* `write_eq_write_iff` — when two writes to a register do the same.
-/

namespace CocoIbex

/-- The registers; register 0 is nil. -/
structure RegisterFile where
  rfReg : BitVec 5 → BitVec 32
  rfReg_zero : rfReg 0#5 = 0#32

namespace RegisterFile

/-- The zero file keeps x0 zero. -/
theorem const_zero : (fun _ : BitVec 5 => 0#32) 0#5 = 0#32 := rfl

/-- `we_a_dec`, the write enable of a register; register 0 has none. -/
def weADec (we : Bool) (waddr r : BitVec 5) : Bool :=
  decide (r ≠ 0#5) && if waddr = r then we else false

/-- A write of the build without `REGWRITE_SECURE`. -/
def write (rf : RegisterFile) (we : Bool) (waddr : BitVec 5) (wdata : BitVec 32) :
    RegisterFile where
  rfReg r := if weADec we waddr r then wdata else rf.rfReg r
  rfReg_zero := by simp [weADec, rf.rfReg_zero]

/-- A write of the secure build, masked with the one-hot enables. -/
def writeSecure (rf : RegisterFile) (enable : BitVec 32) (we : Bool) (waddr : BitVec 5)
    (wdata : BitVec 32) : RegisterFile where
  rfReg r :=
    if weADec we waddr r then Bits.gate (enable.getLsbD r.toNat) wdata else rf.rfReg r
  rfReg_zero := by simp [weADec, rf.rfReg_zero]

/-- A read of the build without `REGREAD_SECURE`. -/
def read (rf : RegisterFile) (raddr : BitVec 5) : BitVec 32 := rf.rfReg raddr

/-- `reg_read_with_read_enable`: the enabled registers or-ed together. -/
def readSecure (rf : RegisterFile) (enable : BitVec 32) : BitVec 32 :=
  (List.range 32).foldl
    (fun rdata k => rdata ||| Bits.gate (enable.getLsbD k) (rf.rfReg (BitVec.ofNat 5 k))) 0#32

/-- Two register files are equal when their registers are. -/
theorem ext {rf rf' : RegisterFile} (h : ∀ r, rf.rfReg r = rf'.rfReg r) : rf = rf' := by
  obtain ⟨f, _⟩ := rf
  obtain ⟨f', _⟩ := rf'
  obtain rfl : f = f' := funext h
  rfl

/-- A write leaves every other register as it is. -/
theorem write_of_ne (rf : RegisterFile) (we : Bool) {waddr r : BitVec 5} (wdata : BitVec 32)
    (h : r ≠ waddr) : (rf.write we waddr wdata).rfReg r = rf.rfReg r := by
  simp [write, weADec, h.symm]

/-- The masked write is the plain one when the written register is enabled. -/
theorem writeSecure_eq_write (rf : RegisterFile) {enable : BitVec 32} (we : Bool)
    {waddr : BitVec 5} (wdata : BitVec 32) (h : enable.getLsbD waddr.toNat = true) :
    rf.writeSecure enable we waddr wdata = rf.write we waddr wdata := by
  refine ext fun r => ?_
  by_cases hr : waddr = r
  · subst hr
    simp only [writeSecure, write, h, Bits.gate_true]
  · simp [writeSecure, write, weADec, hr]

/-- A masked write to a register that is not enabled is a write of zero. -/
theorem writeSecure_eq_write_zero (rf : RegisterFile) {enable : BitVec 32} (we : Bool)
    {waddr : BitVec 5} (wdata : BitVec 32) (h : enable.getLsbD waddr.toNat = false) :
    rf.writeSecure enable we waddr wdata = rf.write we waddr 0#32 := by
  refine ext fun r => ?_
  by_cases hr : waddr = r
  · subst hr
    simp [writeSecure, write, h]
  · simp [writeSecure, write, weADec, hr]

/-- Without a write enable nothing is written. -/
theorem write_of_not_we (rf : RegisterFile) (waddr : BitVec 5) (wdata : BitVec 32) :
    rf.write false waddr wdata = rf := by
  refine ext fun r => ?_
  simp [write, weADec]

/-- Without a write enable the masked file stores nothing either. -/
theorem writeSecure_of_not_we (rf : RegisterFile) (enable : BitVec 32) (waddr : BitVec 5)
    (wdata : BitVec 32) : rf.writeSecure enable false waddr wdata = rf := by
  refine ext fun r => ?_
  simp [writeSecure, weADec]

/-- Two writes to a register store the same exactly when they have the same data, or the
register is nil. -/
theorem write_eq_write_iff (rf : RegisterFile) {waddr : BitVec 5} {v w : BitVec 32} :
    rf.write true waddr v = rf.write true waddr w ↔ waddr = 0#5 ∨ v = w := by
  constructor
  · intro h
    have hr := congrFun (congrArg rfReg h) waddr
    by_cases h0 : waddr = 0#5
    · exact Or.inl h0
    · exact Or.inr (by simpa [write, weADec, h0] using hr)
  · rintro (rfl | rfl)
    · refine ext fun r => ?_
      have hno : weADec true 0#5 r = false := by
        by_cases h : r = 0#5 <;> simp [weADec, h, eq_comm]
      simp [write, hno]
    · rfl

/-- Or-ing values of which at most the one at `addr` is not zero. -/
theorem foldl_or_of_single (f : ℕ → BitVec 32) (addr : ℕ) (h : ∀ k, k ≠ addr → f k = 0#32)
    (l : List ℕ) (a : BitVec 32) :
    l.foldl (fun acc k => acc ||| f k) a = a ||| if addr ∈ l then f addr else 0#32 := by
  induction l generalizing a with
  | nil => simp
  | cons k l ih =>
      rw [List.foldl_cons, ih]
      by_cases hk : k = addr
      · subst hk
        by_cases hl : k ∈ l
        · simp [hl, BitVec.or_assoc]
        · simp [hl]
      · simp [h k hk, Ne.symm hk]

/-- The masked read under enables that select at most the register `addr`. -/
theorem readSecure_eq (rf : RegisterFile) (addr : BitVec 5) (re : Bool) :
    rf.readSecure (Bits.gen 32 fun k => if addr = BitVec.ofNat 5 k then re else false)
      = if re then rf.read addr else 0#32 := by
  have haddr : addr.toNat < 32 := addr.isLt
  rw [readSecure, foldl_or_of_single _ addr.toNat, if_pos (List.mem_range.mpr haddr)]
  · cases re with
    | false => simp [haddr]
    | true => simp [haddr, read]
  · intro k hk
    by_cases hk32 : k < 32
    · have hne : addr ≠ BitVec.ofNat 5 k := by
        rintro rfl
        simp [Nat.mod_eq_of_lt hk32] at hk
      simp [hne]
    · simp [hk32]

end RegisterFile

end CocoIbex
