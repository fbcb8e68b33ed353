import CocoIbex.FetchStream
import CocoIbex.LsuRam
import CocoIbex.Rv32Decode
import CocoIbex.Rv32M
import CocoIbex.Rvc

/-!
# The Machine of RV32IMC

What software sees of a hart that runs RV32IMC and meets no trap: the address of the next
instruction, the registers, and a memory of bytes for its data. The instructions come from a
memory of their own. One step executes one instruction.

The instruction at an address is the one whose encoding is there (`HasInsn`), in two half words
or in one; the machine has no decoder. A step applies the effect of the instruction to the
state: it writes the register, makes the access on the memory of bytes, and goes to the next
address. An instruction without an effect has no step, so a program that traps gets stuck in
this machine.

The memory is the one of the secure RAM, whose addresses wrap around.

No result is stated in this module. `Encodings` has that a state has at most one next state, and
`TopRefines` that the top level makes these steps.
-/

namespace Rv32

open CocoIbex

/-- The instructions of RV32IM. -/
inductive ImInsn
  | base (i : Base)
  | mulDiv (op : MulDiv) (rs2 rs1 rd : BitVec 5)
  deriving DecidableEq

/-- The word of an instruction. -/
def ImInsn.encode : ImInsn → BitVec 32
  | .base i => i.encode
  | .mulDiv op rs2 rs1 rd => rType 0b0000001#7 rs2 rs1 op.funct3 rd 0x33#7

/-- The effect of an instruction that is `len` bytes long at `pc`. -/
def ImInsn.effect (pc len : BitVec 32) (reg : BitVec 5 → BitVec 32) : ImInsn → Option Effect
  | .base i => i.effect pc len reg
  | .mulDiv op rs2 rs1 rd =>
    some { write := some (rd, op.exec (reg rs1) (reg rs2)), nextPc := pc + len }

/-- The access as the memory of bytes sees it. -/
def Access.memOp (a : Access) : MemOp where
  we := a.store.isSome
  type := dataTypeOf a.size
  signExt := (a.load.map Prod.snd).getD false
  base := a.addr
  imm := 0#32
  wdata := a.store.getD 0#32

/-- The registers with a new value of `rd`; register 0 is nil. -/
def setReg (reg : BitVec 5 → BitVec 32) (rd : BitVec 5) (v : BitVec 32) (r : BitVec 5) :
    BitVec 32 :=
  if r = rd ∧ r ≠ 0#5 then v else reg r

/-- The state that software sees, with `2 ^ (n + 2)` bytes of memory. -/
structure Arch (n : ℕ) where
  pc : BitVec 31
  reg : BitVec 5 → BitVec 32
  mem : BitVec (n + 2) → BitVec 8

/-- The value that the instruction writes, and its register. -/
def Effect.result {n : ℕ} (e : Effect) (mem : BitVec (n + 2) → BitVec 8) :
    Option (BitVec 5 × BitVec 32) :=
  e.write.or (e.access.bind fun a => a.load.map fun l => (l.1, a.memOp.value mem))

/-- The state after the effect. -/
def Effect.apply {n : ℕ} (e : Effect) (s : Arch n) : Arch n where
  pc := e.nextPc.extractLsb' 1 31
  reg := (e.result s.mem).elim s.reg fun w => setReg s.reg w.1 w.2
  mem := e.access.elim s.mem fun a => a.memOp.store s.mem

/-- The instruction at `pc`, and whether it is compressed. -/
inductive HasInsn (m : FetchMem) (pc : BitVec 31) : ImInsn → Bool → Prop
  | full {i : ImInsn} (h : i.encode = m.half (pc + 1#31) ++ m.half pc) : HasInsn m pc i false
  | compressed {c : Rvc.Insn} (h : c.encode = m.half pc) : HasInsn m pc (.base c.expand) true

/-- One instruction is executed. -/
def Step (m : FetchMem) {n : ℕ} (s s' : Arch n) : Prop :=
  ∃ i c e, HasInsn m s.pc i c ∧
    i.effect (s.pc ++ 0#1) (if c then 2#32 else 4#32) s.reg = some e ∧ s' = e.apply s

end Rv32
