import CocoIbex.CompressedDecoder
import CocoIbex.WbHazard

/-!
# Secure Register Writes with a Write-Back Stage

The write enables of the secure build are registers between IF and ID, and the register file
masks its data with them in the cycle of the write. With a write-back stage that is a cycle or
more after the instruction has left ID, when the enables may be those of another word. `WbMask`
is the three-stage core with masked writes and with what is needed to say which: the enables of
the instruction in write-back, and the word that replaced them.

The two sets of enables are the same if the next word has the same destination, or if no word
has taken the place of the instruction yet, and the masked write is then what it would be in the
two-stage core. The condition is thus on the word that replaces an instruction and on the
instruction itself (`SameDestination`), and the statement is on all cycles of a run.

## Main results

* `inv_next` — the step lemma: what is in write-back has left ID with the enables that are kept
  beside it;
* `write_masks_aligned_iff` — the enables in ID are those of the write-back stage, throughout a
  run, if and only if every word that replaces an instruction has its destination.
-/

namespace CocoIbex

namespace WbCore

variable (cfg : Config) (s : WbCore) (x : WbCoreIn)

/-- A register is written from the write-back stage. -/
def writesReg : Bool := s.wb.rfWeWb (wbIn cfg s x) && s.wb.rfWaddrWbQ != 0#5

/-- The register file of the build with `REGWRITE_SECURE` after the cycle. -/
def rfNextSecure : RegisterFile :=
  s.rf.writeSecure s.ifId.rfWriteEnable (s.wb.rfWeWb (wbIn cfg s x)) s.wb.rfWaddrWbQ
    (s.wb.rfWdataWb (wbIn cfg s x))

/-- One clock edge of the build with `REGWRITE_SECURE`. -/
def nextSecure : WbCore := { next cfg s x with rf := rfNextSecure cfg s x }

/-- The enabled register takes the data of the write-back stage. -/
theorem rfNextSecure_of_enabled
    (hw : writesReg cfg s x = true)
    (hen : s.ifId.rfWriteEnable.getLsbD s.wb.rfWaddrWbQ.toNat = true) :
    (rfNextSecure cfg s x).read s.wb.rfWaddrWbQ = s.wb.rfWdataWb (wbIn cfg s x) := by
  simp only [writesReg, Bool.and_eq_true, bne_iff_ne] at hw
  rw [rfNextSecure, RegisterFile.writeSecure_eq_write _ _ _ hen, hw.1]
  simp [RegisterFile.read, RegisterFile.write, RegisterFile.weADec, hw.2]

end WbCore

/-- The core with masked writes, and the history of its write enables. -/
structure WbMask where
  core : WbCore
  /-- `rf_write_enable` when the instruction in write-back left ID -/
  retiring : BitVec 32
  /-- the word on the fetch port when ID was last ready, in the cycle in which the
  instruction in write-back left it or later -/
  later : Option (BitVec 32)

namespace WbMask

variable (cfg : Config) (o : WbMask) (x : WbCoreIn)

/-- After a reset. -/
def reset : WbMask := ⟨.reset, 0#32, none⟩

/-- One clock edge. -/
def next : WbMask where
  core := WbCore.nextSecure cfg o.core x
  retiring := if WbCore.enWb cfg o.core x then o.core.ifId.rfWriteEnable else o.retiring
  later :=
    if (WbCore.ifIdIn cfg o.core x).idInReady then some x.fetchRdata
    else if WbCore.enWb cfg o.core x then none
    else o.later

/-- The write-back stage writes a register other than x0, which the enables of the
instruction in write-back named when it left ID. -/
def Retires : Prop :=
  WbCore.writesReg cfg o.core x = true ∧
    o.retiring.getLsbD o.core.wb.rfWaddrWbQ.toNat = true

/-- A register that the instruction in write-back writes under its own enables is enabled
in the cycle of the write, and takes the data. -/
def Aligned : Prop :=
  Retires cfg o x →
    o.core.ifId.rfWriteEnable.getLsbD o.core.wb.rfWaddrWbQ.toNat = true ∧
      (next cfg o x).core.rf.read o.core.wb.rfWaddrWbQ
        = o.core.wb.rfWdataWb (WbCore.wbIn cfg o.core x)

/-- The word that replaced the enables of the instruction in write-back, if there is one, is
the word of an instruction with the same destination. -/
def SameDestination : Prop :=
  Retires cfg o x → ∀ w, o.later = some w →
    (compressedDecoder w).writeReg = true ∧
      (compressedDecoder w).writeAddress = o.core.wb.rfWaddrWbQ

/-- It is seen in the state and the input. -/
instance : Decidable (Retires cfg o x) := inferInstanceAs (Decidable (_ ∧ _))

/-- So is the alignment of the masks. -/
instance : Decidable (Aligned cfg o x) := inferInstanceAs (Decidable (_ → _ ∧ _))

/-- The enables are those of the instruction in write-back, or of the word that replaced
them. -/
def Inv (o : WbMask) : Prop :=
  o.core.ifId.rfWriteEnable =
    match o.later with
    | none => o.retiring
    | some w => (compressedDecoder w).rfWriteEnable

/-- The masks are aligned after a reset: nothing is in write-back. -/
theorem inv_reset : Inv reset := rfl

variable {cfg o x}

/-- The enables change only when ID is ready. -/
theorem rfWriteEnable_next :
    (next cfg o x).core.ifId.rfWriteEnable =
      if (WbCore.ifIdIn cfg o.core x).idInReady then (compressedDecoder x.fetchRdata).rfWriteEnable
      else o.core.ifId.rfWriteEnable := rfl

/-- One cycle keeps the invariant. -/
theorem inv_next (hi : Inv o) : Inv (next cfg o x) := by
  rw [Inv, rfWriteEnable_next]
  cases hr : (WbCore.ifIdIn cfg o.core x).idInReady with
  | true => simp [next, hr]
  | false =>
      cases hen : WbCore.enWb cfg o.core x with
      | true => simp [next, hr, hen]
      | false =>
          rw [Inv] at hi
          simp [next, hr, hen, hi]

/-- The masks are aligned in a cycle exactly when the word that replaced the enables has the
destination that is written. -/
theorem aligned_iff (hi : Inv o) : Aligned cfg o x ↔ SameDestination cfg o x := by
  constructor
  · intro h hret w hw
    have hen := (h hret).1
    rw [hi, hw] at hen
    simpa [CompressedOut.rfWriteEnable_toNat, and_comm] using hen
  · intro h hret
    have hen : o.core.ifId.rfWriteEnable.getLsbD o.core.wb.rfWaddrWbQ.toNat = true := by
      rw [hi]
      cases hl : o.later with
      | none => exact hret.2
      | some w =>
          obtain ⟨hwe, hd⟩ := h hret w hl
          simp [CompressedOut.rfWriteEnable_toNat, hwe, hd]
    exact ⟨hen, WbCore.rfNextSecure_of_enabled cfg o.core x hret.1 hen⟩

/-- **Secure register writes with a write-back stage.** In every run, the write enables are
aligned with the write-back stage in all its cycles if and only if, in each cycle in which it
writes, the word that has meanwhile replaced the enables has the destination that is written. -/
theorem write_masks_aligned_iff (cfg : Config) (ins : List WbCoreIn) :
    Machine.Along (next cfg) (Aligned cfg) reset ins ↔
      Machine.Along (next cfg) (SameDestination cfg) reset ins :=
  Machine.along_congr Inv (fun _ _ => inv_next) (fun _ _ => aligned_iff) inv_reset ins

/-- `addi x1, x0, 5` leaves ID when `addi x2, x0, 2` comes, and its result is masked to zero
in the next cycle. -/
theorem write_mask_replaced :
    let ins := [WbCore.idleIn, WbCore.idleIn, WbCore.idleIn,
      WbCore.fetchIn 0x00500093#32 0#32, WbCore.fetchIn 0x00200113#32 5#32]
    let o := Machine.run (next Core.smallConfig) reset ins
    ¬ Machine.Along (next Core.smallConfig) (Aligned Core.smallConfig) reset
        (ins ++ [WbCore.idleIn]) ∧
      o.core.wb.rfWaddrWbQ = 1#5 ∧ o.core.wb.rfWdataWbQ = 5#32 ∧
      (next Core.smallConfig o WbCore.idleIn).core.rf.read 1#5 = 0#32 := by
  decide +kernel

end WbMask

end CocoIbex
