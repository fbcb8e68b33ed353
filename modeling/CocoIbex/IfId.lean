import CocoIbex.CompressedDecoder
import CocoIbex.Machine

/-!
# The IF-ID Pipeline Registers

The registers of `ibex_if_stage` between the fetch and the decode of an instruction. The
instruction and its flags are loaded when a fetched word is handed over; the enables of the
secure build are loaded whenever ID is ready, whether or not a word is there. What holds of them
together in every cycle with a valid instruction is `ifId_valid`.

The two groups of registers have different conditions for loading, and in a cycle in which ID is
ready and no word is there, the enables are those of whatever the fetch unit shows. The
instruction in ID has gone by then, or goes in the same cycle, so its valid bit is not set
behind it. This is what the invariant says: with a valid instruction, both groups are from the
word that was handed over last (`lastWord`).

## Main results

* `next_eq_ofWord` — registers that hold a word in a valid cycle hold it, or the one handed
  over, in the next;
* `ifId_valid` — in every run, all registers belong to the word handed over last;
* `enables_belong` — the enables belong to the instruction in ID, whatever is stalled, halted,
  flushed and redirected.
-/

namespace CocoIbex

/-- The pipeline registers. -/
structure IfIdReg where
  instrValidId : Bool
  instrRdataId : BitVec 32
  illegalCInsnId : Bool
  instrIsCompressedId : Bool
  rfReadEnableA : BitVec 32
  rfReadEnableB : BitVec 32
  rfWriteEnable : BitVec 32
  mdEnable : Bool
  shiftEnable : Bool
  adderEnable : Bool
  csrEnable : Bool
  deriving DecidableEq, Repr

/-- What the registers see in one cycle: the fetch port, and the stall, halt and flush
signals of the controller. -/
structure IfIdIn where
  fetchValid : Bool
  fetchRdata : BitVec 32
  pcSet : Bool
  stall : Bool
  haltIf : Bool
  flushId : Bool

namespace IfIdIn

/-- `id_in_ready_o` of the controller. -/
def idInReady (x : IfIdIn) : Bool := !x.stall && !x.haltIf

/-- `instr_valid_clear_o` of the controller. -/
def instrValidClear (x : IfIdIn) : Bool := !(x.stall || x.haltIf) || x.flushId

/-- A cycle that hands over the word `w`. -/
def fetch (w : BitVec 32) : IfIdIn where
  fetchValid := true
  fetchRdata := w
  pcSet := false
  stall := false
  haltIf := false
  flushId := false

/-- `instr_new_id_d`: a fetched word is handed over to ID. -/
def instrNewId (x : IfIdIn) : Bool := x.fetchValid && x.idInReady

end IfIdIn

namespace IfIdReg

/-- The registers that hold the fetched word `w` and its decoded enables. -/
def ofWord (w : BitVec 32) : IfIdReg :=
  let o := compressedDecoder w
  { instrValidId := true
    instrRdataId := o.instr
    illegalCInsnId := o.illegalInstr
    instrIsCompressedId := isCompressed w
    rfReadEnableA := o.rfReadEnableA
    rfReadEnableB := o.rfReadEnableB
    rfWriteEnable := o.rfWriteEnable
    mdEnable := o.mdEnable
    shiftEnable := o.shiftEnable
    adderEnable := o.adderEnable
    csrEnable := o.csrEnable }

/-- The registers after a reset; the instruction register has none and is taken as zero. -/
def reset : IfIdReg where
  instrValidId := false
  instrRdataId := 0#32
  illegalCInsnId := false
  instrIsCompressedId := false
  rfReadEnableA := 0#32
  rfReadEnableB := 0#32
  rfWriteEnable := 0#32
  mdEnable := false
  shiftEnable := false
  adderEnable := true
  csrEnable := false

/-- One clock edge. -/
def next (s : IfIdReg) (x : IfIdIn) : IfIdReg :=
  let o := compressedDecoder x.fetchRdata
  let load {α : Type} (we : Bool) (new old : α) : α := if we then new else old
  { instrValidId :=
      (x.fetchValid && x.idInReady && !x.pcSet) || (s.instrValidId && !x.instrValidClear)
    instrRdataId := load x.instrNewId o.instr s.instrRdataId
    illegalCInsnId := load x.instrNewId o.illegalInstr s.illegalCInsnId
    instrIsCompressedId := load x.instrNewId (isCompressed x.fetchRdata) s.instrIsCompressedId
    rfReadEnableA := load x.idInReady o.rfReadEnableA s.rfReadEnableA
    rfReadEnableB := load x.idInReady o.rfReadEnableB s.rfReadEnableB
    rfWriteEnable := load x.idInReady o.rfWriteEnable s.rfWriteEnable
    mdEnable := load x.idInReady o.mdEnable s.mdEnable
    shiftEnable := load x.idInReady o.shiftEnable s.shiftEnable
    adderEnable := load x.idInReady o.adderEnable s.adderEnable
    csrEnable := load x.idInReady o.csrEnable s.csrEnable }

/-- The word handed over to ID last. -/
def lastWord (ins : List IfIdIn) : Option (BitVec 32) :=
  ((ins.filter IfIdIn.instrNewId).map IfIdIn.fetchRdata).getLast?

/-- The word handed over last, one cycle later. -/
theorem lastWord_concat (ins : List IfIdIn) (x : IfIdIn) :
    lastWord (ins ++ [x]) = if x.instrNewId then some x.fetchRdata else lastWord ins := by
  cases h : x.instrNewId <;> simp [lastWord, h]

/-- ID is ready only when the instruction in it is cleared. -/
theorem instrValidClear_of_idInReady {x : IfIdIn} (h : x.idInReady = true) :
    x.instrValidClear = true := by
  simp only [IfIdIn.idInReady, Bool.and_eq_true, Bool.not_eq_true'] at h
  simp [IfIdIn.instrValidClear, h.1, h.2]

/-- Registers that hold a word in a valid cycle hold it, or the one handed over, in the
next. -/
theorem next_eq_ofWord {s : IfIdReg} {w : BitVec 32} (x : IfIdIn)
    (ih : s.instrValidId = true → s = ofWord w) (hv : (s.next x).instrValidId = true) :
    s.next x = ofWord (if x.instrNewId then x.fetchRdata else w) := by
  cases hr : x.idInReady with
  | true =>
      -- the old instruction leaves, so a valid one is a new one
      have hc := instrValidClear_of_idInReady hr
      have hnew : x.instrNewId = true := by
        simp only [next, hc, hr] at hv
        simp_all [IfIdIn.instrNewId]
      rw [hnew, if_pos rfl]
      simp_all [next, ofWord]
  | false =>
      have hnew : x.instrNewId = false := by simp [IfIdIn.instrNewId, hr]
      have hs : s.instrValidId = true ∧ x.instrValidClear = false := by
        simpa [next, hr] using hv
      obtain rfl := ih hs.1
      simp [next, hr, hnew, hs.2, ofWord]

/-- A valid instruction is the old one or one that is handed over. -/
theorem valid_of_next {s : IfIdReg} {x : IfIdIn} (hv : (s.next x).instrValidId = true) :
    s.instrValidId = true ∨ x.instrNewId = true := by
  simp only [next, Bool.or_eq_true, Bool.and_eq_true] at hv
  obtain h | h := hv
  · exact Or.inr (by simp [IfIdIn.instrNewId, h.1.1, h.1.2])
  · exact Or.inl h.1

/-- One cycle keeps the registers in step with the word handed over last. -/
theorem next_ofWord {ins : List IfIdIn} {s : IfIdReg} (x : IfIdIn)
    (ih : s.instrValidId = true → ∃ w, lastWord ins = some w ∧ s = ofWord w)
    (hv : (s.next x).instrValidId = true) :
    ∃ w, lastWord (ins ++ [x]) = some w ∧ s.next x = ofWord w := by
  rw [lastWord_concat]
  by_cases hs : s.instrValidId = true
  · obtain ⟨w, hw, hof⟩ := ih hs
    refine ⟨_, ?_, next_eq_ofWord x (fun _ => hof) hv⟩
    split_ifs <;> simp [hw]
  · have hnew := (valid_of_next hv).resolve_left hs
    refine ⟨x.fetchRdata, by simp [hnew], ?_⟩
    have h := next_eq_ofWord (w := x.fetchRdata) x (fun h => absurd h hs) hv
    simpa using h

/-- In every cycle with a valid instruction in ID, all registers belong to the word handed
over last. -/
theorem ifId_valid {s : IfIdReg} (h0 : s.instrValidId = false) (ins : List IfIdIn)
    (hv : (Machine.run next s ins).instrValidId = true) :
    ∃ w, lastWord ins = some w ∧ Machine.run next s ins = ofWord w := by
  revert hv
  refine Machine.run_trace
    (fun ins s => s.instrValidId = true → ∃ w, lastWord ins = some w ∧ s = ofWord w)
    (fun ins s x ih => next_ofWord x ih) ?_ ins
  simp [h0]

/-- The enables are those that the decoder of compressed instructions gives with the
instruction in the register. -/
structure EnablesOf (s : IfIdReg) (w : BitVec 32) : Prop where
  instrRdataId : s.instrRdataId = (compressedDecoder w).instr
  rfReadEnableA : s.rfReadEnableA = (compressedDecoder w).rfReadEnableA
  rfReadEnableB : s.rfReadEnableB = (compressedDecoder w).rfReadEnableB
  rfWriteEnable : s.rfWriteEnable = (compressedDecoder w).rfWriteEnable
  mdEnable : s.mdEnable = (compressedDecoder w).mdEnable
  shiftEnable : s.shiftEnable = (compressedDecoder w).shiftEnable
  adderEnable : s.adderEnable = (compressedDecoder w).adderEnable
  csrEnable : s.csrEnable = (compressedDecoder w).csrEnable

/-- **The enables belong to the instruction in ID.** After any run from a reset, of
whatever words, stalls, halts, flushes and redirects, a valid instruction in ID and the
enables come from one fetched word, the one handed over last. -/
theorem enables_belong {s : IfIdReg} (h0 : s.instrValidId = false) (ins : List IfIdIn) :
    (Machine.run next s ins).instrValidId = true →
      ∃ w, lastWord ins = some w ∧ (Machine.run next s ins).EnablesOf w := by
  intro hv
  obtain ⟨w, hw, hof⟩ := ifId_valid h0 ins hv
  rw [hof]
  exact ⟨w, hw, rfl, rfl, rfl, rfl, rfl, rfl, rfl, rfl⟩

/-- The enables of a word that is held over a stall. -/
theorem enables_belong_stalled :
    ∃ w, lastWord [IfIdIn.fetch 0x13#32, { IfIdIn.fetch 0x93#32 with stall := true }] = some w ∧
      (Machine.run next reset
        [IfIdIn.fetch 0x13#32, { IfIdIn.fetch 0x93#32 with stall := true }]).EnablesOf w :=
  enables_belong rfl _ rfl

end IfIdReg

end CocoIbex
