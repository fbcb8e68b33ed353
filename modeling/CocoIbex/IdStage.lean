import CocoIbex.Decoder

/-!
# The ID Stage

The part of `ibex_id_stage` that sequences an instruction, in the pipeline without a write-back
stage: the two-state machine that tells the first cycle of an instruction from the later ones,
the stalls it raises, and the requests it sends to the register file, the LSU, the CSRs and the
controller.

The machine starts in `FIRST_CYCLE` for every instruction and goes to `MULTI_CYCLE` for what
needs more than one: an access, a multiplication or division, a jump or branch without the
branch target ALU, and the two-cycle operations of RV32B. Each of them raises a stall of its own
in the first cycle, and the later cycles end when EX or the LSU is done (`multicycleDone`).

The decoder is part of this stage and sees whether the cycle is the first one, so its outputs
are functions of the state too.

## Main results

* `fsmOut_of_branchSetD` and `fsmOut_of_jumpSet` — the cycles of branches and jumps;
* `fsmOut_multiCycle` — a later cycle starts no jump and ends with the instruction;
* `stallId_of_multicycleDone` — what is complete is stalled by the memory only;
* `rfWe_of_rfWeId` — only what the decoder asks to write is written.
-/

namespace CocoIbex

/-- The states of the ID-EX machine, `id_fsm_e`. -/
inductive IdFsm
  | firstCycle | multiCycle
  deriving DecidableEq, Repr

/-- What the ID stage sees in one cycle: the instruction in its pipeline register, the
controller's `controller_run` and `flush_id`, and the answers of EX, LSU and CSRs. -/
structure IdIn where
  instrValid : Bool
  instr : BitVec 32
  illegalCInsn : Bool
  instrFetchErr : Bool
  controllerRun : Bool
  flushId : Bool
  exValid : Bool
  branchDecision : Bool
  branchTaken : Bool
  dataIndTiming : Bool
  lsuValid : Bool
  lsuBusy : Bool
  illegalCsrInsn : Bool
  deriving DecidableEq, Repr

/-- The combinational signals of the ID-EX machine. -/
structure IdFsmOut where
  idFsmD : IdFsm
  rfWeRaw : Bool
  stallMultdiv : Bool := false
  stallJump : Bool := false
  stallBranch : Bool := false
  stallAlu : Bool := false
  branchSetD : Bool := false
  jumpSet : Bool := false
  deriving DecidableEq, Repr

namespace IdStage

variable (cfg : Config) (fsm : IdFsm) (x : IdIn)

/-- `instr_first_cycle`. -/
def instrFirstCycle : Bool := x.instrValid && fsm == .firstCycle

/-- The main decode of the instruction in ID. -/
def main : MainOut := mainDecode cfg (instrFirstCycle fsm x) x.illegalCInsn x.instr

/-- The ALU decode of the instruction in ID. -/
def alu : AluOut := aluDecode cfg (instrFirstCycle fsm x) x.branchTaken x.instr

/-- `instr_executing`: without a write-back stage any valid instruction that has not seen
an error executes. -/
def instrExecuting : Bool := x.instrValid && !x.instrFetchErr && x.controllerRun

/-- `multdiv_en_dec`. -/
def multdivEnDec : Bool :=
  !(main cfg fsm x).illegalInsn && ((alu cfg fsm x).multSel || (alu cfg fsm x).divSel)

/-- `multicycle_done`. -/
def multicycleDone : Bool := if (main cfg fsm x).dataReq then x.lsuValid else x.exValid

/-- The combinational part of the ID-EX machine. -/
def fsmOut : IdFsmOut :=
  let d := main cfg fsm x
  let idle : IdFsmOut := { idFsmD := fsm, rfWeRaw := d.rfWe }
  if instrExecuting x then
    match fsm with
    | .firstCycle =>
      if d.dataReq then { idle with idFsmD := .multiCycle }
      else if multdivEnDec cfg fsm x then
        if x.exValid then idle
        else { idle with idFsmD := .multiCycle, rfWeRaw := false, stallMultdiv := true }
      else if d.branchInDec then
        { idle with
          idFsmD :=
            if x.dataIndTiming || (!cfg.branchTargetALU && x.branchDecision) then .multiCycle
            else .firstCycle
          stallBranch := (!cfg.branchTargetALU && x.branchDecision) || x.dataIndTiming
          branchSetD := x.branchDecision || x.dataIndTiming }
      else if d.jumpInDec then
        { idle with
          idFsmD := if cfg.branchTargetALU then .firstCycle else .multiCycle
          stallJump := !cfg.branchTargetALU
          jumpSet := d.jumpSet }
      else if (alu cfg fsm x).aluMulticycle then
        { idle with idFsmD := .multiCycle, rfWeRaw := false, stallAlu := true }
      else { idle with idFsmD := .firstCycle }
    | .multiCycle =>
      let o := if multdivEnDec cfg fsm x then { idle with rfWeRaw := d.rfWe && x.exValid } else idle
      -- `ready_wb_i` is constantly set without a write-back stage
      if multicycleDone cfg fsm x then { o with idFsmD := .firstCycle }
      else
        { o with
          stallMultdiv := multdivEnDec cfg fsm x
          stallBranch := d.branchInDec
          stallJump := d.jumpInDec }
  else idle

/-- `stall_mem`: the first cycle of a load or store always stalls, and then until it is
complete. -/
def stallMem : Bool :=
  x.instrValid
    && (x.lsuBusy || ((main cfg fsm x).dataReq && (!x.lsuValid || instrFirstCycle fsm x)))

/-- `stall_id`. -/
def stallId : Bool :=
  let o := fsmOut cfg fsm x
  stallMem cfg fsm x || o.stallMultdiv || o.stallJump || o.stallBranch || o.stallAlu

/-- `instr_done`, which is `instr_id_done_o` without a write-back stage. -/
def instrDone : Bool := !stallId cfg fsm x && !x.flushId && instrExecuting x

/-- `lsu_req_o`: the memory access starts; `data_req_allowed` is the first cycle. -/
def lsuReq : Bool :=
  if instrExecuting x then instrFirstCycle fsm x && (main cfg fsm x).dataReq else false

/-- `csr_op_en_o`: the CSR access happens. -/
def csrOpEn : Bool :=
  (main cfg fsm x).csrAccess && instrExecuting x && instrDone cfg fsm x

/-- `rf_we_id_o`: the register write of ID. -/
def rfWeId : Bool :=
  (fsmOut cfg fsm x).rfWeRaw && instrExecuting x && !x.illegalCsrInsn

/-! ### The register write of ID -/

/-- The machine raises the register write only when the decoder asks for it. -/
theorem rfWe_of_rfWeRaw (h : (fsmOut cfg fsm x).rfWeRaw = true) :
    (main cfg fsm x).rfWe = true := by
  simp only [fsmOut] at h
  split at h
  · split at h
    · split_ifs at h <;> simp_all
    · split_ifs at h <;> simp_all
  · exact h

/-- The ID stage writes only what the decoder asks it to write. -/
theorem rfWe_of_rfWeId (h : rfWeId cfg fsm x = true) : (main cfg fsm x).rfWe = true := by
  simp only [rfWeId, Bool.and_eq_true] at h
  exact rfWe_of_rfWeRaw cfg fsm x h.1.1

/-- In a later cycle with a valid result of EX the register write is the decoder's. -/
theorem rfWeRaw_multiCycle (hx : x.exValid = true) :
    (fsmOut cfg .multiCycle x).rfWeRaw = (main cfg .multiCycle x).rfWe := by
  simp only [fsmOut, hx, Bool.and_true]
  split_ifs <;> rfl

/-- With a valid result of EX the register write of an instruction that is not a two-cycle
ALU operation is the decoder's. -/
theorem rfWeRaw_exValid (hx : x.exValid = true) (hm : (alu cfg fsm x).aluMulticycle = false) :
    (fsmOut cfg fsm x).rfWeRaw = (main cfg fsm x).rfWe := by
  cases fsm with
  | multiCycle => exact rfWeRaw_multiCycle cfg x hx
  | firstCycle =>
      simp only [fsmOut, hx, hm]
      split_ifs <;> simp_all

/-! ### The later cycles of an instruction -/

/-- In a later cycle the machine starts no jump and goes back when the instruction is
complete. -/
theorem fsmOut_multiCycle (hx : instrExecuting x = true) :
    (fsmOut cfg .multiCycle x).branchSetD = false ∧ (fsmOut cfg .multiCycle x).jumpSet = false ∧
      (fsmOut cfg .multiCycle x).idFsmD
        = if multicycleDone cfg .multiCycle x then .firstCycle else .multiCycle := by
  simp only [fsmOut, hx, if_true]
  split_ifs <;> exact ⟨rfl, rfl, rfl⟩

/-- A complete instruction is stalled by the memory only. -/
theorem stallId_of_multicycleDone (hx : instrExecuting x = true)
    (hd : multicycleDone cfg .multiCycle x = true) :
    stallId cfg .multiCycle x = stallMem cfg .multiCycle x := by
  simp only [stallId, fsmOut, hx, hd, if_true]
  split_ifs <;> simp

/-! ### Branches -/

/-- A branch is set in the first cycle of an instruction that is not a load or store. It is
over at once with the branch target ALU, and takes a later cycle otherwise. -/
theorem fsmOut_of_branchSetD (h : (fsmOut cfg fsm x).branchSetD = true) :
    instrExecuting x = true ∧ fsm = .firstCycle ∧ (main cfg fsm x).dataReq = false ∧
      (if cfg.branchTargetALU && !x.dataIndTiming then
        stallId cfg fsm x = stallMem cfg fsm x
      else (fsmOut cfg fsm x).idFsmD = .multiCycle) := by
  cases hx : instrExecuting x with
  | false => simp [fsmOut, hx] at h
  | true =>
      cases fsm with
      | multiCycle => simp [(fsmOut_multiCycle cfg x hx).1] at h
      | firstCycle =>
          simp only [fsmOut, hx, if_true] at h
          split_ifs at h with hd hm hb hm
          all_goals refine ⟨rfl, rfl, by simpa using hd, ?_⟩
          all_goals simp only [stallId, fsmOut, hx, if_true, hd, hm]
          all_goals cases ht : x.dataIndTiming <;> cases hc : cfg.branchTargetALU <;> simp_all

/-- Only a branch is set, and only a jump is set as one. -/
theorem inDec_of_fsmOut (h : (fsmOut cfg fsm x).branchSetD = true ∨
    (fsmOut cfg fsm x).jumpSet = true) :
    (main cfg fsm x).branchInDec = true ∨ (main cfg fsm x).jumpInDec = true := by
  cases hx : instrExecuting x with
  | false => simp [fsmOut, hx] at h
  | true =>
      cases fsm with
      | multiCycle => simp [fsmOut_multiCycle cfg x hx] at h
      | firstCycle =>
          by_contra hne
          rw [not_or, Bool.not_eq_true, Bool.not_eq_true] at hne
          simp only [fsmOut, hx, hne.1, hne.2, Bool.false_eq_true, if_false, if_true] at h
          split_ifs at h <;> simp at h

/-- A branch that is not set at once stalls. -/
theorem stallId_of_branchSetD (h : (fsmOut cfg fsm x).branchSetD = true)
    (hc : (cfg.branchTargetALU && !x.dataIndTiming) = false) : stallId cfg fsm x = true := by
  cases hx : instrExecuting x with
  | false => simp [fsmOut, hx] at h
  | true =>
      cases fsm with
      | multiCycle => simp [(fsmOut_multiCycle cfg x hx).1] at h
      | firstCycle =>
          simp only [fsmOut, hx, if_true] at h
          split_ifs at h with hd hm he hb
          all_goals simp only [stallId, fsmOut, hx, if_true, hd, hm]
          all_goals cases ht : x.dataIndTiming <;> cases hb : x.branchDecision <;> simp_all

/-- A jump is set in the first cycle of an instruction that is not a load or store. It is
over at once with the branch target ALU, and takes a later cycle otherwise. -/
theorem fsmOut_of_jumpSet (h : (fsmOut cfg fsm x).jumpSet = true) :
    instrExecuting x = true ∧ fsm = .firstCycle ∧ (main cfg fsm x).dataReq = false ∧
      (fsmOut cfg fsm x).branchSetD = false ∧
      (if cfg.branchTargetALU then stallId cfg fsm x = stallMem cfg fsm x
      else (fsmOut cfg fsm x).idFsmD = .multiCycle) := by
  cases hx : instrExecuting x with
  | false => simp [fsmOut, hx] at h
  | true =>
      cases fsm with
      | multiCycle => simp [(fsmOut_multiCycle cfg x hx).2.1] at h
      | firstCycle =>
          simp only [fsmOut, hx, if_true] at h
          split_ifs at h with hd hm he hb hj
          refine ⟨rfl, rfl, by simpa using hd, ?_, ?_⟩
          all_goals simp only [stallId, fsmOut, hx, if_true, hd, hm]
          all_goals cases hc : cfg.branchTargetALU <;> simp_all

end IdStage

end CocoIbex
