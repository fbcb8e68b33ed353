import CocoIbex.MultdivRun
import CocoIbex.WholeMem

/-!
# Instructions Find the Machines at Rest

The invariant of the whole hart. The multiplier and the divider only leave their idle state for
the instruction in ID, which stays in its later cycles until they are back, so every promise of
the hart about EX and about the data bus is kept by the bus protocol alone. An instruction that
is handed over to ID finds the ID-EX machine in its first cycle and the multiplier, the divider
and the LSU idle.

The fast units are two machines, one for products and one for divisions, and only one of them
leaves its idle state at a time (`Turn`). A unit is idle in the first cycle of an instruction,
and in a later one it is at work for the instruction in ID or idle (`MdInv`). This holds with
the masks of the secure build as well, since a unit without its enable keeps its registers, and
the enable is set for each word that selects the unit.

The invariant puts this together with those of the hart, of the PMP and of the instructions that
last, and needs the protocol of the data bus only.

## Main results

* `inv_next`, `inv_reset` and `inv_run` — the invariant in every run;
* `promised` — the bus protocol alone keeps every promise of the hart;
* `loaded_at_rest` — an instruction that has just been loaded finds all machines at rest.
-/

namespace CocoIbex

/-! ### The multiplier and the divider -/

namespace Multiplier

/-- The unit is at work for a multiplication (`mul`) or a division: the other half of it is
idle. -/
def Turn (mul : Bool) : (m : Multiplier) → m.unit.State → Prop
  | .slow, _ => True
  | .fast, s => if mul then s.div.mdState = .idle else s.multState = MultdivFast.MultFsm.albl
  | .singleCycle, s =>
    if mul then s.div.mdState = .idle else s.multState = MultdivFast.SingleFsm.mull

/-- An idle unit is at work for neither. -/
theorem Idle.turn {m : Multiplier} {s : m.unit.State} (h : m.Idle s) (mul : Bool) :
    m.Turn mul s := by
  cases m with
  | slow => trivial
  | fast => cases mul <;> simp [Turn, h.1, h.2]
  | singleCycle => cases mul <;> simp [Turn, h.1, h.2]

/-- The unit is enabled for a multiplication (`mul`) or a division, and its result is taken at
once. -/
structure Enabled (mul : Bool) (x : MultdivIn) : Prop where
  multEn : x.multEn = mul
  divEn : x.divEn = !mul
  multSel : x.multSel = mul
  divSel : x.divSel = !mul
  ready : x.multdivReadyId = true

end Multiplier

namespace MultdivFast

/-- The division goes back to its idle state when it has the result. -/
theorem divValid_iff {s : DivReg} {x : MultdivIn} (a : AdderOut) (hr : x.multdivReadyId = true) :
    (division s x a).divHold = false ∧
      ((division s x a).divValid = true ↔ (division s x a).next.mdState = .idle) ∧
      (s.mdState = .idle → (division s x a).divValid = false) := by
  cases hs : s.mdState <;> simp only [division, hs, hr] <;> simp <;> split_ifs <;> simp

/-- So does the multiplication with one multiplier. -/
theorem fastMult_valid_iff (s : MultFsm) {x : MultdivIn} (hr : x.multdivReadyId = true) :
    (fastMult s x).multHold = false ∧
      ((fastMult s x).multValid = true ↔ (fastMult s x).multStateD = .albl) := by
  cases s <;> simp only [fastMult, hr] <;> (try split_ifs) <;> simp

/-- And the multiplication with three. -/
theorem singleMult_valid_iff (s : SingleFsm) {x : MultdivIn} (hm : x.multEn = true)
    (hr : x.multdivReadyId = true) :
    (singleMult s x).multHold = false ∧
      ((singleMult s x).multValid = true ↔ (singleMult s x).multStateD = .mull) := by
  cases s <;> simp only [singleMult, hm, hr] <;> (try split_ifs) <;> simp

variable {μ : Type} (mult : μ → MultdivIn → MultOut μ) {idle : μ} {s : State μ} {x : MultdivIn}

/-- One cycle of a multiplication. -/
theorem step_of_multiply (a : AdderOut) (hx : Multiplier.Enabled true x)
    (ht : s.div.mdState = .idle)
    (hv : (mult s.multState x).multHold = false ∧
      ((mult s.multState x).multValid = true ↔ (mult s.multState x).multStateD = idle)) :
    (step mult s x a).2.div.mdState = .idle ∧
      ((step mult s x a).1.valid = true ↔ (step mult s x a).2.multState = idle) := by
  have hm := hx.multEn
  have hd := hx.divEn
  obtain ⟨-, -, hq⟩ := divValid_iff (s := s.div) a hx.ready
  simp [step, hm, hd, ht, hv.1, hv.2, hq ht]

/-- One cycle of a division. -/
theorem step_of_divide (a : AdderOut) (hx : Multiplier.Enabled false x)
    (ht : s.multState = idle) (hv : (mult idle x).multValid = false) :
    (step mult s x a).2.multState = idle ∧
      ((step mult s x a).1.valid = true ↔ (step mult s x a).2.div.mdState = .idle) := by
  have hm := hx.multEn
  have hd := hx.divEn
  obtain ⟨hh, hq, -⟩ := divValid_iff (s := s.div) a hx.ready
  simp [step, hm, hd, ht, hv, hh, hq]

end MultdivFast

namespace MultdivSlow

/-- The slow unit goes back to its idle state when it has the result. -/
theorem valid_iff {mul : Bool} {s : State} {x : MultdivIn} (a : AdderOut)
    (hx : Multiplier.Enabled mul x) :
    (step s x a).1.valid = true ↔ (step s x a).2.mdState = .idle := by
  have hen : (x.multEn || x.divEn) = true := by simp [hx.multEn, hx.divEn]
  have hsel : (x.multSel || x.divSel) = true := by simp [hx.multSel, hx.divSel]
  have hr := hx.ready
  cases hs : s.mdState <;> cases ho : x.operator <;>
    simp only [step, comb, selected, hen, hsel, hs, ho, hr] <;> simp <;> split_ifs <;> simp_all

end MultdivSlow

namespace Multiplier

/-- A unit that is not enabled keeps its registers. -/
theorem step_of_disabled {m : Multiplier} {s : m.unit.State} {x : MultdivIn} (a : AdderOut)
    (hm : x.multEn = false) (hd : x.divEn = false) : (m.unit.step s x a).2 = s := by
  cases m with
  | slow => exact MultdivSlow.step_idle s a hm hd
  | fast =>
      change (MultdivFast.step MultdivFast.fastMult s x a).2 = s
      simp only [MultdivFast.step, hm, hd, Bool.false_and, Bool.false_eq_true, if_false]
      rfl
  | singleCycle =>
      change (MultdivFast.step MultdivFast.singleMult s x a).2 = s
      simp only [MultdivFast.step, hm, hd, Bool.false_and, Bool.false_eq_true, if_false]
      rfl

/-- One cycle of the unit at work: it is back in its idle state when it has the result. -/
theorem step_of_enabled {m : Multiplier} {mul : Bool} {s : m.unit.State} {x : MultdivIn}
    (a : AdderOut) (hx : Enabled mul x) (ht : m.Turn mul s) :
    m.Turn mul (m.unit.step s x a).2 ∧
      ((m.unit.step s x a).1.valid = true ↔ m.Idle (m.unit.step s x a).2) := by
  cases m with
  | slow => exact ⟨trivial, MultdivSlow.valid_iff a hx⟩
  | fast =>
      cases mul with
      | true =>
          obtain ⟨hd, hv⟩ := MultdivFast.step_of_multiply MultdivFast.fastMult a hx ht
            (MultdivFast.fastMult_valid_iff _ hx.ready)
          exact ⟨hd, hv.trans ⟨fun h => ⟨hd, h⟩, fun h => h.2⟩⟩
      | false =>
          obtain ⟨hm, hv⟩ := MultdivFast.step_of_divide MultdivFast.fastMult a hx ht rfl
          exact ⟨hm, hv.trans ⟨fun h => ⟨h, hm⟩, fun h => h.1⟩⟩
  | singleCycle =>
      cases mul with
      | true =>
          obtain ⟨hd, hv⟩ := MultdivFast.step_of_multiply MultdivFast.singleMult a hx ht
            (MultdivFast.singleMult_valid_iff _ hx.multEn hx.ready)
          exact ⟨hd, hv.trans ⟨fun h => ⟨hd, h⟩, fun h => h.2⟩⟩
      | false =>
          have hno : (MultdivFast.singleMult .mull x).multValid = false := by
            simp only [MultdivFast.singleMult, hx.multEn]
            split_ifs <;> rfl
          obtain ⟨hm, hv⟩ := MultdivFast.step_of_divide MultdivFast.singleMult a hx ht hno
          exact ⟨hm, hv.trans ⟨fun h => ⟨h, hm⟩, fun h => h.1⟩⟩

end Multiplier

/-! ### The decoder -/

/-- The register operations select the multiplier or the divider or neither, in every cycle
alike. -/
theorem opAlu_multdiv (cfg : Config) (first first' : Bool) (f7 : BitVec 7) (f3 : BitVec 3) :
    (opAlu cfg first f7 f3).multSel = (opAlu cfg first' f7 f3).multSel ∧
      (opAlu cfg first f7 f3).divSel = (opAlu cfg first' f7 f3).divSel ∧
      ((opAlu cfg first f7 f3).multSel = true →
        cfg.rv32m = true ∧ (opAlu cfg first f7 f3).divSel = false) ∧
      ((opAlu cfg first f7 f3).divSel = true → cfg.rv32m = true) := by
  by_cases h7 : f7 = 0b0000001#7
  · subst h7
    have hi : opRv32iAlu 0b0000001#7 f3 = none := by revert f3; decide
    have hb : opRv32bAlu 0b0000001#7 f3 = none := by revert f3; decide
    simp only [opAlu, hi, hb]
    cases cfg.rv32m <;> simp
  · have hno : ∀ first, (opAlu cfg first f7 f3).multSel = false ∧
        (opAlu cfg first f7 f3).divSel = false := by
      intro first
      simp only [opAlu, h7, if_false]
      repeat' split
      all_goals exact ⟨rfl, rfl⟩
    simp [hno first, hno first']

/-- So does the decoder. -/
theorem aluDecode_multdiv (cfg : Config) (first first' bt bt' : Bool) (i : BitVec 32) :
    (aluDecode cfg first bt i).multSel = (aluDecode cfg first' bt' i).multSel ∧
      (aluDecode cfg first bt i).divSel = (aluDecode cfg first' bt' i).divSel ∧
      ((aluDecode cfg first bt i).multSel = true →
        cfg.rv32m = true ∧ (aluDecode cfg first bt i).divSel = false) ∧
      ((aluDecode cfg first bt i).divSel = true → cfg.rv32m = true) := by
  have hnone : ∀ first bt, Opcode.ofBits (opcodeBits i) ≠ some .op →
      (aluDecode cfg first bt i).multSel = false ∧ (aluDecode cfg first bt i).divSel = false := by
    intro first bt ho
    simp only [aluDecode]
    split <;> (try split_ifs) <;> (try split) <;> simp_all [pcPlus]
  by_cases ho : Opcode.ofBits (opcodeBits i) = some .op
  · simp only [aluDecode, ho]
    exact opAlu_multdiv cfg first first' _ _
  · obtain ⟨h1, h2⟩ := hnone first bt ho
    obtain ⟨h3, h4⟩ := hnone first' bt' ho
    simp [h1, h2, h3, h4]

/-- A multiplication or division without its result stalls. -/
theorem IdStage.stallId_of_multdiv {cfg : Config} {fsm : IdFsm} {x : IdIn}
    (hx : instrExecuting x = true) (he : multdivEnDec cfg fsm x = true)
    (hv : x.exValid = false) : stallId cfg fsm x = true := by
  have hm : (main cfg fsm x).dataReq = false := by
    by_contra hne
    obtain ⟨-, -, -, hd⟩ :=
      mainDecode_inDec cfg (instrFirstCycle fsm x) x.illegalCInsn x.instr
    obtain ⟨-, ho⟩ := hd ((Bool.not_eq_false _).mp hne)
    simp only [multdivEnDec, Bool.and_eq_true] at he
    have hop := @aluDecode_op cfg (instrFirstCycle fsm x) x.branchTaken x.instr
      (by rw [Bool.or_eq_true]; exact Or.inl he.2)
    obtain ho | ho := ho <;> simp [ho] at hop
  have hs : (fsmOut cfg fsm x).stallMultdiv = true := by
    cases fsm with
    | firstCycle => simp [fsmOut, hx, hm, he, hv]
    | multiCycle => simp [fsmOut, hx, multicycleDone, hm, he, hv]
  simp [stallId, hs]

namespace WholeHart

variable {n : ℕ} {m : Multiplier} {P : WholeParams} {h : WholeHart n m} {x : WholeIn}

/-- The instruction in ID multiplies or divides. -/
def multdivEnDec (P : WholeParams) (h : WholeHart n m) : Bool :=
  IdStage.multdivEnDec P.cfg h.core.idFsm (h.decIn P)

/-- A multiplication or division is enabled where it is legal and selected. -/
theorem multdivEnDec_iff :
    h.multdivEnDec P = true ↔ (Core.main P.cfg h.core).illegalInsn = false ∧
      ((h.alu P).multSel = true ∨ (h.alu P).divSel = true) := by
  have hdec : h.multdivEnDec P
      = (!(Core.main P.cfg h.core).illegalInsn && ((h.alu P).multSel || (h.alu P).divSel)) := rfl
  rw [hdec]
  simp

/-- Neither that nor which of both it does depends on its cycle. -/
theorem multdivEnDec_congr {h' : WholeHart n m} (hreg : h'.core.ifId = h.core.ifId) :
    h'.multdivEnDec P = h.multdivEnDec P ∧ (h'.alu P).multSel = (h.alu P).multSel := by
  obtain ⟨hm, hd, -, -⟩ := aluDecode_multdiv P.cfg
    (IdStage.instrFirstCycle h'.core.idFsm (h'.decIn P))
    (IdStage.instrFirstCycle h.core.idFsm (h.decIn P)) (h'.branchTaken P) (h.branchTaken P)
    h.core.ifId.instrRdataId
  have halu : h'.alu P = aluDecode P.cfg (IdStage.instrFirstCycle h'.core.idFsm (h'.decIn P))
      (h'.branchTaken P) h.core.ifId.instrRdataId := by
    rw [← hreg]
    rfl
  have hl : (Core.main P.cfg h'.core).illegalInsn = (Core.main P.cfg h.core).illegalInsn := by
    rw [Core.main, Core.main, hreg, mainDecode_illegalInsn]
  have hm' : (h'.alu P).multSel = (h.alu P).multSel := (congrArg AluOut.multSel halu).trans hm
  have hd' : (h'.alu P).divSel = (h.alu P).divSel := (congrArg AluOut.divSel halu).trans hd
  refine ⟨?_, hm'⟩
  rw [Bool.eq_iff_iff, multdivEnDec_iff, multdivEnDec_iff, hl, hm', hd']

/-- With it in ID the unit is enabled for it. -/
theorem enabled_of_executing (hx : Core.Executing h.core) (he : h.multdivEnDec P = true) :
    Multiplier.Enabled (h.alu P).multSel (ExBlock.multdivIn m h.ex (h.exIn P)) := by
  have hexe : IdStage.instrExecuting (h.decIn P) = true :=
    (@Core.instrExecuting_iff P.cfg _ (h.coreIn P .idle)).mpr hx
  obtain ⟨hl, hsel⟩ := multdivEnDec_iff.mp he
  obtain ⟨-, -, hex, -⟩ := aluDecode_multdiv P.cfg
    (IdStage.instrFirstCycle h.core.idFsm (h.decIn P)) true (h.branchTaken P) true
    h.core.ifId.instrRdataId
  have hdiv : (h.alu P).divSel = !(h.alu P).multSel := by
    cases hm : (h.alu P).multSel with
    | true => exact (hex hm).2
    | false => simpa [hm] using hsel
  have hmult : (ExBlock.multdivIn m h.ex (h.exIn P)).multEn
      = (IdStage.instrExecuting (h.decIn P)
        && (!(Core.main P.cfg h.core).illegalInsn && (h.alu P).multSel)) := rfl
  have hdive : (ExBlock.multdivIn m h.ex (h.exIn P)).divEn
      = (IdStage.instrExecuting (h.decIn P)
        && (!(Core.main P.cfg h.core).illegalInsn && (h.alu P).divSel)) := rfl
  refine ⟨?_, ?_, rfl, hdiv, rfl⟩
  · rw [hmult, hexe, hl]
    simp
  · rw [hdive, hexe, hl, hdiv]
    simp

/-- With anything else in ID it is disabled. -/
theorem disabled_of_not (hn : ¬ (Core.Executing h.core ∧ h.multdivEnDec P = true)) :
    (ExBlock.multdivIn m h.ex (h.exIn P)).multEn = false ∧
      (ExBlock.multdivIn m h.ex (h.exIn P)).divEn = false := by
  have hmult : (ExBlock.multdivIn m h.ex (h.exIn P)).multEn
      = (IdStage.instrExecuting (h.decIn P)
        && (!(Core.main P.cfg h.core).illegalInsn && (h.alu P).multSel)) := rfl
  have hdive : (ExBlock.multdivIn m h.ex (h.exIn P)).divEn
      = (IdStage.instrExecuting (h.decIn P)
        && (!(Core.main P.cfg h.core).illegalInsn && (h.alu P).divSel)) := rfl
  rw [hmult, hdive]
  by_cases hx : Core.Executing h.core
  · have hd : ¬ ((Core.main P.cfg h.core).illegalInsn = false ∧
        ((h.alu P).multSel = true ∨ (h.alu P).divSel = true)) :=
      fun hd => hn ⟨hx, multdivEnDec_iff.mpr hd⟩
    cases hl : (Core.main P.cfg h.core).illegalInsn with
    | true => simp
    | false =>
        obtain ⟨hm', hd'⟩ : (h.alu P).multSel = false ∧ (h.alu P).divSel = false := by
          simpa [hl] using hd
        simp [hm', hd']
  · have hexe : IdStage.instrExecuting (h.decIn P) = false :=
      @Core.instrExecuting_eq_false P.cfg _ (h.coreIn P .idle) hx
    simp [hexe]

/-! ### The unit at rest -/

/-- The unit is idle, or it works for the instruction in ID, which is in its later cycles. -/
def MdInv (P : WholeParams) (h : WholeHart n m) : Prop :=
  m.Idle h.ex.multdiv ∨
    Core.Executing h.core ∧ h.core.idFsm = .multiCycle ∧ h.multdivEnDec P = true ∧
      m.Turn (h.alu P).multSel h.ex.multdiv

/-- The registers of the unit after a cycle. -/
theorem multdiv_next : (h.next P x).ex.multdiv
    = (m.unit.step h.ex.multdiv (ExBlock.multdivIn m h.ex (h.exIn P))
        (ExBlock.adderOut P.cfg m h.ex (h.exIn P))).2 := rfl

/-- The result of a multiplication or division is valid when the unit says so. -/
theorem exValid_of_multdivEnDec (he : h.multdivEnDec P = true) :
    (h.exOut P).exValid = (m.unit.step h.ex.multdiv (ExBlock.multdivIn m h.ex (h.exIn P))
      (ExBlock.adderOut P.cfg m h.ex (h.exIn P))).1.valid := by
  obtain ⟨-, hsel⟩ := multdivEnDec_iff.mp he
  obtain ⟨-, -, hm, hd⟩ := aluDecode_multdiv P.cfg
    (IdStage.instrFirstCycle h.core.idFsm (h.decIn P)) true (h.branchTaken P) true
    h.core.ifId.instrRdataId
  have hM : P.cfg.rv32m = true := hsel.elim (fun h => (hm h).1) hd
  have hsel' : ExBlock.multdivSel P.cfg (h.exIn P) = true := by
    change (P.cfg.rv32m && ((h.alu P).multSel || (h.alu P).divSel)) = true
    rw [hM]
    simpa using hsel
  change (if ExBlock.multdivSel P.cfg (h.exIn P) then _ else _) = _
  rw [if_pos hsel']
  rfl

/-- What is idle stays idle without a multiplication or division in ID, and is idle again
when one is complete. -/
theorem mdInv_next (hi : HartObs.Inv P.toHartParams h.arch.obs) (hp : PmpInv P h)
    (hd : MdInv P h) (hok : BusOk P h x) : MdInv P (h.next P x) := by
  by_cases hw : Core.Executing h.core ∧ h.multdivEnDec P = true
  · obtain ⟨hx, he⟩ := hw
    have hen := enabled_of_executing hx he
    have hturn : m.Turn (h.alu P).multSel h.ex.multdiv :=
      hd.elim (fun h => h.turn _) (fun h => h.2.2.2)
    obtain ⟨hturn', hvalid⟩ := Multiplier.step_of_enabled
      (ExBlock.adderOut P.cfg m h.ex (h.exIn P)) hen hturn
    rw [← exValid_of_multdivEnDec he, ← multdiv_next (x := x)] at hvalid
    rw [← multdiv_next (x := x)] at hturn'
    cases hv : (h.exOut P).exValid with
    | true => exact Or.inl (hvalid.mp hv)
    | false =>
        -- the instruction stalls until the result is there
        have hexe : IdStage.instrExecuting (Core.idIn P.cfg h.core (h.coreIn P x)) = true :=
          (@Core.instrExecuting_iff P.cfg _ (h.coreIn P x)).mpr hx
        have hmd : IdStage.multdivEnDec P.cfg h.core.idFsm
            (Core.idIn P.cfg h.core (h.coreIn P x)) = true := he
        have hv' : (Core.idIn P.cfg h.core (h.coreIn P x)).exValid = false := hv
        have hstall : Core.stallId P.cfg h.core (h.coreIn P x) = true :=
          IdStage.stallId_of_multdiv hexe hmd hv'
        obtain ⟨-, hx', -, hreg, hmulti⟩ :=
          HartObs.next_of_stall hi (busOk hp hok) hx hstall
        have hreg' : (h.next P x).core.ifId = h.core.ifId := hreg
        obtain ⟨he', hsel⟩ := multdivEnDec_congr (P := P) hreg'
        refine Or.inr ⟨hx', hmulti, he'.trans he, ?_⟩
        rw [hsel]
        exact hturn'
  · obtain ⟨hm, hdv⟩ := disabled_of_not hw
    have hidle : m.Idle h.ex.multdiv := hd.resolve_right fun h => hw ⟨h.1, h.2.2.1⟩
    refine Or.inl ?_
    rw [multdiv_next, Multiplier.step_of_disabled _ hm hdv]
    exact hidle

/-! ### The invariant -/

/-- What holds in every cycle of a run. -/
structure Inv (P : WholeParams) (h : WholeHart n m) : Prop where
  obs : HartObs.Inv P.toHartParams h.arch.obs
  later : HartObs.Later P.toHartParams h.arch.obs
  timed : HartObs.BranchTimed P.toHartParams h.arch.obs
  pmp : PmpInv P h
  multdiv : MdInv P h

/-- The invariant holds after a reset. -/
theorem inv_reset (P : WholeParams) (a : BitVec 31) : Inv P (reset n m a) where
  obs := HartObs.inv_reset P.toHartParams a
  later := fun h => nomatch h
  timed := fun h => nomatch h
  pmp := pmpInv_reset P a
  multdiv := Or.inl (by cases m <;> simp [reset, ExBlock.reset, Multiplier.Idle, Multiplier.unit,
    MultdivSlow.slow, MultdivSlow.State.reset, MultdivFast.fast, MultdivFast.singleCycle,
    MultdivFast.unitOf, MultdivFast.DivReg.reset])

/-- The bus protocol alone keeps every promise of the hart. -/
theorem promised (hi : Inv P h) (hok : BusOk P h x) :
    HartObs.Promised P.toHartParams h.arch.obs (h.wired P x) where
  bus := busOk hi.pmp hok
  ex := by
    intro hf hm hd
    have hfirst : (h.exIn P).aluInstrFirstCycle = false := by
      have hf' : h.core.idFsm = .multiCycle := hf
      change IdStage.instrFirstCycle h.core.idFsm (h.decIn P) = false
      simp [IdStage.instrFirstCycle, hf']
    exact ExBlock.exValid_later hfirst hm hd

/-- One cycle keeps the invariant. -/
theorem inv_next (hi : Inv P h) (hok : BusOk P h x) : Inv P (h.next P x) where
  obs := HartObs.inv_next hi.obs (promised hi hok).bus
  later := HartObs.later_next hi.obs hi.later (promised hi hok)
  timed := HartObs.branchTimed_next hi.obs hi.later (promised hi hok)
  pmp := pmpInv_next hi.obs hi.pmp hok
  multdiv := mdInv_next hi.obs hi.pmp hi.multdiv hok

/-- Every run on a bus that keeps to its protocol meets the invariant. -/
theorem inv_run (P : WholeParams) (a : BitVec 31) {ins : List WholeIn}
    (hok : Machine.Along (next P) (BusOk P) (reset n m a) ins) :
    Inv P (Machine.run (next P) (reset n m a) ins) :=
  Machine.run_induction (Inv P) (fun _ _ hi hx => inv_next hi hx) (inv_reset P a) hok

/-! ### An instruction that is loaded -/

/-- An instruction is loaded into ID: the fetch port has a word, ID is ready and the fetch is
not redirected. -/
def loads (P : WholeParams) (h : WholeHart n m) (x : WholeIn) : Bool :=
  x.fetchValid && h.arch.obs.hart.idInReady P.toHartParams (h.wired P x)
    && !(h.arch.obs.hart.ctrlOut P.toHartParams (h.wired P x)).pcSet

/-- All machines with more than one cycle are in their first states. -/
structure AtRest (h : WholeHart n m) : Prop where
  idFsm : h.core.idFsm = .firstCycle
  multdiv : m.Idle h.ex.multdiv
  lsu : h.core.lsu.lsFsm = .idle
  outstanding : h.core.outstanding = 0
  branchSetQ : h.core.branchSetQ = false

/-- What is loaded leaves nothing behind in the ID-EX machine. -/
theorem first_of_loads (hi : Inv P h) (hok : BusOk P h x) (hl : h.loads P x = true) :
    (h.next P x).core.idFsm = .firstCycle ∧ (h.next P x).core.branchSetQ = false := by
  have hp := promised hi hok
  simp only [loads, Hart.idInReady, Ctrl.idInReady, Bool.and_eq_true, Bool.not_eq_true'] at hl
  obtain ⟨⟨-, hs, -⟩, hset⟩ := hl
  have hs' : Core.stallId P.cfg h.core (h.coreIn P x) = false := hs
  have hset' : (Core.ctrlOut P.cfg h.core (h.coreIn P x)).pcSet = false := hset
  by_cases hx : Core.Executing h.core
  · refine ⟨HartObs.idFsm_next_of_not_stall hi.obs hi.later hp.ex hx hs', ?_⟩
    by_contra hne
    have hd : (IdStage.fsmOut P.cfg h.core.idFsm
        (Core.idIn P.cfg h.core (h.coreIn P x))).branchSetD = true := (Bool.not_eq_false _).mp hne
    rw [Core.pcSet_of_executing hx, Bool.or_eq_false_iff, Core.branchSet] at hset'
    cases hc : P.cfg.branchTargetALU && !(h.coreIn P x).dataIndTiming with
    | true =>
        -- a branch that is set at once redirects the fetch
        rw [hc, if_pos rfl] at hset'
        cases hset'.1.symm.trans hd
    | false => cases hs'.symm.trans (IdStage.stallId_of_branchSetD P.cfg _ _ hd hc)
  · exact HartObs.next_of_not_executing hi.later hx

/-- It finds all machines at rest. -/
theorem atRest_of_loads (hi : Inv P h) (hok : BusOk P h x) (hl : h.loads P x = true) :
    AtRest (h.next P x) := by
  obtain ⟨hf, hb⟩ := first_of_loads hi hok hl
  have hi' := inv_next hi hok
  obtain ⟨hbusy, hout, -⟩ := hi'.obs.core.rest fun hm => by
    cases hf.symm.trans hm.2.1
  refine ⟨hf, hi'.multdiv.resolve_right fun h => ?_, ?_, hout, hb⟩
  · cases hf.symm.trans h.2.1
  · have hbusy' : (h.next P x).core.lsu.busy = false := hbusy
    simpa [Lsu.busy] using hbusy'

variable (n m)

/-- **Machines between instructions.** In every run, on every data bus that answers each
granted request once: an instruction that has just been loaded into ID finds the ID-EX machine
in its first cycle, the multiplier, the divider and the LSU idle, no request unanswered and no
branch to be set. -/
theorem loaded_at_rest (P : WholeParams) (a : BitVec 31) (ins : List WholeIn) (x : WholeIn)
    (hok : Machine.Along (next P) (BusOk P) (reset n m a) (ins ++ [x]))
    (hl : (Machine.run (next P) (reset n m a) ins).loads P x = true) :
    AtRest (Machine.run (next P) (reset n m a) (ins ++ [x])) := by
  obtain ⟨hpre, hx⟩ := Machine.along_concat.mp hok
  rw [Machine.run_concat]
  exact atRest_of_loads (inv_run P a hpre) hx hl

/-- A NOP is loaded when the division `div x3, x1, x2` by zero is complete. -/
theorem loaded_at_rest_div :
    AtRest (Machine.run (next .small) (reset 4 .fast 0#31)
      [.idle, .idle, .fetch 0x0220C1B3#32, .idle, .fetch 0x00000013#32]) :=
  loaded_at_rest 4 .fast .small 0#31 [.idle, .idle, .fetch 0x0220C1B3#32, .idle]
    (.fetch 0x00000013#32) (by decide +kernel) (by decide +kernel)

end WholeHart

end CocoIbex
