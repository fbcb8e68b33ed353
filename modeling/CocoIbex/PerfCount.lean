import CocoIbex.PerfEvents

/-!
# The Counts of the Performance Events

Both counts along the runs of the hart: the increments of the lines, and the documented events.
A cycle is balanced when it adds the same to both, with the jumps and branches that are under
way; `PerfObs.balanced_iff_documented` says which cycles are.

A line may pulse some cycles before the instruction retires, so the two counts differ while a
jump or a branch is in ID. What is due at any time is a function of the state (`due`), and the
statement is that the lines have counted the documented events and what is due (`Accounts`). A
cycle that is not balanced is one that `Documented` excludes: an executing instruction raises an
exception or has been complete before, an access is split, which is one event of the line and
two of the documentation, a `fence.i` counts as a jump, or a branch that is not taken takes the
cycle of a taken one, for the fixed timing.

## Main results

* `inv_next` — the step lemma;
* `balanced_iff_documented` — which cycles add the same to both counts;
* `perf_events_iff` — the counts agree all along if and only if all cycles are of this kind.
-/

namespace CocoIbex

/-! ### The counts along a run -/

/-- The observed hart, the decision of EX on the instruction in ID, the increments of the
lines so far, and the documented events so far. -/
structure PerfObs (n : ℕ) where
  obs : HartObs n
  taken : Bool
  pulses : PerfTally
  events : PerfTally

namespace PerfObs

variable {n : ℕ} (P : HartParams) (s : PerfObs n) (x : HartIn)

/-- After a reset, with `a` in the fetch unit. -/
def reset (n : ℕ) (a : BitVec 31) : PerfObs n := ⟨.reset n a, false, .zero, .zero⟩

/-- The decision of EX, which is that of the first cycle. -/
def decision : Bool :=
  if s.obs.core.idFsm = .firstCycle then x.branchDecision else s.taken

/-- One clock edge. -/
def next : PerfObs n where
  obs := s.obs.next P x
  taken := s.decision x
  pulses := s.pulses.add (s.obs.perfEvents P x).tally
  events := s.events.add (s.obs.documented P x (s.decision x))

/-- The jump or branch in ID that has executed its first cycle and not retired yet. -/
def underWay : PerfTally :=
  { PerfTally.zero with
    jump := (s.obs.later && s.obs.isJump).toNat
    branch := (s.obs.later && s.obs.isBranch).toNat
    branchTaken := (s.obs.later && s.obs.isBranch && s.taken).toNat }

/-- The pulse for the taken branch that is still to come. -/
def due : PerfTally :=
  { PerfTally.zero with branchTaken := (s.obs.later && s.obs.core.branchSetQ).toNat }

/-- The lines have pulsed once for each documented event: what has pulsed and is due is what
has happened and is under way. -/
def Accounts : Prop := s.pulses.add s.due = s.events.add s.underWay

/-- Two counts are compared. -/
instance : Decidable s.Accounts := inferInstanceAs (Decidable (_ = _))

/-- The pulses of the cycle are those of its documented events. -/
def Balanced : Prop :=
  ((s.obs.perfEvents P x).tally.add (s.next P x).due).add s.underWay
    = ((s.obs.documented P x (s.decision x)).add (s.next P x).underWay).add s.due

variable {P s x}

/-- The accounts stay right in a balanced cycle only. -/
theorem accounts_next_iff (h : s.Accounts) : (s.next P x).Accounts ↔ s.Balanced P x := by
  simp only [Accounts, Balanced, PerfTally.add, PerfTally.mk.injEq, next] at h ⊢
  obtain ⟨h1, h2, h3, h4, h5, h6, h7⟩ := h
  constructor
  · rintro ⟨g1, g2, g3, g4, g5, g6, g7⟩
    refine ⟨?_, ?_, ?_, ?_, ?_, ?_, ?_⟩ <;> omega
  · rintro ⟨g1, g2, g3, g4, g5, g6, g7⟩
    refine ⟨?_, ?_, ?_, ?_, ?_, ?_, ?_⟩ <;> omega

end PerfObs

namespace PerfObs

variable {n : ℕ} {P : HartParams} {s : PerfObs n} {x : HartIn}

/-! ### The contract -/

/-- No instruction does in this cycle what the lines count otherwise: an executing instruction
raises no exception, an instruction that is complete has not ended before, no access is split,
no FENCE.I starts, and with the fixed timing no branch that is not taken. -/
structure Documented (P : HartParams) (s : PerfObs n) (x : HartIn) : Prop where
  exception : Core.Executing s.obs.core → s.obs.exception P x = none
  once : Core.Executing s.obs.core →
    Core.stallId P.cfg s.obs.core (s.obs.coreIn P x) = false → s.obs.ended = false
  aligned : s.obs.startsAccess P x = true → (s.obs.lsuIn P x).splitMisalignedAccess = false
  jump : Core.Executing s.obs.core → s.obs.core.idFsm = .firstCycle → s.obs.isFenceI = false
  taken : Core.Executing s.obs.core → s.obs.core.idFsm = .firstCycle → s.obs.isBranch = true →
    (s.obs.idIn P x).dataIndTiming = true → x.branchDecision = true

/-- The contract of a cycle is a computation. -/
instance : Decidable (Documented P s x) :=
  decidable_of_iff
    ((Core.Executing s.obs.core → s.obs.exception P x = none) ∧
      (Core.Executing s.obs.core →
        Core.stallId P.cfg s.obs.core (s.obs.coreIn P x) = false → s.obs.ended = false) ∧
      (s.obs.startsAccess P x = true → (s.obs.lsuIn P x).splitMisalignedAccess = false) ∧
      (Core.Executing s.obs.core → s.obs.core.idFsm = .firstCycle → s.obs.isFenceI = false) ∧
      (Core.Executing s.obs.core → s.obs.core.idFsm = .firstCycle → s.obs.isBranch = true →
        (s.obs.idIn P x).dataIndTiming = true → x.branchDecision = true))
    ⟨fun h => ⟨h.1, h.2.1, h.2.2.1, h.2.2.2.1, h.2.2.2.2⟩,
      fun h => ⟨h.exception, h.once, h.aligned, h.jump, h.taken⟩⟩

/-- What holds in every cycle of a run. -/
structure Inv (P : HartParams) (s : PerfObs n) : Prop where
  obs : HartObs.Inv P s.obs
  later : HartObs.Later P s.obs
  timed : HartObs.BranchTimed P s.obs

/-- Nothing has been counted after a reset. -/
theorem inv_reset (P : HartParams) (a : BitVec 31) : Inv P (reset n a) where
  obs := HartObs.inv_reset P a
  later := fun h => nomatch h
  timed := fun h => nomatch h

/-- **Step lemma.** The invariant survives every cycle that keeps the promises. -/
theorem inv_next (hi : Inv P s) (hp : s.obs.Promised P x) : Inv P (s.next P x) where
  obs := HartObs.inv_next hi.obs hp.bus
  later := HartObs.later_next hi.obs hi.later hp
  timed := HartObs.branchTimed_next hi.obs hi.later hp

/-! ### The accounts of one cycle -/

/-- In the first cycle of an instruction nothing is under way and nothing due. -/
theorem idle_of_firstCycle (hf : s.obs.core.idFsm = .firstCycle) :
    s.underWay = .zero ∧ s.due = .zero := by
  have hlater : s.obs.later = false := by simp [HartObs.later, hf]
  simp [underWay, due, hlater, PerfTally.zero]

/-- The balance, event by event. -/
theorem balanced_iff :
    s.Balanced P x ↔
      (s.obs.completes P x).toNat = (s.obs.retires P x).toNat ∧
      (s.obs.completes P x && s.obs.core.ifId.instrIsCompressedId).toNat
        = (s.obs.retires P x && isCompressed s.obs.word).toNat ∧
      (s.obs.perfEvents P x).memLoad.toNat
        = (if (Core.main P.cfg s.obs.core).dataWe then 0 else s.obs.accesses P x) ∧
      (s.obs.perfEvents P x).memStore.toNat
        = (if (Core.main P.cfg s.obs.core).dataWe then s.obs.accesses P x else 0) ∧
      (s.obs.perfEvents P x).jump.toNat + s.underWay.jump
        = (s.obs.retires P x && s.obs.isJump).toNat + (s.next P x).underWay.jump ∧
      (s.obs.perfEvents P x).branch.toNat + s.underWay.branch
        = (s.obs.retires P x && s.obs.isBranch).toNat + (s.next P x).underWay.branch ∧
      (s.obs.perfEvents P x).branchTaken.toNat + (s.next P x).due.branchTaken
          + s.underWay.branchTaken
        = (s.obs.retires P x && s.obs.isBranch && s.decision x).toNat
          + (s.next P x).underWay.branchTaken + s.due.branchTaken := by
  simp only [Balanced, PerfTally.add, PerfEvents.tally_eq, HartObs.documented, due, underWay,
    PerfTally.zero, HartObs.perfEvents, PerfTally.mk.injEq, Nat.add_zero]

/-- The accesses pulse once each where they are not split. -/
theorem access_balanced (hi : Inv P s)
    (ha : s.obs.startsAccess P x = true → (s.obs.lsuIn P x).splitMisalignedAccess = false) :
    (s.obs.perfEvents P x).memLoad.toNat
        = (if (Core.main P.cfg s.obs.core).dataWe then 0 else s.obs.accesses P x) ∧
      (s.obs.perfEvents P x).memStore.toNat
        = (if (Core.main P.cfg s.obs.core).dataWe then s.obs.accesses P x else 0) := by
  obtain ⟨hload, hstore⟩ := HartObs.perf_access (x := x) hi.obs
  rw [hload, hstore, HartObs.accesses]
  cases hs : s.obs.startsAccess P x with
  | false => simp
  | true =>
      rw [ha hs]
      cases (Core.main P.cfg s.obs.core).dataWe <;> exact ⟨rfl, rfl⟩

/-- A cycle in which nothing executes has no events. -/
theorem balanced_of_not_executing (hi : Inv P s) (hok : s.obs.BusOk P x)
    (hx : ¬ Core.Executing s.obs.core) :
    s.Balanced P x := by
  have hfirst : s.obs.core.idFsm = .firstCycle := by
    cases hm : s.obs.core.idFsm with
    | firstCycle => rfl
    | multiCycle => exact absurd (hi.later hm).1 hx
  obtain ⟨hw, hd⟩ := idle_of_firstCycle hfirst
  obtain ⟨hw', hd'⟩ := idle_of_firstCycle (s := s.next P x)
    (HartObs.next_of_not_executing (x := x) hi.later hx).1
  have hcomp : s.obs.completes P x = false := by
    by_contra hne
    exact hx (HartObs.completes_iff.mp ((Bool.not_eq_false _).mp hne)).1
  have hret : s.obs.retires P x = false := by
    rw [HartObs.retires_eq hi.obs hok, hcomp]
    rfl
  have hex := HartObs.instrExecuting_eq_false (P := P) (x := x) hx
  have hstart : s.obs.startsAccess P x = false := by simp [HartObs.startsAccess, hex]
  obtain ⟨hjump, htaken⟩ := @Core.perf_of_not_executing P.cfg _
    (s.obs.coreIn P x) hx
  have hj : (s.obs.perfEvents P x).jump = false := hjump
  have ht : (s.obs.perfEvents P x).branchTaken = false := htaken
  have hb : (s.obs.perfEvents P x).branch = false := by
    simp [HartObs.perfEvents, IdStage.perfBranch, hex]
  obtain ⟨hload, hstore⟩ := access_balanced (x := x) hi fun h => by simp [hstart] at h
  rw [balanced_iff, hcomp, hret, hj, hb, ht, hw, hw', hd, hd']
  exact ⟨rfl, rfl, hload, hstore, rfl, rfl, rfl⟩

/-- A stalled instruction stays in ID for a later cycle. -/
structure Stalled (P : HartParams) (s : PerfObs n) (x : HartIn) : Prop where
  completes : s.obs.completes P x = false
  retires : s.obs.retires P x = false
  later : (s.next P x).obs.later = true
  isJump : (s.next P x).obs.isJump = s.obs.isJump
  isBranch : (s.next P x).obs.isBranch = s.obs.isBranch

/-- An instruction that stalls counts no event of its end. -/
theorem stalled_of_stall (hi : Inv P s) (hok : s.obs.BusOk P x) (hx : Core.Executing s.obs.core)
    (hs : Core.stallId P.cfg s.obs.core (s.obs.coreIn P x) = true) : Stalled P s x := by
  obtain ⟨-, hx', -, hreg, hm⟩ := HartObs.next_of_stall hi.obs hok hx hs
  have hcomp : s.obs.completes P x = false := by
    by_contra hne
    cases hs.symm.trans (HartObs.completes_iff.mp ((Bool.not_eq_false _).mp hne)).2
  refine ⟨hcomp, ?_, HartObs.later_iff.mpr ⟨hx', hm⟩, ?_, ?_⟩
  · rw [HartObs.retires_eq hi.obs hok, hcomp]
    rfl
  · simp only [HartObs.isJump, next, hreg]
  · simp only [HartObs.isBranch, next, hreg]

/-- A complete instruction leaves nothing under way and nothing due. -/
theorem next_of_complete (hi : Inv P s) (hp : s.obs.Promised P x)
    (hx : Core.Executing s.obs.core)
    (hs : Core.stallId P.cfg s.obs.core (s.obs.coreIn P x) = false) :
    s.obs.completes P x = true ∧ (s.next P x).underWay = .zero ∧ (s.next P x).due = .zero :=
  ⟨HartObs.completes_iff.mpr ⟨hx, hs⟩,
    idle_of_firstCycle (HartObs.idFsm_next_of_not_stall hi.obs hi.later hp.ex hx hs)⟩

/-- A branch in its first cycle stalls with the fixed timing, or when it is taken without the
branch target ALU. -/
theorem stall_of_branch (hi : Inv P s) (hx : Core.Executing s.obs.core)
    (hf : s.obs.core.idFsm = .firstCycle)
    (hb : (IdStage.main P.cfg s.obs.core.idFsm (s.obs.idIn P x)).branchInDec = true) :
    Core.stallId P.cfg s.obs.core (s.obs.coreIn P x)
      = ((s.obs.idIn P x).dataIndTiming || (!P.branchTargetALU && x.branchDecision)) := by
  have hxe := HartObs.executing_iff (P := P) (x := x).mpr hx
  obtain ⟨hd, hm, -⟩ := IdStage.inDec_exclusive (Or.inl hb)
  have hbusy : s.obs.core.lsu.busy = false :=
    (hi.obs.core.rest fun h => by cases hf.symm.trans h.2.1).1
  have hst := @IdStage.stallId_firstCycle P.cfg _ hxe hbusy
  change IdStage.stallId P.cfg s.obs.core.idFsm (s.obs.idIn P x) = _
  rw [hf] at hb hd hm ⊢
  rw [Bool.eq_iff_iff]
  refine hst.trans ?_
  simp only [IdStage.fsmOut, hxe, hd, hm, hb, Bool.false_eq_true, if_true, if_false]
  have hbt : P.cfg.branchTargetALU = P.branchTargetALU := rfl
  have hdec : (s.obs.idIn P x).branchDecision = x.branchDecision := rfl
  rw [hbt, hdec]
  split_ifs with hc <;> simp_all

/-- What ID decodes of an instruction that raises no exception. -/
theorem inDec_of_no_exception (hx : Core.Executing s.obs.core)
    (he : s.obs.exception P x = none) :
    (IdStage.main P.cfg s.obs.core.idFsm (s.obs.idIn P x)).branchInDec = s.obs.isBranch ∧
      (IdStage.main P.cfg s.obs.core.idFsm (s.obs.idIn P x)).jumpInDec
        = (s.obs.isJump || s.obs.isFenceI) :=
  HartObs.inDec_of_legal (HartObs.legal_of_no_exception hx he)

/-- The compressed instructions are those of the compressed words. -/
theorem isCompressed_of_executing (hi : Inv P s) (hx : Core.Executing s.obs.core) :
    s.obs.core.ifId.instrIsCompressedId = isCompressed s.obs.word := by
  rw [(hi.obs.ifId hx.1).1]
  rfl

/-- Where the rules of the events are met, the counts stay balanced. -/
theorem balanced_of_documented (hi : Inv P s) (hp : s.obs.Promised P x)
    (hd : Documented P s x) : s.Balanced P x := by
  by_cases hx : Core.Executing s.obs.core
  case neg => exact balanced_of_not_executing hi hp.bus hx
  have he := hd.exception hx
  obtain ⟨hbr, hju⟩ := inDec_of_no_exception hx he
  obtain ⟨hload, hstore⟩ := access_balanced hi hd.aligned
  rw [balanced_iff]
  cases hs : Core.stallId P.cfg s.obs.core (s.obs.coreIn P x) with
  | false =>
      obtain ⟨hcomp, hw', hd'⟩ := next_of_complete hi hp hx hs
      have hret : s.obs.retires P x = true := by
        rw [HartObs.retires_eq hi.obs hp.bus, hcomp, hd.once hx hs, he]
        rfl
      rw [hcomp, hret, hw', hd', isCompressed_of_executing hi hx]
      refine ⟨rfl, rfl, hload, hstore, ?_⟩
      cases hf : s.obs.core.idFsm with
      | firstCycle =>
          obtain ⟨hj, hb, ht, -⟩ := HartObs.perfEvents_firstCycle (x := x) hi.obs hx hf
          obtain ⟨hw, hdue⟩ := idle_of_firstCycle hf
          have hdec : s.decision x = x.branchDecision := if_pos hf
          rw [hj, hb, ht, hju, hbr, hd.jump hx hf, hw, hdue, hdec]
          refine ⟨by simp, by simp, ?_⟩
          cases hisb : s.obs.isBranch with
          | false => simp
          | true =>
              have hst := (stall_of_branch hi hx hf (hbr.trans hisb)).symm.trans hs
              simp only [Bool.or_eq_false_iff] at hst
              cases hbt : P.branchTargetALU <;> simp_all
      | multiCycle =>
          obtain ⟨hj, hb, ht, -⟩ := HartObs.perfEvents_multiCycle (x := x) hi.timed hx hf
          have hlater : s.obs.later = true := HartObs.later_iff.mpr ⟨hx, hf⟩
          have hdec : s.decision x = s.taken := by simp [decision, hf]
          rw [hj, hb, ht, hdec]
          simp only [underWay, due, hlater, PerfTally.zero, Bool.true_and, Bool.toNat_false]
          omega
  | true =>
      obtain ⟨hcomp, hret, hlater', hjump', hbranch'⟩ := stalled_of_stall hi hp.bus hx hs
      rw [hcomp, hret]
      refine ⟨rfl, rfl, hload, hstore, ?_⟩
      cases hf : s.obs.core.idFsm with
      | firstCycle =>
          obtain ⟨hj, hb, ht, hq⟩ := HartObs.perfEvents_firstCycle (x := x) hi.obs hx hf
          obtain ⟨hw, hdue⟩ := idle_of_firstCycle hf
          have hdec : (s.next P x).taken = x.branchDecision := if_pos hf
          have hq' : (s.next P x).obs.core.branchSetQ = _ := hq
          rw [hj, hb, ht, hju, hbr, hd.jump hx hf, hw, hdue]
          simp only [underWay, due, hlater', hjump', hbranch', hdec, hq', hbr, PerfTally.zero]
          refine ⟨by simp, by simp, ?_⟩
          cases hisb : s.obs.isBranch with
          | false => simp
          | true =>
              have hst := (stall_of_branch hi hx hf (hbr.trans hisb)).symm.trans hs
              have htaken := hd.taken hx hf hisb
              cases hdit : (s.obs.idIn P x).dataIndTiming with
              | true => simp [htaken hdit]
              | false =>
                  rw [hdit, Bool.false_or, Bool.and_eq_true, Bool.not_eq_true'] at hst
                  simp [hst.1, hst.2]
      | multiCycle =>
          obtain ⟨hj, hb, ht, hq⟩ := HartObs.perfEvents_multiCycle (x := x) hi.timed hx hf
          have hq' : (s.next P x).obs.core.branchSetQ = false := hq
          have hlater : s.obs.later = true := HartObs.later_iff.mpr ⟨hx, hf⟩
          have hdec : (s.next P x).taken = s.taken := by simp [next, decision, hf]
          rw [hj, hb, ht]
          simp only [underWay, due, hlater, hlater', hjump', hbranch', hdec, hq', PerfTally.zero]
          refine ⟨by simp, by simp, ?_⟩
          simp only [Bool.true_and, Bool.and_false, Bool.false_and, Bool.toNat_false]
          omega

/-- A cycle against the contract is out of balance. -/
theorem documented_of_balanced (hi : Inv P s) (hp : s.obs.Promised P x)
    (hbal : s.Balanced P x) : Documented P s x := by
  obtain ⟨hret, -, hload, hstore, hjump, -, htaken⟩ := balanced_iff.mp hbal
  have hretires := HartObs.retires_eq (x := x) hi.obs hp.bus
  have hexc : Core.Executing s.obs.core → s.obs.exception P x = none := by
    intro hx
    cases he : s.obs.exception P x with
    | none => rfl
    | some e =>
        have hcomp := HartObs.completes_of_exception hi.obs hp.bus hx (by rw [he]; rfl)
        rw [hretires, hcomp, he] at hret
        simp at hret
  refine ⟨hexc, ?_, ?_, ?_, ?_⟩
  · intro hx hs
    by_contra hne
    have hended : s.obs.ended = true := (Bool.not_eq_false _).mp hne
    rw [hretires, HartObs.completes_iff.mpr ⟨hx, hs⟩, hended] at hret
    simp at hret
  · intro hs
    by_contra hne
    have hsplit : (s.obs.lsuIn P x).splitMisalignedAccess = true := (Bool.not_eq_false _).mp hne
    obtain ⟨hl, hst⟩ := HartObs.perf_access (x := x) hi.obs
    rw [hl, hs, HartObs.accesses, hs, hsplit] at hload
    rw [hst, hs, HartObs.accesses, hs, hsplit] at hstore
    cases hw : (Core.main P.cfg s.obs.core).dataWe with
    | true => simp [hw] at hstore
    | false => simp [hw] at hload
  · intro hx hf
    by_contra hne
    have hfence : s.obs.isFenceI = true := (Bool.not_eq_false _).mp hne
    have hju := (inDec_of_no_exception hx (hexc hx)).2
    have hnot : s.obs.isJump = false := by
      simp only [HartObs.isFenceI, Bool.and_eq_true, beq_iff_eq] at hfence
      simp [HartObs.isJump, hfence.1]
    obtain ⟨hj, -⟩ := HartObs.perfEvents_firstCycle (x := x) hi.obs hx hf
    rw [hj, hju, hfence, hnot, (idle_of_firstCycle hf).1] at hjump
    cases hs : Core.stallId P.cfg s.obs.core (s.obs.coreIn P x) with
    | false =>
        rw [(next_of_complete hi hp hx hs).2.1] at hjump
        simp [PerfTally.zero] at hjump
    | true =>
        have hst := stalled_of_stall hi hp.bus hx hs
        simp [underWay, hst.isJump, hnot, PerfTally.zero] at hjump
  · intro hx hf hb hdit
    by_contra hne
    have hdec : x.branchDecision = false := (Bool.not_eq_true _).mp hne
    have hbr := (inDec_of_no_exception hx (hexc hx)).1
    have hs : Core.stallId P.cfg s.obs.core (s.obs.coreIn P x) = true := by
      rw [stall_of_branch hi hx hf (hbr.trans hb), hdit]
      rfl
    have hst := stalled_of_stall hi hp.bus hx hs
    obtain ⟨hw, hdue⟩ := idle_of_firstCycle hf
    obtain ⟨-, -, -, hq⟩ := HartObs.perfEvents_firstCycle (x := x) hi.obs hx hf
    have hq' : (s.next P x).obs.core.branchSetQ = _ := hq
    have htk : (s.next P x).taken = x.branchDecision := if_pos hf
    rw [hst.retires, hw, hdue] at htaken
    simp only [underWay, due, hst.later, hst.isBranch, hq', hbr, hb, hdit, htk, hdec,
      PerfTally.zero] at htaken
    simp at htaken

/-- The lines and the documented events of a cycle agree in the contract only. -/
theorem balanced_iff_documented (hi : Inv P s) (hp : s.obs.Promised P x) :
    s.Balanced P x ↔ Documented P s x :=
  ⟨documented_of_balanced hi hp, balanced_of_documented hi hp⟩

/-! ### Every run -/

/-- Between two instructions the accounts are right when both counts are equal. -/
theorem counts_eq_of_accounts (h : s.Accounts) (hf : s.obs.core.idFsm = .firstCycle) :
    s.pulses = s.events := by
  obtain ⟨hw, hd⟩ := idle_of_firstCycle hf
  rw [Accounts, hw, hd] at h
  simpa [PerfTally.add, PerfTally.zero, PerfTally.ext_iff] using h

variable (n P)

/-- **Performance events.** In every run, and for every timing of the data bus: the lines have
counted the documented events all along, with the jump or branch under way, if and only if every
cycle keeps to the contract; and then both counts are equal between any two instructions. -/
theorem perf_events_iff (a : BitVec 31) (ins : List HartIn)
    (hp : Machine.Along (next P) (fun s x => s.obs.Promised P x) (reset n a) ins) :
    ((∀ pre, pre <+: ins → (Machine.run (next P) (reset n a) pre).Accounts) ↔
      Machine.Along (next P) (Documented P) (reset n a) ins) ∧
    (Machine.Along (next P) (Documented P) (reset n a) ins →
      ∀ pre, pre <+: ins →
        let s := Machine.run (next P) (reset n a) pre
        s.obs.core.idFsm = .firstCycle → s.pulses = s.events) := by
  have hiff : (∀ pre, pre <+: ins → (Machine.run (next P) (reset n a) pre).Accounts) ↔
      Machine.Along (next P) (Documented P) (reset n a) ins := by
    refine Machine.good_iff_along_of (fun s => Inv P s ∧ s.Accounts) Accounts ?_
      (fun _ h => h.2) ?_ ⟨inv_reset P a, rfl⟩ ins hp
    · rintro s x ⟨hi, ha⟩ hx hd
      exact ⟨inv_next hi hx, (accounts_next_iff ha).mpr (balanced_of_documented hi hx hd)⟩
    · rintro s x ⟨hi, ha⟩ hx hd hacc
      exact hd (documented_of_balanced hi hx ((accounts_next_iff ha).mp hacc))
  refine ⟨hiff, fun hd pre hpre => ?_⟩
  intro s hf
  exact counts_eq_of_accounts (hiff.mpr hd pre hpre) hf

/-- The word `w` is fetched after a reset, and then `k` cycles pass. -/
def wordTrace (w : BitVec 32) (k : ℕ) : List HartIn :=
  [.idle, .idle, .fetch w] ++ List.replicate k .idle

/-- A jump to itself, `jal x0, 0`, is counted once as a jump. -/
theorem perf_events_jal :
    let s := Machine.run (next Hart.smallParams) (reset 4 0#31) (wordTrace 0x0000006F#32 2)
    s.pulses = s.events ∧ s.events.instrRet = 1 ∧ s.events.jump = 1 :=
  ⟨(perf_events_iff 4 Hart.smallParams 0#31 (wordTrace 0x0000006F#32 2) (by decide +kernel)).2
      (by decide +kernel) _ List.prefix_rfl (by decide +kernel),
    by decide +kernel, by decide +kernel⟩

/-- An ECALL raises an exception, and `minstret` counts it. -/
theorem ecall_counted :
    let s := Machine.run (next Hart.smallParams) (reset 4 0#31) (wordTrace 0x00000073#32 1)
    Machine.Along (next Hart.smallParams) (fun s x => s.obs.Promised Hart.smallParams x)
        (reset 4 0#31) (wordTrace 0x00000073#32 1) ∧
      s.obs.core.idFsm = .firstCycle ∧ s.pulses.instrRet = 1 ∧ s.events.instrRet = 0 := by
  decide +kernel

end PerfObs

end CocoIbex
