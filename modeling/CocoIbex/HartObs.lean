import CocoIbex.Hart
import CocoIbex.LsuFault

/-!
# The Observed Hart

The hart with what a precise trap is about and no register holds: the word that the instruction
in ID was fetched as, the data transactions of the access under way, whether the instruction in
ID has ended, and the address of the next instruction that has not executed. `HartObs.Inv` ties
them to the registers. In particular the fetch unit stands at that address whenever no
instruction is on its way in ID (`Inv.npc`).

The history is computed from the signals of each cycle and is read by nothing in the hart, so a
run of the observed hart is a run of the hart. The address of the next instruction is defined by
what instructions do and not by the fetch: it goes on by the length of an instruction that ends,
to the target of a jump, a taken branch or a return, and to the handler of a trap.

What the invariant says of the core and of the LSU is taken over from their own modules.

## Main results

* `inv_next` and `inv_run` — the invariant survives every run on a bus that keeps to its
  protocol;
* `of_deliver` — what a cycle that hands over a word does;
* `kept_next` — the same instruction as before is in ID when none is handed over;
* `fetchAddrQ_next` — the fetch address in a cycle without a new word.
-/

namespace CocoIbex

/-- The hart with its observations. -/
structure HartObs (n : ℕ) where
  hart : Hart n
  /-- the word that was handed over to ID last -/
  word : BitVec 32
  log : FaultLog
  /-- where the instruction in ID has redirected the fetch to, as a half-word address -/
  target : Option (BitVec 31)
  /-- the instruction in ID has ended -/
  ended : Bool
  /-- the half-word address of the next instruction that has not executed, the one in ID
  aside -/
  npc : BitVec 31

namespace HartObs

variable {n : ℕ} (P : HartParams) (o : HartObs n) (x : HartIn)

/-- After a reset, with `a` in the fetch unit. -/
def reset (n : ℕ) (a : BitVec 31) : HartObs n := ⟨.reset n a, 0#32, .empty, none, true, a⟩

/-- The core of the hart. -/
def core : Core := o.hart.core

/-- The CSRs of the hart. -/
def csr : CsRegs n := o.hart.csr

/-- The inputs of the core. -/
def coreIn : CoreIn := o.hart.coreIn P x

/-- A word is handed over to ID and will be valid there. -/
def deliver : Bool := Core.deliver P.cfg o.core (o.coreIn P x)

/-- The inputs of the LSU. -/
def lsuIn : LsuIn :=
  Core.lsuIn P.cfg o.core (o.coreIn P x) (Core.lsuReq P.cfg o.core (o.coreIn P x))

/-- The length of an instruction in half words. -/
def halves (w : BitVec 32) : BitVec 31 := if isCompressed w then 1#31 else 2#31

/-- The instruction in ID ends: nothing holds it, or it asks for something special. -/
def ends : Bool :=
  o.core.ctrl.ctrlFsm == .decode && o.core.ifId.instrValidId
    && (!Core.stallId P.cfg o.core (o.coreIn P x)
      || o.core.ctrl.specialReqAll (Core.ctrlIn P.cfg o.core (o.coreIn P x)))

/-- The fetch is redirected in this cycle. -/
def redirect : Option (BitVec 31) :=
  if (o.hart.ctrlOut P x).pcSet then some ((o.hart.fetchAddrN P x).extractLsb' 1 31) else none

/-- One clock edge. The next address behind an instruction that ends is where it has
redirected the fetch to, or else the address behind it; a trap or return sets it anew. -/
def next : HartObs n where
  hart := o.hart.next P x
  word :=
    if (Core.ifIdIn P.cfg o.core (o.coreIn P x)).instrNewId then x.fetchRdata else o.word
  log := o.log.next o.core.lsu (o.lsuIn P x)
  target := if o.deliver P x then none else (o.redirect P x).or o.target
  ended := !o.deliver P x && (o.ended || o.ends P x)
  npc :=
    if o.ends P x && !o.ended then
      ((o.redirect P x).or o.target).getD (o.core.pcId.extractLsb' 1 31 + halves o.word)
    else (o.redirect P x).getD o.npc

/-- The data bus keeps to its protocol. -/
def BusOk : Prop := Core.BusOk P.cfg o.core (o.coreIn P x)

/-- The bus keeps to its protocol or not within one cycle. -/
instance : Decidable (BusOk P o x) := inferInstanceAs (Decidable (Core.BusOk _ _ _))

/-! ### The invariant -/

/-- The observations agree with the registers. -/
structure Inv (P : HartParams) (o : HartObs n) : Prop where
  core : Core.Inv P.cfg o.core
  /-- the instruction in ID is the expanded word -/
  ifId : o.core.ifId.instrValidId = true →
    o.core.ifId = IfIdReg.ofWord o.word ∧ o.core.instrRdataCId = o.word.extractLsb' 0 16
  fault : Lsu.FaultInv o.core.lsu o.log
  pending : o.log.pending.length = o.core.outstanding
  /-- an instruction on its way is run by the controller, and the fetch is behind it -/
  running : o.core.ifId.instrValidId = true → o.ended = false →
    o.core.ctrl.ctrlFsm = .decode ∧
      o.hart.fetchAddrQ = o.target.getD (o.core.pcId.extractLsb' 1 31 + halves o.word)
  /-- otherwise the fetch is at the next instruction that has not executed -/
  npc : o.core.ifId.instrValidId = false ∨ o.ended = true → o.hart.fetchAddrQ = o.npc
  /-- the instruction that is flushed is there -/
  flush : o.core.ctrl.ctrlFsm = .flush → o.core.ifId.instrValidId = true

/-- Nothing has been observed after a reset. -/
theorem inv_reset (P : HartParams) (a : BitVec 31) : Inv P (reset n a) where
  core := Core.inv_reset
  ifId := fun h => nomatch h
  fault := Lsu.faultInv_reset
  pending := rfl
  running := fun h => nomatch h
  npc := fun _ => rfl
  flush := fun h => nomatch h

variable {P o x}

/-! ### The data transactions -/

/-- The bus protocol of the core is that of the log. -/
theorem faultOk (hi : Inv P o) (hok : BusOk P o x) :
    Lsu.FaultOk o.core.lsu o.log (o.lsuIn P x) where
  gnt := fun hg => Core.of_dataGnt hok hg
  rvalid := by
    intro hv hl
    refine hok.rvalid hv ?_
    rw [← hi.pending, hl, List.length_nil]
  pmpWait := hok.pmpWait
  pmpGranted := hok.pmpGranted
  incr := fun ha => if_pos ha
  start := by
    intro _ hr
    have hrest := hi.core.rest (Core.not_memActive_of_lsuReq hr)
    have hnone : o.log.pending = [] := by
      refine List.length_eq_zero_iff.mp ?_
      rw [hi.pending, hrest.2.1]
    rw [FaultLog.answer]
    split_ifs <;> simp [hnone]

/-- The log has as many pending requests as the core has outstanding ones. -/
theorem pending_next (hi : Inv P o) (hok : BusOk P o x) :
    (o.next P x).log.pending.length = (o.next P x).core.outstanding := by
  have hout : (o.next P x).core.outstanding
      = o.core.outstanding + (o.coreIn P x).dataGnt.toNat - (o.coreIn P x).dataRvalid.toNat := rfl
  have hlog : (o.next P x).log.pending
      = (o.log.answer (o.lsuIn P x)).pending
        ++ if (o.coreIn P x).dataGnt then [(o.lsuIn P x).adderResultEx] else [] := rfl
  have hv : (o.lsuIn P x).dataRvalid = (o.coreIn P x).dataRvalid := rfl
  rw [hout, hlog, List.length_append, FaultLog.answer, hv, ← hi.pending]
  cases hr : (o.coreIn P x).dataRvalid with
  | false => cases (o.coreIn P x).dataGnt <;> simp
  | true =>
      have hne : o.log.pending.length ≠ 0 := by
        rw [hi.pending]
        exact hok.rvalid hr
      cases (o.coreIn P x).dataGnt with
      | false => simp
      | true =>
          simp
          omega

/-! ### The instruction in ID -/

/-- The pipeline registers hold the word handed over last. -/
theorem ifId_next (hi : Inv P o) (hv : (o.next P x).core.ifId.instrValidId = true) :
    (o.next P x).core.ifId = IfIdReg.ofWord (o.next P x).word ∧
      (o.next P x).core.instrRdataCId = (o.next P x).word.extractLsb' 0 16 := by
  set y := Core.ifIdIn P.cfg o.core (o.coreIn P x) with hy
  have hreg : (o.next P x).core.ifId = o.core.ifId.next y := rfl
  have hword : (o.next P x).word = if y.instrNewId then x.fetchRdata else o.word := rfl
  have hc : (o.next P x).core.instrRdataCId
      = if y.instrNewId then x.fetchRdata.extractLsb' 0 16 else o.core.instrRdataCId := rfl
  have hfetch : y.fetchRdata = x.fetchRdata := rfl
  rw [hreg] at hv ⊢
  rw [hword, hc]
  refine ⟨IfIdReg.next_eq_ofWord y (fun h => (hi.ifId h).1) hv, ?_⟩
  cases hnew : y.instrNewId with
  | true => simp
  | false =>
      have hold := (IfIdReg.valid_of_next hv).resolve_right (by simp [hnew])
      simp [(hi.ifId hold).2]

/-- What a cycle that hands over a word does. -/
theorem of_deliver (hd : o.deliver P x = true) :
    (o.hart.ctrlOut P x).pcSet = false ∧ o.hart.idInReady P x = true ∧
      x.fetchValid = true ∧ (Core.ifIdIn P.cfg o.core (o.coreIn P x)).instrNewId = true := by
  simp only [deliver, Core.deliver, Bool.and_eq_true, Bool.not_eq_true'] at hd
  obtain ⟨hnew, hset⟩ := hd
  have hnew' := hnew
  simp only [IfIdIn.instrNewId, Bool.and_eq_true] at hnew'
  exact ⟨hset, hnew'.2, hnew'.1, hnew⟩

/-- The fetch unit in a cycle that hands over no word. -/
theorem fetchAddrQ_next (hd : o.deliver P x = false) :
    (o.next P x).hart.fetchAddrQ = (o.redirect P x).getD o.hart.fetchAddrQ := by
  change o.hart.fetchAddrD P x = _
  rw [Hart.fetchAddrD, redirect]
  cases hset : (o.hart.ctrlOut P x).pcSet with
  | true => rfl
  | false =>
      have hready : (x.fetchValid && o.hart.idInReady P x) = false := by
        have hset' : (Core.ctrlOut P.cfg o.core (o.coreIn P x)).pcSet = false := hset
        have hnew : (Core.ifIdIn P.cfg o.core (o.coreIn P x)).instrNewId = false := by
          simpa [deliver, Core.deliver, hset'] using hd
        exact hnew
      simp [hready]

/-- A word that is handed over is run in the next cycle, and the fetch is behind it. -/
theorem running_of_deliver (hd : o.deliver P x = true) :
    (o.next P x).core.ctrl.ctrlFsm = .decode ∧
      (o.next P x).hart.fetchAddrQ
        = (o.next P x).core.pcId.extractLsb' 1 31 + halves (o.next P x).word := by
  obtain ⟨hset, hready, hvalid, hnew⟩ := of_deliver hd
  have hword : (o.next P x).word = x.fetchRdata := if_pos hnew
  have hpc : (o.next P x).core.pcId = o.hart.fetchAddrQ ++ 0#1 := if_pos hnew
  have haddr : (o.next P x).hart.fetchAddrQ = o.hart.fetchAddrQ + halves x.fetchRdata := by
    change o.hart.fetchAddrD P x = _
    simp [Hart.fetchAddrD, hset, hready, hvalid, halves]
  refine ⟨?_, ?_⟩
  · have hready' := hready
    simp only [Hart.idInReady, Ctrl.idInReady, Bool.and_eq_true, Bool.not_eq_true'] at hready'
    exact Ctrl.decode_of_ready hready'.1 hready'.2 hset
  · have hlow : (o.hart.fetchAddrQ ++ 0#1).extractLsb' 1 31 = o.hart.fetchAddrQ :=
      BitVec.extractLsb'_append_eq_left
    rw [haddr, hword, hpc, hlow]

/-- An instruction that has not ended stalls and is not special. -/
theorem of_not_ends (hfsm : o.core.ctrl.ctrlFsm = .decode)
    (hv : o.core.ifId.instrValidId = true) (he : o.ends P x = false) :
    Core.stallId P.cfg o.core (o.coreIn P x) = true ∧
      o.core.ctrl.specialReqAll (Core.ctrlIn P.cfg o.core (o.coreIn P x)) = false := by
  simpa [ends, hfsm, hv] using he

/-- It stays in ID, and the controller in `DECODE`. -/
theorem next_of_not_ends (hfsm : o.core.ctrl.ctrlFsm = .decode)
    (hv : o.core.ifId.instrValidId = true) (he : o.ends P x = false) :
    (o.next P x).core.ctrl.ctrlFsm = .decode ∧ (o.next P x).core.ifId.instrValidId = true := by
  obtain ⟨hs, hsp⟩ := of_not_ends hfsm hv he
  have hflush : Core.flushId P.cfg o.core (o.coreIn P x) = false := by
    simp [Core.flushId, Ctrl.flushId, hfsm]
  refine ⟨?_, (Core.next_of_stall hv hs hflush).1⟩
  have hst : (Core.ctrlIn P.cfg o.core (o.coreIn P x)).stall = true := hs
  change (Core.next P.cfg o.core (o.coreIn P x)).ctrl.ctrlFsm = .decode
  simp [Core.ctrlFsm_next_decode hfsm, Ctrl.decodeOut, hst, hsp]

/-- The same instruction as before is in ID when none is handed over. -/
theorem kept_next (hd : o.deliver P x = false)
    (hv : (o.next P x).core.ifId.instrValidId = true) :
    o.core.ifId.instrValidId = true ∧ (o.next P x).core.pcId = o.core.pcId ∧
      (o.next P x).word = o.word := by
  have hd' : Core.deliver P.cfg o.core (o.coreIn P x) = false := hd
  obtain ⟨hv', -, hs, -, -⟩ := Core.instr_next hd' hv
  have hnew : (Core.ifIdIn P.cfg o.core (o.coreIn P x)).instrNewId = false := by
    obtain hs | hs := hs <;> simp [IfIdIn.instrNewId, IfIdIn.idInReady, Core.ifIdIn, hs]
  exact ⟨hv', by simp [next, core, Hart.next, Core.next, show
    (Core.ifIdIn P.cfg o.hart.core (o.hart.coreIn P x)).instrNewId = false from hnew],
    by simp [next, hnew]⟩

/-- A valid instruction that has not ended is in DECODE, and the fetch has gone on behind it or to
its target. -/
theorem running_next (hi : Inv P o) (hv : (o.next P x).core.ifId.instrValidId = true)
    (he : (o.next P x).ended = false) :
    (o.next P x).core.ctrl.ctrlFsm = .decode ∧
      (o.next P x).hart.fetchAddrQ = (o.next P x).target.getD
        ((o.next P x).core.pcId.extractLsb' 1 31 + halves (o.next P x).word) := by
  cases hd : o.deliver P x with
  | true =>
      have htarget : (o.next P x).target = none := if_pos hd
      rw [htarget]
      exact running_of_deliver hd
  | false =>
      have he' : o.ended = false ∧ o.ends P x = false := by simpa [next, hd] using he
      obtain ⟨hv', hpc, hword⟩ := kept_next hd hv
      obtain ⟨hfsm, haddr⟩ := hi.running hv' he'.1
      have htarget : (o.next P x).target = (o.redirect P x).or o.target := by simp [next, hd]
      refine ⟨(next_of_not_ends hfsm hv' he'.2).1, ?_⟩
      rw [fetchAddrQ_next hd, htarget, hpc, hword, haddr]
      cases o.redirect P x <;> rfl

/-- Without such an instruction the fetch is at the next PC. -/
theorem npc_next (hi : Inv P o)
    (h : (o.next P x).core.ifId.instrValidId = false ∨ (o.next P x).ended = true) :
    (o.next P x).hart.fetchAddrQ = (o.next P x).npc := by
  have hd : o.deliver P x = false := by
    by_contra hne
    rw [Bool.not_eq_false] at hne
    obtain ⟨hset, -, -, hnew⟩ := of_deliver hne
    obtain hv | he := h
    · have hset' : (Core.ifIdIn P.cfg o.core (o.coreIn P x)).pcSet = false := hset
      have hnew' := hnew
      simp only [IfIdIn.instrNewId, Bool.and_eq_true] at hnew'
      have hvalid : (o.next P x).core.ifId.instrValidId = true := by
        change (o.core.ifId.next (Core.ifIdIn P.cfg o.core (o.coreIn P x))).instrValidId = true
        simp [IfIdReg.next, hnew'.1, hnew'.2, hset']
      rw [hvalid] at hv
      cases hv
    · simp [next, hne] at he
  rw [fetchAddrQ_next hd]
  by_cases hrun : o.core.ifId.instrValidId = true ∧ o.ended = false
  · obtain ⟨hv, he⟩ := hrun
    obtain ⟨hfsm, haddr⟩ := hi.running hv he
    cases hends : o.ends P x with
    | false =>
        obtain ⟨-, hv'⟩ := next_of_not_ends hfsm hv hends
        obtain h | h := h
        · rw [hv'] at h
          cases h
        · simp [next, he, hends] at h
    | true =>
        simp only [next, hends, he, haddr]
        cases o.redirect P x <;> rfl
  · have hstay : (o.ends P x && !o.ended) = false := by
      cases he : o.ended with
      | true => simp
      | false =>
          have hv : o.core.ifId.instrValidId = false := by simpa [he] using hrun
          simp [ends, hv]
    have hold : o.hart.fetchAddrQ = o.npc := by
      refine hi.npc ?_
      cases hv : o.core.ifId.instrValidId with
      | false => exact Or.inl rfl
      | true => exact Or.inr (by simpa [hv] using hrun)
    simp [next, hstay, hold]

/-- FLUSH has a valid instruction in ID. -/
theorem flush_next (h : (o.next P x).core.ctrl.ctrlFsm = .flush) :
    (o.next P x).core.ifId.instrValidId = true := by
  obtain ⟨hfsm, hv, -, hhalt⟩ := Ctrl.of_flush (s := o.core.ctrl)
    (y := Core.ctrlIn P.cfg o.core (o.coreIn P x)) h
  have hhalt' : (Core.ctrlOut P.cfg o.core (o.coreIn P x)).haltIf = true := hhalt
  have hflush : Core.flushId P.cfg o.core (o.coreIn P x) = false := by
    simp [Core.flushId, Ctrl.flushId, hfsm]
  have hd : Core.deliver P.cfg o.core (o.coreIn P x) = false := by
    simp [Core.deliver, IfIdIn.instrNewId, IfIdIn.idInReady, Core.ifIdIn, hhalt']
  have hv' : o.core.ifId.instrValidId = true := hv
  change (Core.next P.cfg o.core (o.coreIn P x)).ifId.instrValidId = true
  simp [Core.instrValidId_next hd, hv', hhalt', hflush]

/-- One cycle keeps the invariant. -/
theorem inv_next (hi : Inv P o) (hok : BusOk P o x) : Inv P (o.next P x) where
  core := Core.inv_next hi.core hok
  ifId := ifId_next hi
  fault := Lsu.faultInv_next hi.fault (faultOk hi hok)
  pending := pending_next hi hok
  running := running_next hi
  npc := npc_next hi
  flush := flush_next

/-- Every run on a bus that keeps to its protocol meets the invariant. -/
theorem inv_run (a : BitVec 31) {ins : List HartIn}
    (hok : Machine.Along (next P) (BusOk P) (reset n a) ins) :
    Inv P (Machine.run (next P) (reset n a) ins) :=
  Machine.run_induction (Inv P) (fun _ _ hi hx => inv_next hi hx) (inv_reset P a) hok

end HartObs

end CocoIbex
