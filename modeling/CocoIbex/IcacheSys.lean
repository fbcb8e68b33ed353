import CocoIbex.IcacheStream

/-!
# The Cache Between the Core and the Bus

The cache with what its two sides see of it from one cycle to the next: the request that is held
until its grant, the output that is held until it is accepted, and whether the address counter
of the cache is still that of the instructions. It leaves them where an error is accepted of an
instruction whose first half word alone has been fetched: the counter goes on by four bytes and
the half word stays in the skid buffer (`slips`). A branch sets it right.

`EnvOk` has the rules of the two sides, as the source and its documentation have them: the bus
answers only what it has granted, the core starts with a branch, and it goes on behind an error
with one. The invariant puts the row of the fill buffers and the skid buffer together: the word
that the output waits for is the one at the address of the output, or the one behind it if the
first half is in the skid buffer (`expWord`).

The slip is not excluded but followed, so that what holds before it and what holds behind the
next branch are one statement.

## Main results

* `inv_next` and `inv_start` — the invariant of every run within the rules;
* `valid_eq` and `output_next` — when the output is valid, and where it goes on;
* `start_quiet` and `run_reset` — the start, and the invalidation behind it.
-/

namespace CocoIbex

open OneHot

/-- The cache, its requests, and what the core and the bus have seen of it. -/
structure IcacheSys where
  obs : IcacheObs
  /-- the word that was asked for without a grant -/
  heldReq : Option (BitVec 30)
  /-- the output that was not accepted -/
  heldOut : Option FetchOut
  /-- there has been a branch -/
  branched : Bool
  /-- an error has been accepted since the branch -/
  failed : Bool
  /-- the address counter has left the instructions since the branch -/
  outOfStep : Bool

namespace IcacheSys

variable (p : IcacheParams) (s : IcacheSys) (x : IcacheIn)

/-- The cache itself. -/
abbrev ic : Icache := s.obs.ic

/-- The first half word of an instruction is delivered as an error without the second. -/
def slips : Bool :=
  x.ready && s.ic.dataValid p x && !s.ic.skidValid && unaligned s.ic.outputAddr
    && s.ic.outputErr p x && !s.ic.outputCompressed p x

/-- The output is valid and neither accepted nor cancelled by a branch. -/
def holds : Bool := s.ic.valid p x && !x.ready && !x.branch

/-- One clock cycle. -/
def next : IcacheSys where
  obs := s.obs.next p x
  heldReq :=
    if s.ic.instrReq p x && !Icache.gntOrPmpErr x then some (s.ic.instrAddr p x) else none
  heldOut := if s.holds p x then some (s.ic.out p x) else none
  branched := s.branched || x.branch
  failed := !x.branch && (s.failed || (s.ic.valid p x && x.ready && (s.ic.out p x).err))
  outOfStep := !x.branch && (s.outOfStep || s.slips p x)

/-- The rules of the bus and of the core. The bus answers only what it has granted; the PMP
keeps to its verdict while a request is held. The core branches before it first asks for
instructions, to an even address; it accepts nothing while it does not ask for instructions,
and nothing behind an error before it has branched. -/
structure EnvOk : Prop where
  bus : x.instrRvalid = true → s.obs.pending ≠ []
  pmp : s.heldReq = some (s.ic.instrAddr p x) → x.instrPmpErr = false
  start : x.req = true → (s.branched || x.branch) = true
  even : x.branch = true → x.addr.getLsbD 0 = false
  ready : x.ready = true → x.req = true
  accept : s.failed = true → (s.ic.valid p x && x.ready) = true → x.branch = true

/-- All rules are about the state and the input of the cycle. -/
instance : Decidable (EnvOk p s x) :=
  decidable_of_iff ((x.instrRvalid = true → s.obs.pending ≠ []) ∧
      (s.heldReq = some (s.ic.instrAddr p x) → x.instrPmpErr = false) ∧
      (x.req = true → (s.branched || x.branch) = true) ∧
      (x.branch = true → x.addr.getLsbD 0 = false) ∧ (x.ready = true → x.req = true) ∧
      (s.failed = true → (s.ic.valid p x && x.ready) = true → x.branch = true))
    ⟨fun ⟨a, b, c, d, e, f⟩ => ⟨a, b, c, d, e, f⟩, fun h => ⟨h.bus, h.pmp, h.start, h.even,
      h.ready, h.accept⟩⟩

/-- The cache after its reset. -/
structure Start : Prop where
  obs : s.obs.Start
  heldReq : s.heldReq = none
  heldOut : s.heldOut = none
  branched : s.branched = false
  failed : s.failed = false
  outOfStep : s.outOfStep = false

/-- The word that the output waits for. -/
def expWord (s : Icache) : BitVec 30 :=
  wordOf s.outputAddr + if s.skidValid then 1#30 else 0#30

/-- A fill buffer that has just been allocated. -/
structure FreshBuf (b : FillBuf) : Prop where
  rvdCnt : b.rvdCnt = 0#2
  hit : b.hit = false
  stale : b.stale = false
  outCnt : b.outCnt = 0#1 ++ b.firstOff
  err : ∀ o, b.err o = false

/-- The invariant. -/
structure Inv : Prop where
  route : s.obs.Inv
  ok : ∀ i, s.ic.busy i = true → (s.ic.fb i).Ok
  fresh : s.ic.lookupValidIc1 = true → ∃ pre i, s.obs.order = pre ++ [i] ∧
    (∀ j, s.ic.fillInIc1 j = true ↔ j = i) ∧ FreshBuf (s.ic.fb i)
  heldReq : ∀ a, s.heldReq = some a ↔
    ∃ i, s.ic.busy i = true ∧ (s.ic.fb i).extHold = true ∧ a = (s.ic.fb i).extReqAddr
  started : s.branched = false → ∀ i, s.ic.busy i = false
  skid : s.ic.skidValid = true → unaligned s.ic.outputAddr = true
  row : s.branched = true → s.outOfStep = false → LineRow (expWord s.ic)
    (IcacheObs.waiting s.ic s.obs.order ++ [wordOfAddr s.ic.prefetchAddr])

variable {p s x} {i j : Fin 4}

/-! ### The output address -/

/-- An instruction of full length leaves the alignment as it is. -/
theorem unaligned_add_two (a : BitVec 31) : unaligned (a + 2#31) = unaligned a := by
  have h : a + 2#31 = a + 1#31 + 1#31 := by rw [BitVec.add_assoc]; rfl
  rw [h, unaligned_add_one, unaligned_add_one, Bool.not_not]

/-- A complete instruction in the skid buffer is what the output shows. -/
theorem skidCompleteInstr_eq :
    s.ic.skidCompleteInstr = (s.ic.skidValid && s.ic.outputCompressed p x) := by
  rw [Icache.skidCompleteInstr, Icache.outputCompressed, Icache.rdataLo]
  cases s.ic.skidValid <;> rfl

/-- When the output is valid. -/
theorem valid_eq : s.ic.valid p x =
    if s.ic.skidValid then s.ic.outputCompressed p x || s.ic.dataValid p x
    else s.ic.dataValid p x && (!unaligned s.ic.outputAddr || s.ic.outputErr p x
      || s.ic.outputCompressed p x) := by
  rw [Icache.valid, skidCompleteInstr_eq (p := p) (x := x)]
  cases hs : s.ic.skidValid with
  | true => simp
  | false =>
      cases hu : unaligned s.ic.outputAddr with
      | false => simp
      | true =>
          have hc : s.ic.outputCompressed p x
              = ((s.ic.outputData p x).extractLsb' 16 2 != 0b11#2) := by
            rw [Icache.outputCompressed, Icache.rdataLo, hs, Icache.outputDataLo, hu,
              ← isCompressedHalf_upper]
            rfl
          simp [hc]

/-- The address and the skid buffer behind a cycle without a branch. -/
theorem output_next (hb : x.branch = false) :
    (s.ic.next p x).outputAddr = (if x.ready && s.ic.valid p x then
      s.ic.outputAddr + (if s.ic.outputCompressed p x then 1#31 else 2#31)
      else s.ic.outputAddr) ∧
    (s.ic.next p x).skidValid = (if s.ic.skidValid then !(x.ready && s.ic.outputCompressed p x)
      else (unaligned s.ic.outputAddr ^^ s.ic.outputCompressed p x) && s.ic.dataValid p x
        && x.ready) := by
  refine ⟨by simp [Icache.next, Icache.outputAddrD, hb], ?_⟩
  simp only [Icache.next, Icache.skidValidD, hb, Bool.false_eq_true, if_false]
  cases hs : s.ic.skidValid with
  | false => rfl
  | true =>
      rw [Icache.outputCompressed, Icache.rdataLo, hs]
      rfl

/-- The skid buffer has the upper half of the word that the output address is in. -/
theorem skid_next (h : s.ic.skidValid = true → unaligned s.ic.outputAddr = true)
    (hv : (s.ic.next p x).skidValid = true) : unaligned (s.ic.next p x).outputAddr = true := by
  have hb : x.branch = false := by
    by_contra hne
    simp [Icache.next, Icache.skidValidD, hne] at hv
  obtain ⟨haddr, hskid⟩ := output_next (p := p) (s := s) hb
  rw [hskid] at hv
  rw [haddr, valid_eq]
  cases hs : s.ic.skidValid with
  | true =>
      rw [hs, if_pos rfl] at hv
      have hu := h hs
      cases hr : x.ready <;> cases hc : s.ic.outputCompressed p x <;>
        cases hd : s.ic.dataValid p x <;> simp_all [unaligned_add_two]
  | false =>
      rw [hs, if_neg Bool.false_ne_true] at hv
      cases hu : unaligned s.ic.outputAddr <;> cases hc : s.ic.outputCompressed p x <;>
        cases he : s.ic.outputErr p x <;> simp_all [unaligned_add_two, unaligned_add_one]

/-- Between branches the output address goes on by the words that are used up. -/
theorem expWord_next (h : s.ic.skidValid = true → unaligned s.ic.outputAddr = true)
    (hb : x.branch = false) (hslip : s.slips p x = false) : expWord (s.ic.next p x)
      = expWord s.ic + if IcacheObs.outputGrant p s.ic x then 1#30 else 0#30 := by
  obtain ⟨haddr, hskid⟩ := output_next (p := p) (s := s) hb
  rw [expWord, expWord, haddr, hskid, valid_eq, IcacheObs.outputGrant, Icache.outputReady,
    skidCompleteInstr_eq (p := p) (x := x)]
  rw [slips] at hslip
  cases hr : x.ready with
  | false => cases s.ic.skidValid <;> simp
  | true =>
      cases hd : s.ic.dataValid p x with
      | false =>
          cases hs : s.ic.skidValid <;> cases hc : s.ic.outputCompressed p x <;>
            simp_all [wordOf_add_one_of_unaligned]
      | true =>
          cases hs : s.ic.skidValid <;> cases hc : s.ic.outputCompressed p x <;>
            cases hu : unaligned s.ic.outputAddr <;>
              simp_all [wordOf_add_one_of_unaligned, wordOf_add_two, wordOf_add_one_of_aligned]

/-! ### The row of words -/

/-- The prefetch address is that of the lookup, or behind its line once it is granted. -/
theorem wordOfAddr_prefetchAddr : wordOfAddr (s.ic.next p x).prefetchAddr
    = if s.ic.lookupGrantIc0 p x then lineAfter (wordOfAddr (s.ic.lookupAddrIc0 x))
      else wordOfAddr (s.ic.lookupAddrIc0 x) := by
  have hline : ∀ a : BitVec 32, wordOfAddr ((a.extractLsb' 3 29 ++ 0#3) + 8#32)
      = lineAfter (wordOfAddr a) := by
    intro a
    have := a.isLt
    apply BitVec.eq_of_toNat_eq
    rw [lineAfter_toNat, wordOfAddr_toNat, wordOfAddr_toNat, BitVec.toNat_add,
      BitVec.toNat_append, BitVec.extractLsb'_toNat, Nat.shiftRight_eq_div_pow,
      Nat.shiftLeft_eq]
    simp only [BitVec.toNat_ofNat, Nat.zero_mod, Nat.or_zero]
    omega
  simp only [Icache.next, Icache.prefetchAddrD, Icache.lookupAddrIc0]
  cases s.ic.lookupGrantIc0 p x <;> cases x.branch <;> simp [hline]

/-- A branch makes every buffer stale. -/
theorem waiting_of_branch (hi : s.obs.Inv) (hb : x.branch = true) :
    IcacheObs.waiting (s.ic.next p x) s.obs.order = [] := by
  have hnone : s.obs.order.filter (s.ic.next p x).outWaits = [] := by
    rw [List.filter_eq_nil_iff]
    intro i hmem
    obtain ⟨hst, -⟩ := Icache.fillNext_of_busy (p := p) (x := x) ((hi.aged.mem i).mp hmem)
    simp [Icache.outWaits, hst, hb]
  rw [IcacheObs.waiting, hnone]
  rfl

/-- The row of words goes on. -/
theorem row_next (hi : Inv s) (hbr : (s.next p x).branched = true)
    (hstep : (s.next p x).outOfStep = false) :
    LineRow (expWord (s.ic.next p x)) (IcacheObs.waiting (s.ic.next p x) (s.obs.next p x).order
      ++ [wordOfAddr (s.ic.next p x).prefetchAddr]) := by
  have hwait : IcacheObs.waiting (s.ic.next p x) (s.obs.next p x).order = _ :=
    IcacheObs.waiting_next (p := p) (x := x) hi.route
  rw [hwait, wordOfAddr_prefetchAddr]
  cases hb : x.branch with
  | true =>
      have hexp : expWord (s.ic.next p x) = wordOfAddr x.addr := by
        simp [expWord, Icache.next, Icache.outputAddrD, Icache.skidValidD, hb,
          wordOf_extractLsb']
      have haddr : s.ic.lookupAddrIc0 x = x.addr := by rw [Icache.lookupAddrIc0, hb, if_pos rfl]
      rw [waiting_of_branch hi.route hb, hexp, haddr]
      cases s.ic.lookupGrantIc0 p x with
      | false => exact ⟨rfl, trivial⟩
      | true => exact ⟨rfl, rfl, trivial⟩
  | false =>
      have haddr : s.ic.lookupAddrIc0 x = s.ic.prefetchAddr := by
        simp [Icache.lookupAddrIc0, hb]
      simp only [next, hb, Bool.or_false, Bool.not_false, Bool.true_and,
        Bool.or_eq_false_iff] at hbr hstep
      have hrow := IcacheObs.lineRow_waiting (p := p) hi.route hi.ok hb (hi.row hbr hstep.1)
      rw [← expWord_next hi.skid hb hstep.2] at hrow
      rw [haddr]
      cases s.ic.lookupGrantIc0 p x with
      | false => simpa using hrow
      | true =>
          rw [if_pos rfl, if_pos rfl, List.append_assoc]
          exact lineRow_append hrow

/-! ### The held request -/

/-- A buffer that is not granted goes on asking for the same word. -/
theorem extReqAddr_of_busy (hb : s.ic.busy i = true)
    (hg : (s.ic.fillExtArb p x i && Icache.gntNotPmpErr x) = false) :
    (s.ic.fillNext p x i).extReqAddr = (s.ic.fb i).extReqAddr := by
  obtain ⟨-, -, -, hext, -, -, -, haddr, -⟩ := Icache.fillNext_of_busy (p := p) (x := x) hb
  rw [FillBuf.extReqAddr, FillBuf.extOff, FillBuf.firstOff, haddr, hext, hg, cnt_add_false]
  rfl

/-- The address on the bus is that of the buffer that is granted. -/
theorem instrAddr_of_fillExtArb (hi : s.obs.Inv) (ha : s.ic.fillExtArb p x i = true) :
    anyOf (s.ic.fillExtReq p x) = true ∧ s.ic.instrAddr p x = (s.ic.fb i).extReqAddr := by
  have hany : anyOf (s.ic.fillExtReq p x) = true :=
    anyOf_of (IcacheObs.fillExtReq_of_fillExtArb ha)
  refine ⟨hany, ?_⟩
  rw [Icache.instrAddr, if_pos hany]
  exact orOf_of_unique ha fun j hj =>
    hi.aged.arb_unique (fun _ => IcacheObs.busy_of_fillExtReq) ha hj

/-- The request that a held buffer has made is the one on the bus. -/
theorem fillExtArb_of_hold (hi : s.obs.Inv) (hb : s.ic.busy i = true)
    (hh : (s.ic.fb i).extHold = true) : s.ic.fillExtArb p x i = true := by
  obtain ⟨pre, post, heq⟩ := List.append_of_mem ((hi.aged.mem i).mpr hb)
  have hreq : s.ic.fillExtReq p x i = true := by
    simp [Icache.fillExtReq, Icache.fillExtDone, hb, hh]
  refine (hi.aged.arb_iff fun _ => IcacheObs.busy_of_fillExtReq).mpr
    ⟨pre, post, heq, hreq, fun j hj => ?_⟩
  have hstop := IcacheObs.stopped_of_pre hi heq (Or.inr hh) j hj
  simp [Icache.fillExtReq, IcacheObs.fillExtDone_of_stopped hstop]

/-- A buffer whose request is on the bus stays. -/
theorem busy_next_of_fillExtArb (ha : s.ic.fillExtArb p x i = true) :
    (s.ic.next p x).busy i = true := by
  have hreq := IcacheObs.fillExtReq_of_fillExtArb ha
  have hb := IcacheObs.busy_of_fillExtReq hreq
  simp only [Icache.fillExtReq, Bool.and_eq_true, Bool.not_eq_true'] at hreq
  rw [Icache.busy_next, hb, Icache.fillDone, Icache.fillRvdDone, hreq.2]
  simp

/-- A new buffer asks for the word that has been looked up, unless that has been granted at once. -/
theorem extReqAddr_of_alloc (ha : s.ic.fillAlloc p x i = true)
    (hg : s.ic.fillSpecDone p x = false) :
    (s.ic.fillNext p x i).extReqAddr = wordOfAddr (s.ic.lookupAddrIc0 x) := by
  obtain ⟨-, -, hext, -, -, haddr, -⟩ := Icache.fillNext_of_alloc ha
  have hzero : (0#1 ++ BitVec.ofBool false : BitVec 2).setWidth 1 = 0#1 := by decide
  rw [FillBuf.extReqAddr, FillBuf.extOff, FillBuf.firstOff, haddr, hext, hg, hzero,
    BitVec.add_zero]
  exact BitVec.extractLsb'_append_extractLsb'_eq_extractLsb' rfl

/-- The request that is held is the one of a buffer that waits for its grant. -/
theorem heldReq_next (hi : Inv s) (a : BitVec 30) : (s.next p x).heldReq = some a ↔
    ∃ i, (s.ic.next p x).busy i = true ∧ (s.ic.fillNext p x i).extHold = true ∧
      a = (s.ic.fillNext p x i).extReqAddr := by
  simp only [next, Option.ite_none_right_eq_some, Option.some.injEq, Bool.and_eq_true,
    Bool.not_eq_true']
  have hgnt : Icache.gntOrPmpErr x = false → Icache.gntNotPmpErr x = false := by
    simp only [Icache.gntOrPmpErr, Icache.gntNotPmpErr]
    cases x.instrGnt <;> simp
  constructor
  · rintro ⟨⟨hreq, hg⟩, rfl⟩
    cases hany : anyOf (s.ic.fillExtReq p x) with
    | true =>
        obtain ⟨i, -, -, -, -, -, -, hiff⟩ := IcacheObs.fillExtArb_of_fillExtReq hi.route hany
        have ha := (hiff i).mpr rfl
        have hb := IcacheObs.busy_of_fillExtReq (IcacheObs.fillExtReq_of_fillExtArb ha)
        obtain ⟨-, -, -, -, hhold, -⟩ := Icache.fillNext_of_busy (p := p) (x := x) hb
        refine ⟨i, busy_next_of_fillExtArb ha, by rw [hhold, ha, hg]; rfl, ?_⟩
        rw [extReqAddr_of_busy hb (by rw [hgnt hg, Bool.and_false]),
          (instrAddr_of_fillExtArb hi.route ha).2]
    | false =>
        simp only [Icache.instrReq, hany, Bool.or_false, Bool.and_eq_true] at hreq
        obtain ⟨i, ha⟩ := Icache.exists_fillAlloc hreq.2
        obtain ⟨-, -, -, hhold, -⟩ := Icache.fillNext_of_alloc ha
        refine ⟨i, by rw [Icache.busy_next, ha]; rfl, ?_, ?_⟩
        · rw [hhold, Icache.fillSpecHold, Icache.specReq, hreq.1, hany, hg]
          rfl
        · rw [extReqAddr_of_alloc ha (by rw [Icache.fillSpecDone, hgnt hg, Bool.and_false]),
            Icache.instrAddr, hany]
          rfl
  · rintro ⟨i, hb', hh, rfl⟩
    cases hb : s.ic.busy i with
    | true =>
        obtain ⟨-, -, -, -, hhold, -⟩ := Icache.fillNext_of_busy (p := p) (x := x) hb
        rw [hhold, Bool.and_eq_true, Bool.not_eq_true'] at hh
        obtain ⟨hany, haddr⟩ := instrAddr_of_fillExtArb hi.route hh.1
        refine ⟨⟨by rw [Icache.instrReq, hany, Bool.or_true], hh.2⟩, ?_⟩
        rw [extReqAddr_of_busy hb (by rw [hgnt hh.2, Bool.and_false]), haddr]
    | false =>
        have ha : s.ic.fillAlloc p x i = true := by
          rw [Icache.busy_next, hb] at hb'
          simpa using hb'
        have hl : s.ic.lookupGrantIc0 p x = true := by
          simp only [Icache.fillAlloc, Bool.and_eq_true] at ha
          exact ha.2
        obtain ⟨-, -, -, hhold, -⟩ := Icache.fillNext_of_alloc ha
        rw [hhold, Icache.fillSpecHold, Icache.specReq, Bool.and_eq_true, Bool.and_eq_true,
          Bool.not_eq_true', Bool.not_eq_true'] at hh
        obtain ⟨⟨hsp, hany⟩, hg⟩ := hh
        refine ⟨⟨by rw [Icache.instrReq, hsp, hl]; rfl, hg⟩, ?_⟩
        rw [extReqAddr_of_alloc ha (by rw [Icache.fillSpecDone, hgnt hg, Bool.and_false]),
          Icache.instrAddr, hany]
        rfl

/-! ### One step -/

/-- The buffers stay well formed. -/
theorem ok_next (hi : Inv s) (hok : EnvOk p s x) (i : Fin 4)
    (hb' : (s.ic.next p x).busy i = true) : (s.ic.fillNext p x i).Ok := by
  cases hb : s.ic.busy i with
  | true => exact IcacheObs.ok_of_busy hi.route hok.bus (hi.ok i hb) hb
  | false =>
      refine IcacheObs.ok_of_alloc ?_
      rw [Icache.busy_next, hb] at hb'
      simpa using hb'

/-- The lookup that is in stage IC1 has the last buffer. -/
theorem fresh_next (hi : Inv s) (hv : (s.ic.next p x).lookupValidIc1 = true) :
    ∃ pre i, (s.obs.next p x).order = pre ++ [i] ∧
      (∀ j, (s.ic.next p x).fillInIc1 j = true ↔ j = i) ∧ FreshBuf (s.ic.fillNext p x i) := by
  have hl : s.ic.lookupGrantIc0 p x = true := by
    simp only [Icache.next, Icache.lookupActualIc0, Bool.and_eq_true] at hv
    exact hv.1.1
  obtain ⟨i, ha⟩ := Icache.exists_fillAlloc hl
  have hsel : s.ic.fillAllocSel i = true := by
    simp only [Icache.fillAlloc, Bool.and_eq_true] at ha
    exact ha.1
  obtain ⟨hst, hhit, -, -, hrvd, -, hout, herr⟩ := Icache.fillNext_of_alloc ha
  have hno : s.ic.fillHitIc1 i = false := by
    by_contra hne
    simp only [Icache.fillHitIc1, Bool.not_eq_false, Bool.and_eq_true] at hne
    obtain ⟨pre, k, heq, hiff, -⟩ := hi.fresh hne.1.1
    have hbk : s.ic.busy k = true := (hi.route.aged.mem k).mp (by simp [heq])
    have hfree := Icache.not_busy_of_fillAlloc ha
    rw [(hiff i).mp hne.1.2, hbk] at hfree
    cases hfree
  refine ⟨s.obs.order.filter fun j => !s.ic.fillDone p x j, i, ?_, fun j => ?_, hrvd, ?_, hst,
    hout, fun o => by rw [herr]⟩
  · have hn : s.obs.newBuf p x = some i := IcacheObs.newBuf_eq_some.mpr ha
    simp only [IcacheObs.next, Aged.nextOrder, hn, Option.toList_some]
  · simp only [Icache.next, hl, if_true]
    constructor
    · exact fun hj => Icache.fillAllocSel_unique hj hsel
    · rintro rfl
      exact hsel
  · rw [hhit, hno]
    rfl

/-- No buffer is busy ahead of the first branch. -/
theorem started_next (hi : Inv s) (hok : EnvOk p s x) (hbr : (s.next p x).branched = false)
    (i : Fin 4) : (s.ic.next p x).busy i = false := by
  simp only [next, Bool.or_eq_false_iff] at hbr
  have hr : x.req = false := by
    by_contra hne
    have := hok.start ((Bool.not_eq_false _).mp hne)
    simp [hbr.1, hbr.2] at this
  have hl : s.ic.lookupGrantIc0 p x = false := by simp [Icache.lookupGrantIc0, hr]
  rw [Icache.busy_next, Icache.fillAlloc, hl, hi.started hbr.1 i]
  simp

/-- **Step lemma.** -/
theorem inv_next (hi : Inv s) (hok : EnvOk p s x) : Inv (s.next p x) where
  route := IcacheObs.inv_next hi.route hok.bus
  ok := ok_next hi hok
  fresh := fresh_next hi
  heldReq := heldReq_next hi
  started := started_next hi hok
  skid := skid_next hi.skid
  row := row_next hi

/-- Nothing is at the output at the start. -/
theorem inv_start (h : Start s) : Inv s where
  route := IcacheObs.inv_start h.obs
  ok := fun i hb => by
    rw [ic, h.obs.ic.busy] at hb
    cases hb
  fresh := fun hv => by
    rw [ic, h.obs.ic.lookupValidIc1] at hv
    cases hv
  heldReq := fun a => by
    simp [h.heldReq, h.obs.ic.busy]
  started := fun _ => h.obs.ic.busy
  skid := fun hv => by
    rw [ic, h.obs.ic.skidValid] at hv
    cases hv
  row := fun hbr => by
    rw [h.branched] at hbr
    cases hbr

/-! ### The invalidation after reset -/

/-- The cache with the registers of its invalidation, and all other registers and the RAMs
zero; neither the core nor the bus has seen anything of it yet. -/
def quiet (done prog : Bool) (k : BitVec 8) : IcacheSys :=
  ⟨⟨.quiet done prog k, [], []⟩, none, none, false, false, false⟩

/-- Ahead of the invalidation that is the cache after its reset. -/
theorem start_quiet : Start (quiet false false 0#8) where
  obs := IcacheObs.start_reset
  heldReq := rfl
  heldOut := rfl
  branched := rfl
  failed := rfl
  outOfStep := rfl

/-- An idle cycle keeps to every rule. -/
theorem envOk_idle (p : IcacheParams) (s : IcacheSys) : EnvOk p s .idle where
  bus := fun h => by cases h
  pmp := fun _ => rfl
  start := fun h => by cases h
  even := fun h => by cases h
  ready := fun h => by cases h
  accept := fun _ h => by
    rw [show IcacheIn.idle.ready = false from rfl, Bool.and_false] at h
    cases h

/-- Any number of idle cycles keeps to the rules. -/
theorem along_idle (p : IcacheParams) (s : IcacheSys) (n : ℕ) :
    Machine.Along (next p) (EnvOk p) s (List.replicate n .idle) :=
  Machine.along_replicate (fun _ => True) (fun s _ => ⟨envOk_idle p s, trivial⟩) trivial n

/-- The cache with ECC that requests speculatively only for branches. -/
def eccOn : IcacheParams := ⟨true, false, false⟩

/-- Nothing happens in the buffers of a quiet cache. -/
theorem fillNext_quiet (done prog : Bool) (k : BitVec 8) (i : Fin 4) :
    (quiet done prog k).ic.fillNext eccOn .idle i = (quiet done prog k).ic.fb i := by
  apply FillBuf.ext
  case data =>
    fin_cases i <;> exact (by decide : beatOf 1#1 0#64 ++ beatOf 0#1 0#64 = 0#64)
  all_goals fin_cases i <;> rfl

/-- The invalidation writes zero. -/
theorem tagWdataIc0_quiet (done : Bool) (k : BitVec 8) :
    (quiet done true k).ic.tagWdataIc0 eccOn .idle = 0#28 := by
  have haddr : (quiet done true k).ic.fillRamReqAddr eccOn .idle = 0#32 :=
    orOf_eq_zero fun i => by fin_cases i <;> rfl
  have htag : (quiet done true k).ic.fillTagIc0 eccOn .idle = 0#22 := by
    rw [Icache.fillTagIc0, haddr]
    exact (by decide : (0#1 ++ tagOf 0#32 : BitVec 22) = 0#22)
  rw [Icache.tagWdataIc0, htag]
  decide

/-- One cycle of the invalidation. -/
theorem ic_next_quiet (done prog : Bool) (k : BitVec 8) :
    (quiet done prog k).ic.next eccOn .idle
      = (quiet true ((quiet done prog k).ic.invalProgD .idle)
          (if (quiet done prog k).ic.invalProgD .idle
            then (quiet done prog k).ic.invalIndexD .idle else k)).ic := by
  apply Icache.ext
  case cacheCnt => simp [Icache.next, Icache.cacheCntD, quiet, Icache.quiet, IcacheIn.idle]
  case fb => exact funext (fillNext_quiet done prog k)
  case skidValid => simp [Icache.next, Icache.skidValidD, quiet, Icache.quiet, IcacheIn.idle]
  case tagRam =>
    funext w j
    have hmem : (quiet done prog k).ic.tagMem .idle w j = 0#28 :=
      (BitVec.xor_self : 0#28 ^^^ 0#28 = 0#28)
    cases prog with
    | false =>
        have hw : (quiet done false k).ic.tagWriteIc0 eccOn .idle = false := rfl
        simp only [Icache.next, hw, hmem, Bool.and_false, Bool.false_and, Bool.false_eq_true,
          if_false]
        rfl
    | true =>
        simp only [Icache.next, tagWdataIc0_quiet, hmem, ite_self]
        rfl
  case tagRdataIc1 => cases prog <;> funext w <;> fin_cases w <;> rfl
  case dataRam =>
    funext w j
    have hmem : (quiet done prog k).ic.dataMem .idle w j = 0#72 :=
      (BitVec.xor_self : 0#72 ^^^ 0#72 = 0#72)
    have hw : (quiet done prog k).ic.dataReqIc0 eccOn .idle = false := rfl
    simp only [Icache.next, hw, hmem, Bool.false_and, Bool.false_eq_true, if_false]
    rfl
  all_goals rfl

/-- A quiet cache stays quiet; its invalidation goes on by one index. -/
theorem next_quiet (done prog : Bool) (k : BitVec 8) :
    (quiet done prog k).next eccOn .idle
      = quiet true ((quiet done prog k).ic.invalProgD .idle)
          (if (quiet done prog k).ic.invalProgD .idle
            then (quiet done prog k).ic.invalIndexD .idle else k) := by
  simp only [next, IcacheObs.next, ic_next_quiet]
  rfl

/-- The invalidation of the indices that are left takes one cycle each. -/
theorem run_quiet (n : ℕ) (k : BitVec 8) (h : n + k.toNat = 255) :
    Machine.run (next eccOn) (quiet true true k) (List.replicate (n + 1) .idle)
      = quiet true false 255#8 := by
  induction n generalizing k with
  | zero =>
      have hk : k = 255#8 := BitVec.eq_of_toNat_eq (by simpa using h)
      subst hk
      exact next_quiet true true 255#8
  | succ n ih =>
      have hk : (k != 255#8) = true := by
        rw [bne_iff_ne]
        rintro rfl
        simp at h
      have hstep : (quiet true true k).next eccOn .idle = quiet true true (k + 1#8) := by
        rw [next_quiet]
        have hd : (quiet true true k).ic.invalProgD .idle = true := hk
        rw [hd]
        rfl
      rw [List.replicate_succ, Machine.run_cons, hstep]
      refine ih _ ?_
      rw [BitVec.toNat_add]
      simp only [BitVec.toNat_ofNat]
      omega

/-- The invalidation after reset. -/
theorem run_reset : Machine.run (next eccOn) (quiet false false 0#8)
    (List.replicate 257 .idle) = quiet true false 255#8 := by
  rw [List.replicate_succ, Machine.run_cons, next_quiet]
  exact run_quiet 255 0#8 rfl

end IcacheSys

end CocoIbex
