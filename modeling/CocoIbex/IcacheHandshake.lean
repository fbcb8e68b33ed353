import CocoIbex.IcacheSys

/-!
# The Handshakes of the Cache

What the cache promises at its two sides: the output stays until it is accepted, a request until
its grant, and `busy_o` tells of what is under way. The promise about the output is not kept: an
ECC error of a younger lookup takes the output of an older one back, an answer to a request that
a lookup made ahead of its hit goes over the word from the cache, and a cache whose address
counter has left the instructions shows a word that it does not have. Where none of these
happens (`Calm`) the output is stable.

The output is a function of the oldest buffer that still has words to deliver, and of the skid
buffer. `Held` says of that buffer that it has what it shows, in the RAM data of the lookup, in
its own data or as an error; a cycle may move the word from one of these places to another, and
`keeps_next` is that this does not change it. What is compared is only as much of the output as
the instruction needs (`SameInstr`).

For the three exceptions a run is given that loses the output (`heldTrace`), and
`handshakes_kept` has the others over every run in which the core and the bus keep to their
rules.

## Main results

* `keeps_next` — the word at the output is kept;
* `held_next` — the step lemma;
* `handshakes_kept` — requests, `err_plus2_o` and `busy_o` in every run, and the output where it
  is calm.
-/

namespace CocoIbex

open OneHot

namespace IcacheSys

variable {p : IcacheParams} {s : IcacheSys} {x y : IcacheIn} {i j : Fin 4}

/-! ### The buffer at the output -/

/-- The word of the line that is shown is that of the address. -/
theorem lineOff_eq (s : Icache) : s.lineOff = (expWord s).setWidth 1 := by
  have h := s.outputAddr.isLt
  apply BitVec.eq_of_toNat_eq
  rw [Icache.lineOff, expWord, BitVec.toNat_setWidth, BitVec.toNat_add, BitVec.toNat_add,
    wordOf_toNat, BitVec.extractLsb'_toNat, Nat.shiftRight_eq_div_pow]
  cases s.skidValid <;>
    simp only [BitVec.toNat_ofBool, Bool.toNat_true, Bool.toNat_false, if_true, if_false,
      Bool.false_eq_true, BitVec.toNat_ofNat] <;> omega

/-- In step, the word that the output waits for is the next one of the first waiting buffer. -/
theorem expWord_eq_nextWord (hi : Inv s) (hstep : s.outOfStep = false)
    (h : arb s.ic.outWaits s.ic.older i = true) : expWord s.ic = (s.ic.fb i).nextWord := by
  obtain ⟨pre, post, heq, hw, hpre⟩ := IcacheObs.waiting_of_arb hi.route h
  have hbr : s.branched = true := by
    by_contra hne
    have hb := IcacheObs.busy_of_outWaits hw
    rw [hi.started ((Bool.not_eq_true _).mp hne) i] at hb
    cases hb
  have hrow := hi.row hbr hstep
  rw [IcacheObs.waiting, heq, List.filter_append, hpre, List.nil_append,
    List.filter_cons_of_pos hw, List.map_cons, List.cons_append] at hrow
  exact hrow.1.symm

/-- While the output keeps step, the word it looks for is the next one of the oldest buffer. -/
theorem lineOff_eq_outOff (hi : Inv s) (hstep : s.outOfStep = false)
    (h : arb s.ic.outWaits s.ic.older i = true) : s.ic.lineOff = (s.ic.fb i).outOff := by
  rw [lineOff_eq, expWord_eq_nextWord hi hstep h]
  apply BitVec.eq_of_toNat_eq
  rw [BitVec.toNat_setWidth, IcacheObs.nextWord_toNat, FillBuf.toNat_outOff]
  omega

/-- A selected buffer that is neither stale nor done is the oldest one that waits. -/
theorem arb_of_sel (hb : s.ic.busy j = true) (hs : (s.ic.fb j).stale = false)
    (hd : (s.ic.fb j).outDone = false) (hsel : s.ic.fillDataSel j = true) :
    arb s.ic.outWaits s.ic.older j = true := by
  rw [arb, Icache.outWaits, hb, hs, hd]
  exact hsel

/-- Data of a hit come to the output from the buffer that waits first. -/
theorem eq_of_fillDataHit (hi : Inv s) (h : arb s.ic.outWaits s.ic.older i = true)
    (hj : s.ic.fillDataHit j = true) : j = i := by
  simp only [Icache.fillDataHit, Icache.fillHitIc1, Bool.and_eq_true] at hj
  obtain ⟨⟨hb, ⟨hv, hin⟩, -⟩, hsel⟩ := hj
  obtain ⟨pre, k, heq, hiff, -⟩ := hi.fresh hv
  have hjk := (hiff j).mp hin
  subst hjk
  obtain ⟨pre', post', heq', hw, -⟩ := IcacheObs.waiting_of_arb hi.route h
  by_contra hne
  have hib := IcacheObs.busy_of_outWaits hw
  have hold : s.ic.older j i = true := by
    obtain ⟨ho, -⟩ | ⟨-, hmem⟩ := hi.route.aged.older_of_append heq hib (Ne.symm hne)
    · exact ho
    · cases hmem
  simp only [Icache.fillDataSel, Bool.not_eq_true', anyOf_eq_false, Bool.and_eq_false_iff] at hsel
  obtain hw' | ho' := hsel i
  · rw [hw] at hw'
    cases hw'
  · rw [hold] at ho'
    cases ho'

/-- What is at the output is what the first waiting buffer has. -/
theorem output_eq (hi : Inv s) (h : arb s.ic.outWaits s.ic.older i = true) :
    s.ic.outputData p x = (if s.ic.fillDataRvd p x i then x.instrRdata
      else beatOf s.ic.lineOff (if s.ic.fillHitIc1 i then s.ic.hitDataIc1.extractLsb' 0 64
        else if s.ic.fillDataReg i then (s.ic.fb i).data else 0#64)) ∧
    s.ic.outputErr p x = (if s.ic.fillDataRvd p x i then x.instrErr
      else !s.ic.fillHitIc1 i && s.ic.fillDataReg i && (s.ic.fb i).err s.ic.lineOff) := by
  have hrvd : ∀ j, s.ic.fillDataRvd p x j = true → j = i := by
    intro j hj
    simp only [Icache.fillDataRvd, Bool.and_eq_true, Bool.not_eq_true'] at hj
    obtain ⟨⟨⟨⟨⟨⟨hb, -⟩, -⟩, hs⟩, hd⟩, -⟩, hsel⟩ := hj
    exact hi.route.aged.arb_unique (fun _ => IcacheObs.busy_of_outWaits) h
      (arb_of_sel hb hs hd hsel)
  have hreg : ∀ j, s.ic.fillDataReg j = true → j = i := by
    intro j hj
    simp only [Icache.fillDataReg, Bool.and_eq_true, Bool.not_eq_true'] at hj
    obtain ⟨⟨⟨⟨hb, hs⟩, hd⟩, hsel⟩, -⟩ := hj
    exact hi.route.aged.arb_unique (fun _ => IcacheObs.busy_of_outWaits) h
      (arb_of_sel hb hs hd hsel)
  have hone : ∀ f : Fin 4 → Bool, (∀ j, f j = true → j = i) → anyOf f = f i := by
    intro f hf
    cases hfi : f i with
    | true => exact anyOf_of hfi
    | false =>
        refine anyOf_eq_false.mpr fun j => ?_
        by_contra hne
        rw [hf j ((Bool.not_eq_false _).mp hne), hfi] at hne
        exact hne rfl
  have hhit : anyOf s.ic.fillDataHit = s.ic.fillHitIc1 i := by
    rw [hone _ fun j hj => eq_of_fillDataHit hi h hj, Icache.fillDataHit]
    rw [arb, Bool.and_eq_true] at h
    rw [IcacheObs.busy_of_outWaits h.1, Icache.fillDataSel, h.2]
    simp
  have hdata : s.ic.fillOutData = if s.ic.fillDataReg i then (s.ic.fb i).data else 0#64 := by
    cases hr : s.ic.fillDataReg i with
    | true => exact orOf_of_unique hr hreg
    | false =>
        refine orOf_eq_zero fun j => ?_
        by_contra hne
        rw [hreg j ((Bool.not_eq_false _).mp hne), hr] at hne
        exact hne rfl
  have herr : s.ic.fillOutErr s.ic.lineOff
      = (s.ic.fillDataReg i && (s.ic.fb i).err s.ic.lineOff) :=
    hone _ fun j hj => hreg j (by
      rw [Bool.and_eq_true] at hj
      exact hj.1)
  rw [Icache.outputData, Icache.outputErr, hone _ hrvd, Icache.lineData, Icache.lineErr, hhit,
    hdata, herr]
  refine ⟨rfl, ?_⟩
  cases s.ic.fillDataRvd p x i <;> cases s.ic.fillHitIc1 i <;> simp

/-! ### What a buffer keeps of the word at the output -/

/-- An answer for the word that is at the output of a buffer that has it from the cache. -/
structure SameAnswer (s : Icache) (x : IcacheIn) (b : FillBuf) : Prop where
  hit : b.hit = true → x.instrRdata = beatOf b.outOff b.data ∧ x.instrErr = false
  hitIc1 : b.hit = false → x.instrRdata = beatOf b.outOff (s.hitDataIc1.extractLsb' 0 64)

/-- Two answers are compared word by word. -/
instance (s : Icache) (x : IcacheIn) (b : FillBuf) : Decidable (SameAnswer s x b) :=
  decidable_of_iff
    ((b.hit = true → x.instrRdata = beatOf b.outOff b.data ∧ x.instrErr = false) ∧
      (b.hit = false → x.instrRdata = beatOf b.outOff (s.hitDataIc1.extractLsb' 0 64)))
    ⟨fun h => ⟨h.1, h.2⟩, fun h => ⟨h.hit, h.hitIc1⟩⟩

/-- Either word of a doubled word is the word. -/
theorem beatOf_twice (o : BitVec 1) (d : BitVec 32) : beatOf o (d ++ d) = d := by
  obtain rfl | rfl : o = 0#1 ∨ o = 1#1 := by revert o; decide
  · exact BitVec.extractLsb'_append_eq_right
  · exact BitVec.extractLsb'_append_eq_left

/-- A word in the data register. -/
theorem beatOf_fillNext (he : s.ic.eccErrIc1 p = false) (i : Fin 4) (o : BitVec 1) :
    beatOf o (s.ic.fillNext p x i).data =
      if s.ic.fillHitIc1 i then beatOf o (s.ic.hitDataIc1.extractLsb' 0 64)
      else if s.ic.fillRvdArb p x i && (s.ic.fb i).rvdOff == o then x.instrRdata
      else beatOf o (s.ic.fb i).data := by
  have hbeat : beatOf o (s.ic.fillNext p x i).data = s.ic.fillDataBeat p x i o := by
    rw [Icache.fillNext]
    obtain rfl | rfl : o = 0#1 ∨ o = 1#1 := by revert o; decide
    · exact BitVec.extractLsb'_append_eq_right
    · exact BitVec.extractLsb'_append_eq_left
  rw [hbeat, Icache.fillDataBeat, Icache.fillDataEn, Icache.fillDataD, he]
  cases s.ic.fillHitIc1 i with
  | true => simp
  | false =>
      cases s.ic.fillRvdArb p x i && (s.ic.fb i).rvdOff == o with
      | true => simp [beatOf_twice]
      | false => simp

/-- What a buffer without a hit puts at the output: a word that it has got, the one that comes in
this cycle, or the error of one that the PMP has stopped. -/
theorem out_of_fillOutReq (hi : Inv s) (hok : EnvOk p s x) (hb : s.ic.busy i = true)
    (h : s.ic.fillOutReq p x i = true) (hh : (s.ic.fb i).hit = false)
    (hh1 : s.ic.fillHitIc1 i = false) :
    (s.ic.fb i).outCnt.toNat < (s.ic.fb i).firstOff.toNat + (s.ic.fb i).rvdCnt.toNat ∨
    ((s.ic.fb i).outCnt.toNat = (s.ic.fb i).firstOff.toNat + (s.ic.fb i).rvdCnt.toNat ∧
      (s.ic.fillRvdArb p x i = true ∨
        (s.ic.fb i).rvdCnt.toNat = (s.ic.fb i).extCnt.toNat ∧ (s.ic.fb i).extCnt.toNat < 2 ∧
        (s.ic.fb i).err (s.ic.fb i).extOff = true)) :=
  IcacheObs.out_of_fillOutReq hi.route hok.bus (hi.ok i hb) h hh hh1

/-- A request that is refused by the PMP is not for the word at the output. -/
theorem beatOff_ne_of_pmpErr (hi : Inv s) (hok : EnvOk p s x)
    (harb : s.ic.fillOutArb p x i = true) (he : s.ic.eccErrIc1 p = false)
    (ha : s.ic.fillExtArb p x i = true) (hp : x.instrPmpErr = true) :
    (s.ic.fb i).outOff ≠ (s.ic.fb i).beatOff (s.ic.fb i).extCnt.toNat := by
  have hreq := IcacheObs.fillExtReq_of_fillExtArb ha
  have hb := IcacheObs.busy_of_fillExtReq hreq
  have hlt : (s.ic.fb i).extCnt.toNat < 2 := IcacheObs.extCnt_lt_of_fillExtReq hi.route hreq
  have hle : (s.ic.fb i).rvdCnt.toNat ≤ (s.ic.fb i).extCnt.toNat := (hi.route.counts i).rvd_le
  have hout : s.ic.fillOutReq p x i = true := by
    rw [Icache.fillOutArb, Bool.and_eq_true] at harb
    exact harb.1
  -- the PMP keeps to the verdict on a held request
  have hhold : (s.ic.fb i).extHold = false := by
    by_contra hne
    have hheld := (hi.heldReq _).mpr ⟨i, hb, (Bool.not_eq_false _).mp hne, rfl⟩
    rw [← (instrAddr_of_fillExtArb hi.route ha).2] at hheld
    rw [hok.pmp hheld] at hp
    cases hp
  simp only [Icache.fillExtReq, Icache.fillExtDone, hb, hhold, he, Bool.not_false, Bool.and_true,
    Bool.true_and, Bool.not_eq_true', Bool.or_eq_false_iff] at hreq
  obtain ⟨⟨⟨⟨-, hh1⟩, hh⟩, herr⟩, -⟩ := hreq
  intro heq
  obtain hk | ⟨hk, hrv | ⟨-, -, herr'⟩⟩ := out_of_fillOutReq hi hok hb hout hh hh1
  · obtain ⟨k, hk'⟩ := Nat.exists_eq_add_of_le (hi.ok i hb).first_le
    rw [FillBuf.outOff_eq hk'] at heq
    have := FillBuf.mod_of_beatOff_eq heq
    omega
  · have hrlt : (s.ic.fb i).rvdCnt.toNat < (s.ic.fb i).extCnt.toNat :=
      IcacheObs.rvdCnt_lt_of_fillRvdArb hi.route hok.bus hrv
    rw [FillBuf.outOff_eq hk] at heq
    have := FillBuf.mod_of_beatOff_eq heq
    omega
  · rw [herr] at herr'
    cases herr'

/-- The error of the word at the output. -/
theorem err_fillNext (hi : Inv s) (hok : EnvOk p s x) (harb : s.ic.fillOutArb p x i = true)
    (he : s.ic.eccErrIc1 p = false) : (s.ic.fillNext p x i).err (s.ic.fb i).outOff =
      ((s.ic.fillRvdArb p x i && x.instrErr && (s.ic.fb i).rvdOff == (s.ic.fb i).outOff)
        || (s.ic.fb i).err (s.ic.fb i).outOff) := by
  have hb : s.ic.busy i = true :=
    IcacheObs.busy_of_outWaits (by
      have h := IcacheObs.outWaits_of_fillOutArb harb
      rw [arb, Bool.and_eq_true] at h
      exact h.1)
  obtain ⟨-, -, -, -, -, -, herr, -⟩ := Icache.fillNext_of_busy (p := p) (x := x) hb
  have hno : (s.ic.fillExtArb p x i && x.instrPmpErr && (s.ic.fb i).extOff == (s.ic.fb i).outOff)
      = false := by
    by_contra hne
    rw [Bool.not_eq_false, Bool.and_eq_true, Bool.and_eq_true, beq_iff_eq,
      FillBuf.extOff_eq] at hne
    exact beatOff_ne_of_pmpErr hi hok harb he hne.1.1 hne.1.2 hne.2.symm
  rw [herr, Icache.fillErrD, hno, hb]
  simp

/-- What the output needs in the next cycle: the buffer has the word, and nothing comes over
it. -/
structure Keeps (b : FillBuf) (d : BitVec 32) (e : Bool) : Prop where
  has : b.hit = true ∨ b.outCnt.toNat < b.firstOff.toNat + b.rvdCnt.toNat ∨
    (b.rvdCnt.toNat = b.extCnt.toNat ∧ b.err b.outOff = true)
  data : beatOf b.outOff b.data = d
  err : b.err b.outOff = e

/-- The buffer at the output is busy. -/
theorem busy_of_fillOutArb (harb : s.ic.fillOutArb p x i = true) : s.ic.busy i = true := by
  have h := IcacheObs.outWaits_of_fillOutArb harb
  rw [arb, Bool.and_eq_true] at h
  exact IcacheObs.busy_of_outWaits h.1

/-- Where the word at the output comes from. -/
theorem source_of_fillOutArb (harb : s.ic.fillOutArb p x i = true) :
    s.ic.fillDataRvd p x i = (s.ic.fillRvdArb p x i && !(s.ic.fb i).hit
      && (s.ic.fb i).rvdBeat == (s.ic.fb i).outCnt) ∧
    s.ic.fillDataReg i = (decide ((s.ic.fb i).outCnt < (s.ic.fb i).rvdBeat)
      || (s.ic.fb i).hit || (s.ic.fb i).anyErr) := by
  have hb := busy_of_fillOutArb harb
  simp only [Icache.fillOutArb, Icache.fillOutReq, Bool.and_eq_true, Bool.not_eq_true'] at harb
  obtain ⟨⟨⟨⟨-, hs⟩, hd⟩, -⟩, hsel⟩ := harb
  rw [Icache.fillDataRvd, Icache.fillDataReg, hb, hs, hd, hsel]
  simp

/-- Where the buffer at the output is in the next cycle. -/
theorem offs_of_not_grant (hb : s.ic.busy i = true) (hg : s.ic.fillOutGrant p x i = false) :
    (s.ic.fillNext p x i).outCnt = (s.ic.fb i).outCnt ∧
    (s.ic.fillNext p x i).outOff = (s.ic.fb i).outOff ∧
    (s.ic.fillNext p x i).firstOff = (s.ic.fb i).firstOff := by
  obtain ⟨-, -, -, -, -, -, -, haddr, hout⟩ := Icache.fillNext_of_busy (p := p) (x := x) hb
  rw [hg, cnt_add_false] at hout
  refine ⟨hout, ?_, ?_⟩
  · rw [FillBuf.outOff, hout, FillBuf.outOff]
  · rw [FillBuf.firstOff, haddr, FillBuf.firstOff]

/-- A buffer that hits in this cycle. -/
theorem keeps_of_hitIc1 (hi : Inv s) (hok : EnvOk p s x) (harb : s.ic.fillOutArb p x i = true)
    (he : s.ic.eccErrIc1 p = false) (hg : s.ic.fillOutGrant p x i = false)
    (hoff : s.ic.lineOff = (s.ic.fb i).outOff) (hh1 : s.ic.fillHitIc1 i = true)
    (hsame : s.ic.fillRvdArb p x i = true → (s.ic.fb i).rvdOff = (s.ic.fb i).outOff →
      SameAnswer s.ic x (s.ic.fb i)) :
    Keeps (s.ic.fillNext p x i) (s.ic.outputData p x) (s.ic.outputErr p x) := by
  have hb := busy_of_fillOutArb harb
  obtain ⟨-, -, hhit, -⟩ := Icache.fillNext_of_busy (p := p) (x := x) hb
  obtain ⟨-, hoff', -⟩ := offs_of_not_grant hb hg
  obtain ⟨hdr, -⟩ := source_of_fillOutArb harb
  obtain ⟨hod, hoe⟩ := output_eq (p := p) (x := x) hi (IcacheObs.outWaits_of_fillOutArb harb)
  have herr := err_fillNext hi hok harb he
  have hdata := beatOf_fillNext (p := p) (x := x) he i (s.ic.fb i).outOff
  have hin : s.ic.lookupValidIc1 = true ∧ s.ic.fillInIc1 i = true := by
    simp only [Icache.fillHitIc1, Bool.and_eq_true] at hh1
    exact hh1.1
  obtain ⟨-, k, -, hiff, hfresh⟩ := hi.fresh hin.1
  obtain rfl := (hiff i).mp hin.2
  have hbeat : (s.ic.fb i).rvdBeat = (s.ic.fb i).outCnt := by
    rw [FillBuf.rvdBeat, hfresh.rvdCnt, hfresh.outCnt, BitVec.add_zero]
  have hro : (s.ic.fb i).rvdOff = (s.ic.fb i).outOff := by
    rw [FillBuf.rvdOff, hbeat, FillBuf.outOff]
  rw [hh1, if_pos rfl] at hdata
  rw [hoff, hdr, hfresh.hit, hbeat, hh1] at hod hoe
  refine ⟨Or.inl (by rw [hhit, hh1, he]; rfl), ?_, ?_⟩
  · rw [hoff', hdata, hod]
    cases hr : s.ic.fillRvdArb p x i with
    | false => simp
    | true => simp [(hsame hr hro).hitIc1 hfresh.hit]
  · rw [hoff', herr, hoe, hro, hfresh.err]
    cases s.ic.fillRvdArb p x i <;> simp

/-- A buffer that has hit. -/
theorem keeps_of_hit (hi : Inv s) (hok : EnvOk p s x) (harb : s.ic.fillOutArb p x i = true)
    (he : s.ic.eccErrIc1 p = false) (hg : s.ic.fillOutGrant p x i = false)
    (hoff : s.ic.lineOff = (s.ic.fb i).outOff) (hh1 : s.ic.fillHitIc1 i = false)
    (hh : (s.ic.fb i).hit = true)
    (hsame : s.ic.fillRvdArb p x i = true → (s.ic.fb i).rvdOff = (s.ic.fb i).outOff →
      SameAnswer s.ic x (s.ic.fb i)) :
    Keeps (s.ic.fillNext p x i) (s.ic.outputData p x) (s.ic.outputErr p x) := by
  have hb := busy_of_fillOutArb harb
  obtain ⟨-, -, hhit, -⟩ := Icache.fillNext_of_busy (p := p) (x := x) hb
  obtain ⟨-, hoff', -⟩ := offs_of_not_grant hb hg
  obtain ⟨hdr, hdg⟩ := source_of_fillOutArb harb
  obtain ⟨hod, hoe⟩ := output_eq (p := p) (x := x) hi (IcacheObs.outWaits_of_fillOutArb harb)
  have herr := err_fillNext hi hok harb he
  have hdata := beatOf_fillNext (p := p) (x := x) he i (s.ic.fb i).outOff
  rw [hh1, if_neg Bool.false_ne_true] at hdata
  rw [hoff, hdr, hdg, hh, hh1] at hod hoe
  refine ⟨Or.inl (by rw [hhit, hh, Bool.or_true]), ?_, ?_⟩
  · rw [hoff', hdata, hod]
    by_cases hr : s.ic.fillRvdArb p x i = true ∧ (s.ic.fb i).rvdOff = (s.ic.fb i).outOff
    · simp [hr.1, hr.2, ((hsame hr.1 hr.2).hit hh).1]
    · rw [if_neg (by simpa using hr)]
      simp
  · rw [hoff', herr, hoe]
    cases hra : s.ic.fillRvdArb p x i with
    | false => simp
    | true =>
        by_cases hr : (s.ic.fb i).rvdOff = (s.ic.fb i).outOff
        · simp [((hsame hra hr).hit hh).2]
        · simp [beq_eq_false_iff_ne.mpr hr]

/-- An error of a word is one of the buffer. -/
theorem anyErr_of_err {b : FillBuf} {o : BitVec 1} (h : b.err o = true) : b.anyErr = true := by
  obtain rfl | rfl : o = 0#1 ∨ o = 1#1 := by
    clear h
    revert o
    decide
  · rw [FillBuf.anyErr, h, Bool.true_or]
  · rw [FillBuf.anyErr, h, Bool.or_true]

/-- A buffer that has not hit. -/
theorem keeps_of_miss (hi : Inv s) (hok : EnvOk p s x) (harb : s.ic.fillOutArb p x i = true)
    (he : s.ic.eccErrIc1 p = false) (hg : s.ic.fillOutGrant p x i = false)
    (hoff : s.ic.lineOff = (s.ic.fb i).outOff) (hh1 : s.ic.fillHitIc1 i = false)
    (hh : (s.ic.fb i).hit = false) :
    Keeps (s.ic.fillNext p x i) (s.ic.outputData p x) (s.ic.outputErr p x) := by
  have hb := busy_of_fillOutArb harb
  have hf := hi.ok i hb
  obtain ⟨hout', hoff', hfirst⟩ := offs_of_not_grant hb hg
  obtain ⟨hdr, hdg⟩ := source_of_fillOutArb harb
  obtain ⟨hod, hoe⟩ := output_eq (p := p) (x := x) hi (IcacheObs.outWaits_of_fillOutArb harb)
  have herr := err_fillNext hi hok harb he
  have hdata := beatOf_fillNext (p := p) (x := x) he i (s.ic.fb i).outOff
  rw [hh1, if_neg Bool.false_ne_true] at hdata
  rw [hoff, hdr, hdg, hh, hh1] at hod hoe
  have hext2 : (s.ic.fb i).extCnt.toNat ≤ 2 := (hi.route.counts i).ext_le
  have hrle : (s.ic.fb i).rvdCnt.toNat ≤ (s.ic.fb i).extCnt.toNat := (hi.route.counts i).rvd_le
  have hbeat : (s.ic.fb i).rvdBeat.toNat
      = (s.ic.fb i).firstOff.toNat + (s.ic.fb i).rvdCnt.toNat :=
    FillBuf.toNat_rvdBeat _ (by omega)
  have hrv : s.ic.fillRvdArb p x i = true →
      (s.ic.fb i).rvdCnt.toNat < (s.ic.fb i).extCnt.toNat :=
    IcacheObs.rvdCnt_lt_of_fillRvdArb hi.route hok.bus
  obtain ⟨hext, hrvd⟩ :
      (s.ic.fillNext p x i).extCnt.toNat = (s.ic.fb i).extCnt.toNat
        + (s.ic.fillExtArb p x i && Icache.gntNotPmpErr x).toNat ∧
      (s.ic.fillNext p x i).rvdCnt.toNat = (s.ic.fb i).rvdCnt.toNat
        + (s.ic.fillRvdArb p x i).toNat := by
    obtain ⟨hext, hrvd, -⟩ := IcacheObs.counts_of_busy (p := p) hi.route hok.bus hb
    exact ⟨hext, hrvd⟩
  have hreq : s.ic.fillOutReq p x i = true := by
    rw [Icache.fillOutArb, Bool.and_eq_true] at harb
    exact harb.1
  obtain hlt | ⟨heq, hr | ⟨hre, hlt, hne⟩⟩ := out_of_fillOutReq hi hok hb hreq hh hh1
  · -- the word is in the data register, and an answer is for the other word
    obtain ⟨k, hk⟩ := Nat.exists_eq_add_of_le hf.first_le
    have hno : (s.ic.fillRvdArb p x i && (s.ic.fb i).rvdOff == (s.ic.fb i).outOff) = false := by
      by_contra hne
      rw [Bool.not_eq_false, Bool.and_eq_true, beq_iff_eq, FillBuf.rvdOff_eq,
        FillBuf.outOff_eq hk] at hne
      have := hrv hne.1
      have := FillBuf.mod_of_beatOff_eq hne.2
      omega
    have hne : ((s.ic.fb i).rvdBeat == (s.ic.fb i).outCnt) = false := by
      refine beq_eq_false_iff_ne.mpr fun h => ?_
      rw [h] at hbeat
      omega
    have hlt' : (s.ic.fb i).outCnt < (s.ic.fb i).rvdBeat := by
      rw [BitVec.lt_def, hbeat]
      exact hlt
    rw [hno, if_neg Bool.false_ne_true] at hdata
    refine ⟨Or.inr (Or.inl ?_), ?_, ?_⟩
    · rw [hout', hfirst, hrvd]
      omega
    · rw [hoff', hdata, hod]
      simp [hne, hlt']
    · have hno' : (s.ic.fillRvdArb p x i && x.instrErr
          && (s.ic.fb i).rvdOff == (s.ic.fb i).outOff) = false := by
        rw [Bool.and_right_comm, hno, Bool.false_and]
      rw [hoff', herr, hoe, hno']
      simp [hne, hlt']
  · -- the word comes in this cycle
    have hrlt := hrv hr
    have hbo : (s.ic.fb i).rvdBeat = (s.ic.fb i).outCnt :=
      BitVec.eq_of_toNat_eq (by rw [hbeat, heq])
    have hro : (s.ic.fb i).rvdOff = (s.ic.fb i).outOff := by
      rw [FillBuf.rvdOff, hbo, FillBuf.outOff]
    have hclean : (s.ic.fb i).err (s.ic.fb i).outOff = false := by
      by_contra hne
      rw [FillBuf.outOff_eq heq, Bool.not_eq_false] at hne
      obtain ⟨k, hk, hko⟩ | ⟨hlt, hko⟩ := hf.err _ hne
      · have := FillBuf.mod_of_beatOff_eq hko
        have hk' : k < (s.ic.fb i).rvdCnt.toNat := hk
        omega
      · have := FillBuf.mod_of_beatOff_eq hko
        have hlt' : (s.ic.fb i).extCnt.toNat < 2 := hlt
        omega
    rw [hr, hro] at hdata herr
    rw [hr, hbo] at hod hoe
    refine ⟨Or.inr (Or.inl ?_), ?_, ?_⟩
    · rw [hout', hfirst, hrvd, hr, heq]
      simp
    · rw [hoff', hdata, hod]
      simp
    · rw [hoff', herr, hoe, hclean]
      simp
  · -- the word is an error without data
    have hnr : s.ic.fillRvdArb p x i = false := by
      by_contra hne'
      have := hrv ((Bool.not_eq_false _).mp hne')
      omega
    have hna : s.ic.fillExtArb p x i = false := IcacheObs.fillExtArb_of_err hf hne
    have hoe' : (s.ic.fb i).err (s.ic.fb i).outOff = true := by
      rwa [FillBuf.outOff_eq heq, hre, ← FillBuf.extOff_eq]
    rw [hnr, Bool.false_and, if_neg Bool.false_ne_true] at hdata
    rw [hnr] at hod hoe herr
    refine ⟨Or.inr (Or.inr ⟨?_, ?_⟩), ?_, ?_⟩
    · rw [hrvd, hext, hnr, hna, hre]
      rfl
    · rw [hoff', herr, hoe']
      simp
    · rw [hoff', hdata, hod]
      simp [anyErr_of_err hoe']
    · rw [hoff', herr, hoe]
      simp [anyErr_of_err hoe']

/-- **The word at the output is kept.** -/
theorem keeps_next (hi : Inv s) (hok : EnvOk p s x) (harb : s.ic.fillOutArb p x i = true)
    (he : s.ic.eccErrIc1 p = false) (hg : s.ic.fillOutGrant p x i = false)
    (hoff : s.ic.lineOff = (s.ic.fb i).outOff)
    (hsame : s.ic.fillRvdArb p x i = true → (s.ic.fb i).rvdOff = (s.ic.fb i).outOff →
      ((s.ic.fb i).hit || s.ic.fillHitIc1 i) = true → SameAnswer s.ic x (s.ic.fb i)) :
    Keeps (s.ic.fillNext p x i) (s.ic.outputData p x) (s.ic.outputErr p x) := by
  cases hh1 : s.ic.fillHitIc1 i with
  | true =>
      exact keeps_of_hitIc1 hi hok harb he hg hoff hh1 fun hr ho => hsame hr ho (by simp [hh1])
  | false =>
      cases hh : (s.ic.fb i).hit with
      | true =>
          exact keeps_of_hit hi hok harb he hg hoff hh1 hh fun hr ho => hsame hr ho (by simp [hh])
      | false => exact keeps_of_miss hi hok harb he hg hoff hh1 hh

/-! ### The output in the next cycle -/

/-- A buffer goes on being the first one that waits while nothing is accepted. -/
theorem arb_next (hi : Inv s) (hb : x.branch = false)
    (hg : ∀ j, s.ic.fillOutGrant p x j = false)
    (h : arb s.ic.outWaits s.ic.older i = true) :
    arb (s.ic.next p x).outWaits (s.ic.next p x).older i = true := by
  obtain ⟨pre, post, heq, hw, hpre⟩ :=
    (hi.route.aged.arb_iff fun _ => IcacheObs.busy_of_outWaits).mp h
  have hstep : ∀ j ∈ s.obs.order, (s.ic.next p x).outWaits j = s.ic.outWaits j := by
    intro j hj
    have hbj : s.ic.busy j = true := (hi.route.aged.mem j).mp hj
    have hstep : (s.ic.next p x).outWaits j = _ :=
      IcacheObs.outWaits_next (p := p) (s := s.obs) hbj (hi.ok j hbj).out_le hb
    rw [hstep, hg j]
    simp
  have hwi : (s.ic.next p x).outWaits i = true := by
    rw [hstep i (by simp [heq]), hw]
  have hdone : s.ic.fillDone p x i = false := by
    have hbi : (s.ic.next p x).busy i = true := by
      simp only [Icache.outWaits, Bool.and_eq_true] at hwi
      exact hwi.1.1
    have hbo : s.ic.busy i = true := IcacheObs.busy_of_outWaits hw
    rw [Icache.busy_next, Icache.fillAlloc_of_busy hbo, hbo] at hbi
    simpa using hbi
  have haged : Aged (s.ic.next p x).busy (s.ic.next p x).older (s.obs.next p x).order :=
    IcacheObs.aged_next hi.route
  have hreq : ∀ j, (s.ic.next p x).outWaits j = true → (s.ic.next p x).busy j = true := by
    intro j hj
    simp only [Icache.outWaits, Bool.and_eq_true] at hj
    exact hj.1.1
  refine (haged.arb_iff hreq).mpr ⟨pre.filter fun j => !s.ic.fillDone p x j,
    post.filter (fun j => !s.ic.fillDone p x j) ++ (s.obs.newBuf p x).toList, ?_, hwi,
    fun j hj => ?_⟩
  · rw [IcacheObs.next, Aged.nextOrder, heq, List.filter_append,
      List.filter_cons_of_pos (by simp [hdone]), List.append_assoc, List.cons_append]
  · have hjp := (List.mem_filter.mp hj).1
    rw [hstep j (by simp [heq, hjp])]
    exact hpre j hjp

/-- A busy buffer does not hit in the next cycle. -/
theorem fillHitIc1_next (hb : s.ic.busy i = true) : (s.ic.next p x).fillHitIc1 i = false := by
  rw [Icache.fillHitIc1]
  cases hv : (s.ic.next p x).lookupValidIc1 with
  | false => rfl
  | true =>
      have hl : s.ic.lookupGrantIc0 p x = true := by
        simp only [Icache.next, Icache.lookupActualIc0, Bool.and_eq_true] at hv
        exact hv.1.1
      have hin : (s.ic.next p x).fillInIc1 i = false := by
        simp [Icache.next, hl, Icache.fillAllocSel, hb]
      rw [hin]
      rfl

/-- What is kept is shown. -/
theorem output_of_keeps (hi : Inv s) (hok : EnvOk p s x) {d : BitVec 32} {e : Bool}
    (harb : arb s.ic.outWaits s.ic.older i = true) (hh1 : s.ic.fillHitIc1 i = false)
    (hoff : s.ic.lineOff = (s.ic.fb i).outOff) (hk : Keeps (s.ic.fb i) d e) :
    s.ic.fillOutArb p x i = true ∧ s.ic.outputData p x = d ∧ s.ic.outputErr p x = e := by
  have hw : s.ic.outWaits i = true := by
    rw [arb, Bool.and_eq_true] at harb
    exact harb.1
  have hsel : s.ic.fillDataSel i = true := by
    rw [arb, Bool.and_eq_true] at harb
    exact harb.2
  have hb : s.ic.busy i = true := IcacheObs.busy_of_outWaits hw
  have hopen : (s.ic.fb i).stale = false ∧ (s.ic.fb i).outDone = false := by
    simp only [Icache.outWaits, Bool.and_eq_true, Bool.not_eq_true'] at hw
    exact ⟨hw.2, hw.1.2⟩
  have hrle : (s.ic.fb i).rvdCnt.toNat ≤ (s.ic.fb i).extCnt.toNat := (hi.route.counts i).rvd_le
  have hext2 : (s.ic.fb i).extCnt.toNat ≤ 2 := (hi.route.counts i).ext_le
  have hbeat : (s.ic.fb i).rvdBeat.toNat
      = (s.ic.fb i).firstOff.toNat + (s.ic.fb i).rvdCnt.toNat :=
    FillBuf.toNat_rvdBeat _ (by omega)
  have hrv : s.ic.fillRvdArb p x i = true →
      (s.ic.fb i).rvdCnt.toNat < (s.ic.fb i).extCnt.toNat :=
    IcacheObs.rvdCnt_lt_of_fillRvdArb hi.route hok.bus
  have hreq : s.ic.fillOutReq p x i = true := by
    have herr : (s.ic.fb i).err (s.ic.fb i).outOff
        = (s.ic.fb i).err ((s.ic.fb i).outCnt.setWidth 1) := rfl
    obtain h | h | ⟨-, h⟩ := hk.has
    · simp [Icache.fillOutReq, hb, hopen, h]
    · have hlt : (s.ic.fb i).outCnt < (s.ic.fb i).rvdBeat := by
        rw [BitVec.lt_def, hbeat]
        exact h
      simp [Icache.fillOutReq, hb, hopen, hlt]
    · rw [herr] at h
      simp [Icache.fillOutReq, hb, hopen, h]
  have harb' : s.ic.fillOutArb p x i = true := by
    rw [Icache.fillOutArb, hreq, hsel]
    rfl
  obtain ⟨hdr, hdg⟩ := source_of_fillOutArb harb'
  have hreg : s.ic.fillDataReg i = true := by
    rw [hdg]
    obtain h | h | ⟨-, h⟩ := hk.has
    · simp [h]
    · have hlt : (s.ic.fb i).outCnt < (s.ic.fb i).rvdBeat := by
        rw [BitVec.lt_def, hbeat]
        exact h
      simp [hlt]
    · simp [anyErr_of_err h]
  have hno : s.ic.fillDataRvd p x i = false := by
    rw [hdr]
    by_contra hne
    rw [Bool.not_eq_false, Bool.and_eq_true, Bool.and_eq_true, Bool.not_eq_true',
      beq_iff_eq] at hne
    obtain ⟨⟨hr, hh⟩, hbo⟩ := hne
    have := hrv hr
    rw [hbo] at hbeat
    obtain h | h | ⟨h, -⟩ := hk.has
    · rw [hh] at h
      cases h
    · omega
    · omega
  obtain ⟨hod, hoe⟩ := output_eq (p := p) (x := x) hi harb
  refine ⟨harb', ?_, ?_⟩
  · rw [hod, hno, hh1, hreg, hoff]
    exact hk.data
  · rw [hoe, hno, hh1, hreg, hoff]
    simpa using hk.err

/-! ### The promises -/

/-- What the cache shows for a word and its error. -/
def shown (s : Icache) (d : BitVec 32) (e : Bool) : FetchOut where
  rdata := halfOf (!unaligned s.outputAddr) d
    ++ if s.skidValid then s.skidData else halfOf (unaligned s.outputAddr) d
  addr := s.outputAddr ++ 0#1
  err := (s.skidValid && s.skidErr) || (!s.skidCompleteInstr && e)
  errPlus2 := s.skidValid && !s.skidErr

/-- A word and its error are enough for an instruction. -/
def isEnough (s : Icache) (d : BitVec 32) (e : Bool) : Bool :=
  !unaligned s.outputAddr || s.skidValid || e || d.extractLsb' 16 2 != 0b11#2

/-- What is at the output is what is shown of the word and its error. -/
theorem out_eq : s.ic.out p x = shown s.ic (s.ic.outputData p x) (s.ic.outputErr p x) := rfl

/-- Two outputs show one instruction: the upper half of `rdata` counts where the instruction
has 32 bits. -/
structure SameInstr (o o' : FetchOut) : Prop where
  addr : o'.addr = o.addr
  err : o'.err = o.err
  errPlus2 : o'.errPlus2 = o.errPlus2
  low : o'.rdata.extractLsb' 0 16 = o.rdata.extractLsb' 0 16
  high : isCompressedHalf (o.rdata.extractLsb' 0 16) = false →
    o'.rdata.extractLsb' 16 16 = o.rdata.extractLsb' 16 16

/-- An output that was valid and neither accepted nor cancelled is still there. -/
def Stable (p : IcacheParams) (s : IcacheSys) (x : IcacheIn) : Prop :=
  ∀ o, s.heldOut = some o → s.ic.valid p x = true ∧ SameInstr o (s.ic.out p x)

/-- The other promises: `err_plus2_o` is for an uncompressed instruction, a request stays until
its grant, and the cache is busy while something is under way. -/
structure Promises (p : IcacheParams) (s : IcacheSys) (x : IcacheIn) : Prop where
  errPlus2 : s.ic.valid p x = true → (s.ic.out p x).err = true →
    (s.ic.out p x).errPlus2 = true →
    isCompressedHalf ((s.ic.out p x).rdata.extractLsb' 0 16) = false
  request : ∀ a, s.heldReq = some a → s.ic.instrReq p x = true ∧ s.ic.instrAddr p x = a
  busy : s.obs.pending ≠ [] ∨ s.ic.invalProg = true → s.ic.busyO p x = true

/-- Nothing spoils an output that is held, unless it is a complete instruction in the skid
buffer: no ECC error of a lookup comes up; an answer for a word that the buffer at the output
has from the cache brings the same word, and no error once the hit has been recorded; and the
address counter is that of the instructions. -/
structure Calm (p : IcacheParams) (s : IcacheSys) (x : IcacheIn) : Prop where
  ecc : s.heldOut ≠ none → s.ic.eccErrIc1 p = true → s.ic.skidCompleteInstr = true
  answer : s.holds p x = true → s.ic.skidCompleteInstr = false →
    ∀ i, s.ic.fillOutArb p x i = true → s.ic.fillRvdArb p x i = true →
      (s.ic.fb i).rvdOff = (s.ic.fb i).outOff →
      ((s.ic.fb i).hit || s.ic.fillHitIc1 i) = true → SameAnswer s.ic x (s.ic.fb i)
  inStep : s.holds p x = true → s.ic.skidCompleteInstr = false → s.outOfStep = false

/-- Calmness is a matter of the state and the input. -/
instance (p : IcacheParams) (s : IcacheSys) (x : IcacheIn) : Decidable (Calm p s x) :=
  decidable_of_iff
    ((s.heldOut ≠ none → s.ic.eccErrIc1 p = true → s.ic.skidCompleteInstr = true) ∧
      (s.holds p x = true → s.ic.skidCompleteInstr = false →
        ∀ i, s.ic.fillOutArb p x i = true → s.ic.fillRvdArb p x i = true →
          (s.ic.fb i).rvdOff = (s.ic.fb i).outOff →
          ((s.ic.fb i).hit || s.ic.fillHitIc1 i) = true → SameAnswer s.ic x (s.ic.fb i)) ∧
      (s.holds p x = true → s.ic.skidCompleteInstr = false → s.outOfStep = false))
    ⟨fun ⟨a, b, c⟩ => ⟨a, b, c⟩, fun h => ⟨h.ecc, h.answer, h.inStep⟩⟩

/-- The output that is held is still to be seen. -/
def Held (s : IcacheSys) : Prop := ∀ o, s.heldOut = some o →
  (s.ic.skidCompleteInstr = true ∧ ∀ d e, SameInstr o (shown s.ic d e)) ∨
  ∃ i d e, arb s.ic.outWaits s.ic.older i = true ∧ s.ic.fillHitIc1 i = false ∧
    s.ic.lineOff = (s.ic.fb i).outOff ∧ Keeps (s.ic.fb i) d e ∧
    isEnough s.ic d e = true ∧ o = shown s.ic d e

/-- An instruction is the same as itself. -/
theorem sameInstr_refl (o : FetchOut) : SameInstr o o := ⟨rfl, rfl, rfl, rfl, fun _ => rfl⟩

/-- A complete instruction in the skid buffer does not depend on the word behind it. -/
theorem sameInstr_of_skid {s : Icache} (h : s.skidCompleteInstr = true) (d d' : BitVec 32)
    (e e' : Bool) : SameInstr (shown s d e) (shown s d' e') := by
  have hs : s.skidValid = true ∧ isCompressedHalf s.skidData = true := by
    rwa [Icache.skidCompleteInstr, Bool.and_eq_true] at h
  have hlow : ∀ u : BitVec 16, (u ++ s.skidData : BitVec 32).extractLsb' 0 16 = s.skidData :=
    fun _ => BitVec.extractLsb'_append_eq_right
  refine ⟨rfl, by simp [shown, h], rfl, ?_, fun hc => ?_⟩
  · simp only [shown, hs.1, if_true, hlow]
  · simp only [shown, hs.1, if_true, hlow, hs.2] at hc
    cases hc

/-- What the output depends on stays while nothing is accepted. -/
theorem shown_next (hr : x.ready = false) (hb : x.branch = false) :
    shown (s.ic.next p x) = shown s.ic ∧ isEnough (s.ic.next p x) = isEnough s.ic ∧
    (s.ic.next p x).skidCompleteInstr = s.ic.skidCompleteInstr ∧
    (s.ic.next p x).lineOff = s.ic.lineOff := by
  obtain ⟨haddr, hskid⟩ := output_next (p := p) (s := s) hb
  simp only [hr, Bool.false_and, Bool.not_false, Bool.and_false, Bool.false_eq_true,
    if_false] at haddr hskid
  have hv : (s.ic.next p x).skidValid = s.ic.skidValid := by
    rw [hskid]
    cases s.ic.skidValid <;> rfl
  have hd : (s.ic.next p x).skidData = s.ic.skidData := by simp [Icache.next, hr]
  have he : (s.ic.next p x).skidErr = s.ic.skidErr := by simp [Icache.next, hr]
  have hc : (s.ic.next p x).skidCompleteInstr = s.ic.skidCompleteInstr := by
    rw [Icache.skidCompleteInstr, hv, hd, Icache.skidCompleteInstr]
  refine ⟨?_, ?_, hc, ?_⟩
  · funext d e
    rw [shown, haddr, hv, hd, he, hc, shown]
  · funext d e
    rw [isEnough, haddr, hv, isEnough]
  · rw [Icache.lineOff, haddr, hv, Icache.lineOff]

/-- **Step lemma.** -/
theorem held_next (hi : Inv s) (hok : EnvOk p s x) (hc : Calm p s x) : Held (s.next p x) := by
  intro o ho
  simp only [next, Option.ite_none_right_eq_some, Option.some.injEq] at ho
  obtain ⟨hh, rfl⟩ := ho
  have hh' := hh
  rw [holds, Bool.and_eq_true, Bool.and_eq_true, Bool.not_eq_true', Bool.not_eq_true'] at hh'
  obtain ⟨⟨hv, hr⟩, hb⟩ := hh'
  obtain ⟨hshow, henough, hskid, hoff⟩ := shown_next (p := p) (s := s) hr hb
  cases hs : s.ic.skidCompleteInstr with
  | true =>
      refine Or.inl ⟨hskid.trans hs, fun d e => ?_⟩
      have hsame : SameInstr (s.ic.out p x) (shown (s.ic.next p x) d e) := by
        rw [hshow, out_eq]
        exact sameInstr_of_skid hs _ _ _ _
      exact hsame
  | false =>
      have hv' : s.ic.dataValid p x = true ∧
          isEnough s.ic (s.ic.outputData p x) (s.ic.outputErr p x) = true := by
        rw [Icache.valid, hs, Bool.false_or, Bool.and_eq_true] at hv
        exact hv
      obtain ⟨hd, hen⟩ := hv'
      rw [Icache.dataValid, Bool.and_eq_true, Bool.not_eq_true'] at hd
      obtain ⟨i, harb⟩ := anyOf_iff.mp hd.1
      have hg : ∀ j, s.ic.fillOutGrant p x j = false := fun j => by
        simp [Icache.fillOutGrant, Icache.outputReady, hr]
      have hbi := busy_of_fillOutArb harb
      have hoffi := lineOff_eq_outOff hi (hc.inStep hh hs) (IcacheObs.outWaits_of_fillOutArb harb)
      obtain ⟨-, hoff', -⟩ := offs_of_not_grant hbi (hg i)
      have hkeep := keeps_next hi hok harb hd.2 (hg i) hoffi
        fun hrv ho hh' => hc.answer hh hs i harb hrv ho hh'
      refine Or.inr ⟨i, _, _, arb_next hi hb hg (IcacheObs.outWaits_of_fillOutArb harb),
        fillHitIc1_next hbi, ?_, hkeep, ?_, ?_⟩
      · exact (hoff.trans hoffi).trans hoff'.symm
      · exact (congrFun (congrFun henough _) _).trans hen
      · rw [out_eq]
        exact (congrFun (congrFun hshow _) _).symm

/-- What is held at the output stays, in a calm cycle. -/
theorem stable_of_held (hi : Inv s) (hh : Held s) (hok : EnvOk p s x) (hc : Calm p s x) :
    Stable p s x := by
  intro o ho
  have hne : s.heldOut ≠ none := by simp [ho]
  obtain ⟨hs, hsame⟩ | ⟨i, d, e, harb, hh1, hoff, hkeep, hen, rfl⟩ := hh o ho
  · refine ⟨by rw [Icache.valid, hs, Bool.true_or], ?_⟩
    rw [out_eq]
    exact hsame _ _
  · cases hs : s.ic.skidCompleteInstr with
    | true =>
        refine ⟨by rw [Icache.valid, hs, Bool.true_or], ?_⟩
        rw [out_eq]
        exact sameInstr_of_skid hs _ _ _ _
    | false =>
        obtain ⟨harb', hd, he⟩ := output_of_keeps hi hok harb hh1 hoff hkeep
        have hecc : s.ic.eccErrIc1 p = false := by
          by_contra hecc
          rw [hc.ecc hne ((Bool.not_eq_false _).mp hecc)] at hs
          cases hs
        have hdv : s.ic.dataValid p x = true := by
          rw [Icache.dataValid, anyOf_of harb', hecc]
          rfl
        refine ⟨?_, ?_⟩
        · have henough : isEnough s.ic (s.ic.outputData p x) (s.ic.outputErr p x) = true := by
            rw [hd, he, hen]
          rw [Icache.valid, hdv, hs]
          exact henough
        · rw [out_eq, hd, he]
          exact sameInstr_refl _

/-- The other promises do not depend on what comes. -/
theorem promises (hi : Inv s) (x : IcacheIn) : Promises p s x where
  errPlus2 := by
    intro _ herr hp2
    have hs : s.ic.skidValid = true ∧ s.ic.skidErr = false := by
      simpa [Icache.out] using hp2
    have hnc : s.ic.skidCompleteInstr = false := by
      simp only [Icache.out, hs.1, hs.2, Bool.and_false, Bool.false_or, Bool.and_eq_true,
        Bool.not_eq_true'] at herr
      exact herr.1
    have hlow : (s.ic.out p x).rdata.extractLsb' 0 16 = s.ic.skidData := by
      rw [Icache.out, Icache.rdataLo, hs.1]
      exact BitVec.extractLsb'_append_eq_right
    rw [hlow]
    simpa [Icache.skidCompleteInstr, hs.1] using hnc
  request := by
    intro a ha
    obtain ⟨i, hb, hh, rfl⟩ := (hi.heldReq a).mp ha
    obtain ⟨hany, haddr⟩ :=
      instrAddr_of_fillExtArb (p := p) hi.route (fillExtArb_of_hold (x := x) hi.route hb hh)
    exact ⟨by rw [Icache.instrReq, hany, Bool.or_true], haddr⟩
  busy := by
    rintro (hne | hp)
    · obtain ⟨i, hb, hlt⟩ := IcacheObs.exists_missing hi.route hne
      have hcnt : (s.ic.fb i).rvdCnt ≠ (s.ic.fb i).extCnt := fun h => by
        rw [h] at hlt
        exact absurd hlt (lt_irrefl _)
      have hany : anyOf (fun i => s.ic.busy i && !s.ic.fillRvdDone p x i) = true :=
        anyOf_of (i := i) (by simp [Icache.fillRvdDone, hb, hcnt])
      rw [Icache.busyO, hany, Bool.or_true]
    · rw [Icache.busyO, hp, Bool.true_or]

/-- **The handshakes.** In every run that keeps to the rules of the core and the bus the cache
keeps its requests, its `err_plus2_o` and its `busy_o`; and if nothing spoils a held output, it
is stable as well. -/
theorem handshakes_kept (p : IcacheParams) (s₀ : IcacheSys) (h0 : Start s₀)
    (ins : List IcacheIn) (x : IcacheIn)
    (hok : Machine.Along (next p) (EnvOk p) s₀ (ins ++ [x])) :
    Promises p (Machine.run (next p) s₀ ins) x ∧
      (Machine.Along (next p) (Calm p) s₀ (ins ++ [x]) →
        Stable p (Machine.run (next p) s₀ ins) x) := by
  obtain ⟨hins, hx⟩ := Machine.along_concat.mp hok
  have hi : Inv (Machine.run (next p) s₀ ins) :=
    Machine.run_induction Inv (fun _ _ hi hok => inv_next hi hok) (inv_start h0) hins
  refine ⟨promises hi x, fun hcalm => ?_⟩
  obtain ⟨hcins, hcx⟩ := Machine.along_concat.mp hcalm
  have hboth := Machine.along_and.mpr ⟨hins, hcins⟩
  have hh : Inv (Machine.run (next p) s₀ ins) ∧ Held (Machine.run (next p) s₀ ins) :=
    Machine.run_induction (fun s => Inv s ∧ Held s)
      (fun _ _ h hok => ⟨inv_next h.1 hok.1, held_next h.1 hok.1 hok.2⟩)
      ⟨inv_start h0, fun o ho => by simp [h0.heldOut] at ho⟩ hboth
  exact stable_of_held hi hh.2 hx hcx

/-- A branch whose first word is granted at once. -/
def branchIn : IcacheIn :=
  { IcacheIn.idle with
    req := true
    branch := true
    addr := 0x1000#32
    instrGnt := true
    icacheEnable := true }

/-- The first word comes while the next line is looked up, and a bit of the tag that is read has
flipped. -/
def flipIn : IcacheIn :=
  { IcacheIn.idle with
    req := true
    instrGnt := true
    instrRdata := 0x13#32
    instrRvalid := true
    icacheEnable := true
    tagFlip := fun w k => if firstWay w && k == 1#8 then 1#28 else 0#28 }

/-- The cycle behind an accepted output. -/
def acceptIn : IcacheIn := { IcacheIn.idle with req := true, ready := true, instrRvalid := true }

/-- The same two cycles without a flip: an instruction comes and is not accepted. -/
def heldTrace : List IcacheIn := [branchIn, { flipIn with tagFlip := fun _ _ => 0#28 }]

/-- An instruction is held for one cycle and then accepted; in between it stays as it is. -/
theorem handshakes_kept_branch :
    let s := Machine.run (next eccOn) (quiet false false 0#8) heldTrace
    s.heldOut = some ⟨0x13#32, 0x1000#32, false, false⟩ ∧ Promises eccOn s acceptIn ∧
      Stable eccOn s acceptIn ∧ s.ic.valid eccOn acceptIn = true := by
  intro s
  obtain ⟨hpromises, hstable⟩ :=
    handshakes_kept eccOn (quiet false false 0#8) start_quiet heldTrace acceptIn (by decide +kernel)
  have hheld : s.heldOut = some ⟨0x13#32, 0x1000#32, false, false⟩ := by decide +kernel
  have hst : Stable eccOn s acceptIn := hstable (by decide +kernel)
  exact ⟨hheld, hpromises, hst, (hst _ hheld).1⟩

/-- The three cycles of the flip keep to the rules of the bus and the core. -/
theorem envOk_flip : EnvOk eccOn (quiet true false 255#8) branchIn ∧
    EnvOk eccOn ((quiet true false 255#8).next eccOn branchIn) flipIn ∧
    EnvOk eccOn (((quiet true false 255#8).next eccOn branchIn).next eccOn flipIn) .idle := by
  decide +kernel

/-- The ECC error of the second lookup takes the first instruction back. -/
theorem handshakes_inexact : ∃ s₀ ins x, Start s₀ ∧
    Machine.Along (next eccOn) (EnvOk eccOn) s₀ (ins ++ [x]) ∧
    ¬ Stable eccOn (Machine.run (next eccOn) s₀ ins) x := by
  have hrun : Machine.run (next eccOn) (quiet false false 0#8)
      (List.replicate 257 .idle ++ [branchIn, flipIn])
      = ((quiet true false 255#8).next eccOn branchIn).next eccOn flipIn := by
    rw [Machine.run_append, run_reset]
    rfl
  refine ⟨quiet false false 0#8, List.replicate 257 .idle ++ [branchIn, flipIn], .idle,
    start_quiet, ?_, ?_⟩
  · rw [List.append_assoc, Machine.along_append, run_reset]
    exact ⟨along_idle eccOn _ _, envOk_flip.1, envOk_flip.2.1, envOk_flip.2.2, trivial⟩
  · rw [hrun]
    intro h
    have hheld : (((quiet true false 255#8).next eccOn branchIn).next eccOn flipIn).heldOut
        = some ⟨0x13#32, 0x1000#32, false, false⟩ := by decide +kernel
    have hv := (h _ hheld).1
    revert hv
    decide +kernel

end IcacheSys

end CocoIbex
