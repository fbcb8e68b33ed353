import CocoIbex.IcacheRam

/-!
# The Memory Behind the Cache

What the fill buffers have is the memory's, and so is the word that they put at the output. From
the target of a branch on, up to the first error, the core gets the instructions of the memory
in the order of the parse, whatever the cache looks up, fills and invalidates.

The stream is the one of `FetchStream`, which the prefetch buffer delivers too, so that behind
either of them the core sees the same program. `Served` is what is promised of a cycle: the
instruction at the output is the next one of the parse, as far as it goes, with the error that
it has. The memory and its errors do not change during the run; what software has to do for a
program that changes is not the matter of this module.

Two restrictions are needed, and for each there is a run in which a stale word or a mixture of
two lines is delivered without it: nothing is looked up in the first cycle behind the reset
(`FirstUnlooked`), and where both ways match the flips in the two lines do not add up to another
code word (`Apart`).

## Main results

* `inv_next` — the step lemma, for the fill buffers, the output and the skid buffer together;
* `output_eq` — the word at the output is the memory's;
* `memory_served` — the cache is transparent, in every run that starts with a reset;
* `memory_missed` and `memory_missed_first` — the runs that the two restrictions exclude.
-/

namespace CocoIbex

open OneHot

namespace IcacheMem

variable {p : IcacheParams} {flips : Bool} {m : FetchMem} {s : IcacheMem} {x : IcacheIn}
  {i : Fin 4}

/-! ### The words of the buffers -/

/-- An answer is the word that the buffer has asked for. -/
theorem answer_of_fillRvdArb (hs : s.sys.Inv) (hok : EnvOk p flips m s x)
    (hr : s.ic.fillRvdArb p x i = true) :
    x.instrErr = (m ((s.ic.fb i).addr.extractLsb' 3 29
      ++ (s.ic.fb i).beatOff (s.ic.fb i).rvdCnt.toNat)).err ∧
    x.instrRdata = (m ((s.ic.fb i).addr.extractLsb' 3 29
      ++ (s.ic.fb i).beatOff (s.ic.fb i).rvdCnt.toNat)).rdata := by
  have hrv : x.instrRvalid = true := by
    simp only [Icache.fillRvdArb, Bool.and_eq_true] at hr
    exact hr.1
  have hrouted : IcacheObs.Routed p s.sys.obs x := IcacheObs.routed_of_inv hs.route hok.sys.bus
  obtain ⟨j, a, rest, hpend, -, hiff, ha⟩ := hrouted.taken hrv
  obtain rfl := (hiff i).mp hr
  have hans := hok.answer hrv _ (by rw [hpend]; rfl)
  rw [ha, wordOfAddr_append, FillBuf.rvdOff_eq] at hans
  exact hans

/-- The verdict of the PMP on a request. -/
theorem pmpErr_of_fillExtArb (hs : s.sys.Inv) (hok : EnvOk p flips m s x)
    (ha : s.ic.fillExtArb p x i = true) :
    x.instrPmpErr = (m ((s.ic.fb i).addr.extractLsb' 3 29
      ++ (s.ic.fb i).beatOff (s.ic.fb i).extCnt.toNat)).pmpErr := by
  obtain ⟨hany, haddr⟩ := IcacheSys.instrAddr_of_fillExtArb hs.route ha
  have hreq : s.ic.instrReq p x = true := by
    rw [Icache.instrReq, anyOf_of (IcacheObs.fillExtReq_of_fillExtArb ha), Bool.or_true]
  rw [hok.pmp hreq, haddr, FillBuf.extReqAddr, FillBuf.extOff_eq]

/-- Beats of a buffer that count their words one by one. -/
theorem counts_next (hs : s.sys.Inv) (hok : EnvOk p flips m s x) (hb : s.ic.busy i = true) :
    (s.ic.fillNext p x i).extCnt.toNat = (s.ic.fb i).extCnt.toNat
      + (s.ic.fillExtArb p x i && Icache.gntNotPmpErr x).toNat ∧
    (s.ic.fillNext p x i).rvdCnt.toNat = (s.ic.fb i).rvdCnt.toNat
      + (s.ic.fillRvdArb p x i).toNat ∧
    (s.ic.fb i).rvdCnt.toNat ≤ (s.ic.fb i).extCnt.toNat ∧ (s.ic.fb i).extCnt.toNat ≤ 2 ∧
    (s.ic.fillRvdArb p x i = true →
      (s.ic.fb i).rvdCnt.toNat < (s.ic.fb i).extCnt.toNat) := by
  obtain ⟨hext, hrvd, -⟩ := IcacheObs.counts_of_busy (p := p) hs.route hok.sys.bus hb
  exact ⟨hext, hrvd, (hs.route.counts i).rvd_le, (hs.route.counts i).ext_le,
    IcacheObs.rvdCnt_lt_of_fillRvdArb hs.route hok.sys.bus⟩

/-- A buffer that hits in this cycle is fresh. -/
theorem fresh_of_fillHitIc1 (hs : s.sys.Inv) (hh : s.ic.fillHitIc1 i = true) :
    s.ic.busy i = true ∧ (s.ic.fb i).rvdCnt.toNat = 0 ∧ (s.ic.fb i).hit = false := by
  simp only [Icache.fillHitIc1, Bool.and_eq_true] at hh
  obtain ⟨pre, k, heq, hiff, hf⟩ := hs.fresh hh.1.1
  obtain rfl := (hiff i).mp hh.1.2
  exact ⟨(hs.route.aged.mem i).mp (by simp [heq]), by rw [hf.rvdCnt]; rfl, hf.hit⟩

/-- A word of the data register, with and without an ECC error. -/
theorem beatOf_data_next (s : Icache) (p : IcacheParams) (x : IcacheIn) (i : Fin 4)
    (o : BitVec 1) : beatOf o (s.fillNext p x i).data =
      if s.fillHitIc1 i && !s.eccErrIc1 p then beatOf o (s.hitDataIc1.extractLsb' 0 64)
      else if s.fillHitIc1 i || (s.fillRvdArb p x i && (s.fb i).rvdOff == o) then x.instrRdata
      else beatOf o (s.fb i).data := by
  have hbeat : beatOf o (s.fillNext p x i).data = s.fillDataBeat p x i o := by
    rw [Icache.fillNext]
    obtain rfl | rfl : o = 0#1 ∨ o = 1#1 := by revert o; decide
    · exact BitVec.extractLsb'_append_eq_right
    · exact BitVec.extractLsb'_append_eq_left
  rw [hbeat, Icache.fillDataBeat, Icache.fillDataEn, Icache.fillDataD]
  cases s.fillHitIc1 i <;> cases s.eccErrIc1 p <;>
    cases s.fillRvdArb p x i && (s.fb i).rvdOff == o <;> simp [IcacheSys.beatOf_twice]

/-- Where an error of a buffer comes from. -/
theorem fillErrD_iff (i : Fin 4) (o : BitVec 1) : s.ic.fillErrD p x i o = true ↔
    (s.ic.fillExtArb p x i = true ∧ x.instrPmpErr = true ∧
      o = (s.ic.fb i).beatOff (s.ic.fb i).extCnt.toNat) ∨
    (s.ic.fillRvdArb p x i = true ∧ x.instrErr = true ∧
      o = (s.ic.fb i).beatOff (s.ic.fb i).rvdCnt.toNat) ∨
    (s.ic.busy i = true ∧ (s.ic.fb i).err o = true) :=
  IcacheObs.fillErrD_iff (s := s.sys.obs) i o

/-- An error of a buffer is one of the memory. -/
theorem errBad_next (hs : s.sys.Inv) (hok : EnvOk p flips m s x) (hd : FillData m (s.ic.fb i))
    {o : BitVec 1} (ho : s.ic.fillErrD p x i o = true) :
    (m ((s.ic.fb i).addr.extractLsb' 3 29 ++ o)).bad = true := by
  obtain ⟨ha, hp, rfl⟩ | ⟨hr, he, rfl⟩ | ⟨-, he⟩ := (fillErrD_iff i o).mp ho
  · rw [pmpErr_of_fillExtArb hs hok ha] at hp
    rw [FetchWord.bad, hp, Bool.or_true]
  · rw [(answer_of_fillRvdArb hs hok hr).1] at he
    rw [FetchWord.bad, he, Bool.true_or]
  · exact hd.errBad o he

/-- The PMP has let the requests pass that have been granted. -/
theorem asked_next (hs : s.sys.Inv) (hok : EnvOk p flips m s x) (hd : FillData m (s.ic.fb i))
    (hb : s.ic.busy i = true) {k : ℕ} (hk : k < (s.ic.fillNext p x i).extCnt.toNat) :
    (m ((s.ic.fb i).addr.extractLsb' 3 29 ++ (s.ic.fb i).beatOff k)).pmpErr = false := by
  obtain ⟨hext, -⟩ := counts_next hs hok hb
  cases hg : s.ic.fillExtArb p x i && Icache.gntNotPmpErr x with
  | false =>
      rw [hext, hg] at hk
      exact hd.asked k hk
  | true =>
      rw [hext, hg, Bool.toNat_true] at hk
      obtain hlt | rfl := Nat.lt_or_eq_of_le (Nat.le_of_lt_succ hk)
      · exact hd.asked k hlt
      · rw [Icache.gntNotPmpErr, Bool.and_eq_true, Bool.and_eq_true, Bool.not_eq_true'] at hg
        rw [← pmpErr_of_fillExtArb hs hok hg.1]
        exact hg.2.2

/-- What the PMP has stopped is an error behind the requests. -/
theorem stopped_next (hs : s.sys.Inv) (hok : EnvOk p flips m s x) (hd : FillData m (s.ic.fb i))
    (hb : s.ic.busy i = true) (hlt : (s.ic.fillNext p x i).extCnt.toNat < 2)
    (he : s.ic.fillErrD p x i ((s.ic.fb i).beatOff (s.ic.fillNext p x i).extCnt.toNat) = true) :
    (m ((s.ic.fb i).addr.extractLsb' 3 29
      ++ (s.ic.fb i).beatOff (s.ic.fillNext p x i).extCnt.toNat)).pmpErr = true := by
  obtain ⟨hext, -, hrle, -, hrlt⟩ := counts_next hs hok hb
  have hf : (s.ic.fb i).Ok := hs.ok i hb
  obtain ⟨ha, hp, ho⟩ | ⟨hr, -, ho⟩ | ⟨-, he⟩ := (fillErrD_iff i _).mp he
  · rw [ho, ← pmpErr_of_fillExtArb hs hok ha]
    exact hp
  · have := hrlt hr
    have := FillBuf.mod_of_beatOff_eq ho
    have := Bool.toNat_le (s.ic.fillExtArb p x i && Icache.gntNotPmpErr x)
    omega
  · cases hg : s.ic.fillExtArb p x i && Icache.gntNotPmpErr x with
    | false =>
        rw [hg, Bool.toNat_false, Nat.add_zero] at hext
        rw [hext] at he hlt ⊢
        exact hd.stopped hlt he
    | true =>
        -- an error at a word that has not been requested yet
        rw [hg, Bool.toNat_true] at hext
        rw [hext] at he hlt
        exfalso
        obtain ⟨k, hk, ho⟩ | ⟨-, ho⟩ := hf.err _ he
        · have hk' : k < (s.ic.fb i).rvdCnt.toNat := hk
          omega
        · have := FillBuf.mod_of_beatOff_eq ho
          omega

/-- The error of a word that has been answered is that of the memory. -/
theorem err_of_got (hs : s.sys.Inv) (hok : EnvOk p flips m s x) (hd : FillData m (s.ic.fb i))
    (hb : s.ic.busy i = true) {k : ℕ} (hk : k < (s.ic.fillNext p x i).rvdCnt.toNat) :
    s.ic.fillErrD p x i ((s.ic.fb i).beatOff k)
      = (m ((s.ic.fb i).addr.extractLsb' 3 29 ++ (s.ic.fb i).beatOff k)).err := by
  obtain ⟨-, hrvd, hrle, hele, hrlt⟩ := counts_next hs hok hb
  have hf : (s.ic.fb i).Ok := hs.ok i hb
  have hiff := fillErrD_iff (s := s) (p := p) (x := x) i ((s.ic.fb i).beatOff k)
  have hnew := Bool.toNat_le (s.ic.fillRvdArb p x i)
  -- a word that the PMP has stopped has not been answered
  have hno : ¬ (s.ic.fillExtArb p x i = true ∧ x.instrPmpErr = true ∧
      (s.ic.fb i).beatOff k = (s.ic.fb i).beatOff (s.ic.fb i).extCnt.toNat) := by
    rintro ⟨ha, -, ho⟩
    have hlt : (s.ic.fb i).extCnt.toNat < 2 :=
      IcacheObs.extCnt_lt_of_fillExtReq hs.route (IcacheObs.fillExtReq_of_fillExtArb ha)
    have := FillBuf.mod_of_beatOff_eq ho
    cases hr : s.ic.fillRvdArb p x i with
    | false =>
        rw [hr, Bool.toNat_false] at hrvd
        omega
    | true =>
        have := hrlt hr
        omega
  obtain hlt | heq := Nat.lt_or_ge k (s.ic.fb i).rvdCnt.toNat
  · rw [← (hd.got k hlt).2, Bool.eq_iff_iff]
    refine hiff.trans ⟨?_, fun he => Or.inr (Or.inr ⟨hb, he⟩)⟩
    rintro (ha | ⟨hr, -, ho⟩ | ⟨-, he⟩)
    · exact absurd ha hno
    · have hlt' : (s.ic.fb i).rvdCnt.toNat < (s.ic.fb i).extCnt.toNat := hrlt hr
      have := FillBuf.mod_of_beatOff_eq ho
      have hlt'' : k < (s.ic.fb i).rvdCnt.toNat := hlt
      omega
    · exact he
  · cases hr : s.ic.fillRvdArb p x i with
    | false =>
        rw [hrvd, hr, Bool.toNat_false] at hk
        omega
    | true =>
        have hk0 : k = (s.ic.fb i).rvdCnt.toNat := by
          rw [hrvd, hr, Bool.toNat_true] at hk
          omega
        have hlt' := hrlt hr
        rw [hk0, ← (answer_of_fillRvdArb hs hok hr).1, Bool.eq_iff_iff, ← hk0]
        refine hiff.trans ⟨?_, fun he => Or.inr (Or.inl ⟨hr, he, by rw [hk0]⟩)⟩
        rintro (ha | ⟨-, he, -⟩ | ⟨-, he⟩)
        · exact absurd ha hno
        · exact he
        · exfalso
          obtain ⟨l, hl, ho⟩ | ⟨hlt, ho⟩ := hf.err _ he
          · have := FillBuf.mod_of_beatOff_eq ho
            have hl' : l < (s.ic.fb i).rvdCnt.toNat := hl
            omega
          · have := FillBuf.mod_of_beatOff_eq ho
            have hlt' : (s.ic.fb i).extCnt.toNat < 2 := hlt
            omega

/-- A word that has been answered is that of the memory. -/
theorem data_of_got (hecc : flips = true → p.icacheECC = true) (hs : s.sys.Inv)
    (hr : ReadOk p flips m s) (hok : EnvOk p flips m s x) (hap : Apart flips m s)
    (hd : FillData m (s.ic.fb i)) (hb : s.ic.busy i = true) {k : ℕ}
    (hk : k < (s.ic.fillNext p x i).rvdCnt.toNat) :
    beatOf ((s.ic.fb i).beatOff k) (s.ic.fillNext p x i).data
      = (m ((s.ic.fb i).addr.extractLsb' 3 29 ++ (s.ic.fb i).beatOff k)).rdata := by
  obtain ⟨-, hrvd, -⟩ := counts_next hs hok hb
  have hans := fun hr => (answer_of_fillRvdArb hs hok (i := i) hr).2
  have hnew := Bool.toNat_le (s.ic.fillRvdArb p x i)
  rw [beatOf_data_next]
  cases hh1 : s.ic.fillHitIc1 i with
  | true =>
      cases he : s.ic.eccErrIc1 p with
      | false => exact (hit_of_fillHitIc1 hecc hr hap hh1 he).2 _
      | true =>
          obtain ⟨-, h0, -⟩ := fresh_of_fillHitIc1 hs hh1
          cases hrv : s.ic.fillRvdArb p x i with
          | false =>
              rw [hrvd, hrv, h0] at hk
              cases hk
          | true =>
              have hk0 : k = (s.ic.fb i).rvdCnt.toNat := by
                rw [hrvd, hrv, h0, Bool.toNat_true] at hk
                omega
              rw [hk0]
              exact hans hrv
  | false =>
      rw [Bool.false_and, if_neg Bool.false_ne_true, Bool.false_or]
      by_cases hrv : s.ic.fillRvdArb p x i = true ∧ (s.ic.fb i).rvdOff = (s.ic.fb i).beatOff k
      · obtain ⟨hrv, ho⟩ := hrv
        rw [← ho, hrv, beq_self_eq_true, if_pos (Bool.and_self true), FillBuf.rvdOff_eq]
        exact hans hrv
      · rw [if_neg (by simpa using hrv)]
        refine (hd.got k ?_).1
        by_contra hge
        have hrv' : s.ic.fillRvdArb p x i = true := by
          by_contra hne
          rw [hrvd, (Bool.not_eq_true _).mp hne] at hk
          exact hge hk
        refine hrv ⟨hrv', ?_⟩
        have hk0 : k = (s.ic.fb i).rvdCnt.toNat := by omega
        rw [hk0, FillBuf.rvdOff_eq]

/-- A line that has come from the cache is that of the memory. -/
theorem hit_next (hecc : flips = true → p.icacheECC = true) (hs : s.sys.Inv)
    (hr : ReadOk p flips m s) (hok : EnvOk p flips m s x) (hap : Apart flips m s)
    (hd : FillData m (s.ic.fb i)) (hb : s.ic.busy i = true)
    (hh : (s.ic.fillNext p x i).hit = true) :
    LineOk m ((s.ic.fb i).addr.extractLsb' 3 29) ∧
      ∀ o, beatOf o (s.ic.fillNext p x i).data
        = (m ((s.ic.fb i).addr.extractLsb' 3 29 ++ o)).rdata := by
  obtain ⟨-, -, hhit, -⟩ := Icache.fillNext_of_busy (p := p) (x := x) hb
  cases hh1 : s.ic.fillHitIc1 i with
  | true =>
      obtain ⟨-, -, hold⟩ := fresh_of_fillHitIc1 hs hh1
      have he : s.ic.eccErrIc1 p = false := by
        rw [hhit, hh1, hold] at hh
        simpa using hh
      obtain ⟨hok', hdata⟩ := hit_of_fillHitIc1 hecc hr hap hh1 he
      refine ⟨hok', fun o => ?_⟩
      rw [beatOf_data_next, hh1, he]
      exact hdata o
  | false =>
      rw [hhit, hh1, Bool.false_and, Bool.false_or] at hh
      obtain ⟨hok', hdata⟩ := hd.hit hh
      refine ⟨hok', fun o => ?_⟩
      rw [beatOf_data_next, hh1, Bool.false_and, if_neg Bool.false_ne_true, Bool.false_or]
      by_cases hrv : s.ic.fillRvdArb p x i = true ∧ (s.ic.fb i).rvdOff = o
      · obtain ⟨hrv, rfl⟩ := hrv
        rw [hrv, beq_self_eq_true, if_pos (Bool.and_self true), FillBuf.rvdOff_eq]
        exact (answer_of_fillRvdArb hs hok hrv).2
      · rw [if_neg (by simpa using hrv)]
        exact hdata o

/-- What a busy buffer has stays the memory's. -/
theorem fillData_of_busy (hecc : flips = true → p.icacheECC = true) (hs : s.sys.Inv)
    (hr : ReadOk p flips m s) (hok : EnvOk p flips m s x) (hap : Apart flips m s)
    (hd : FillData m (s.ic.fb i)) (hb : s.ic.busy i = true) :
    FillData m (s.ic.fillNext p x i) := by
  obtain ⟨-, -, -, -, -, -, herr, haddr, -⟩ := Icache.fillNext_of_busy (p := p) (x := x) hb
  have hoff : ∀ k, (s.ic.fillNext p x i).beatOff k = (s.ic.fb i).beatOff k := by
    intro k
    rw [FillBuf.beatOff, FillBuf.firstOff, haddr, FillBuf.beatOff, FillBuf.firstOff]
  refine ⟨fun o ho => ?_, fun hh => ?_, fun k hk => ?_, fun hlt he => ?_, fun k hk => ?_⟩
  · rw [herr] at ho
    rw [haddr]
    exact errBad_next hs hok hd ho
  · rw [haddr]
    exact hit_next hecc hs hr hok hap hd hb hh
  · rw [haddr, hoff]
    exact asked_next hs hok hd hb hk
  · rw [herr, hoff] at he
    rw [haddr, hoff]
    exact stopped_next hs hok hd hb hlt he
  · rw [haddr, hoff, herr]
    exact ⟨data_of_got hecc hs hr hok hap hd hb hk, err_of_got hs hok hd hb hk⟩

/-- A buffer that is allocated has nothing yet; its first request may have been granted. -/
theorem fillData_of_alloc (hs : s.sys.Inv) (hok : EnvOk p flips m s x)
    (ha : s.ic.fillAlloc p x i = true) : FillData m (s.ic.fillNext p x i) := by
  obtain ⟨-, hhit, hext, -, hrvd, haddr, -, herr⟩ := Icache.fillNext_of_alloc ha
  have hno : s.ic.fillHitIc1 i = false := by
    by_contra hne
    obtain ⟨hb, -⟩ := fresh_of_fillHitIc1 hs ((Bool.not_eq_false _).mp hne)
    rw [Icache.not_busy_of_fillAlloc ha] at hb
    cases hb
  refine ⟨fun o ho => ?_, fun hh => ?_, fun k hk => ?_, fun _ he => ?_, fun k hk => ?_⟩
  · rw [herr] at ho
    cases ho
  · rw [hhit, hno] at hh
    cases hh
  · have hl : s.ic.lookupGrantIc0 p x = true := by
      simp only [Icache.fillAlloc, Bool.and_eq_true] at ha
      exact ha.2
    have hspec : s.ic.fillSpecDone p x = true ∧ k = 0 := by
      rw [hext, BitVec.toNat_append, BitVec.toNat_ofBool] at hk
      cases hsp : s.ic.fillSpecDone p x with
      | false =>
          rw [hsp] at hk
          cases hk
      | true =>
          rw [hsp] at hk
          exact ⟨rfl, Nat.lt_one_iff.mp hk⟩
    obtain ⟨hsp, rfl⟩ := hspec
    simp only [Icache.fillSpecDone, Icache.specReq, Icache.gntNotPmpErr, Bool.and_eq_true,
      Bool.not_eq_true'] at hsp
    obtain ⟨⟨hsp, hany⟩, -, hpmp⟩ := hsp
    have hreq : s.ic.instrReq p x = true := by rw [Icache.instrReq, hsp, hl]; rfl
    have hword : (s.ic.fillNext p x i).addr.extractLsb' 3 29 ++ (s.ic.fillNext p x i).beatOff 0
        = s.ic.instrAddr p x := by
      have hfirst : (s.ic.fillNext p x i).beatOff 0 = (s.ic.fillNext p x i).firstOff :=
        BitVec.add_zero _
      rw [Icache.instrAddr, hany, if_neg Bool.false_ne_true, hfirst, FillBuf.firstOff, haddr]
      exact BitVec.extractLsb'_append_extractLsb'_eq_extractLsb' rfl
    rw [hword, ← hok.pmp hreq]
    exact hpmp
  · rw [herr] at he
    cases he
  · rw [hrvd] at hk
    cases hk

/-- What any buffer has stays the memory's, whether it goes on or is allocated. -/
theorem fillData_next (hecc : flips = true → p.icacheECC = true) (hi : Inv p flips m s)
    (hok : EnvOk p flips m s x) (hap : Apart flips m s) (i : Fin 4)
    (hb' : (s.ic.next p x).busy i = true) : FillData m (s.ic.fillNext p x i) := by
  cases hb : s.ic.busy i with
  | true => exact fillData_of_busy hecc hi.sys hi.read hok hap (hi.data i hb) hb
  | false =>
      refine fillData_of_alloc hi.sys hok ?_
      rw [Icache.busy_next, hb] at hb'
      simpa using hb'

/-! ### The output -/

/-- **The word at the output is the memory's.** -/
theorem output_eq (hecc : flips = true → p.icacheECC = true) (hi : Inv p flips m s)
    (hok : EnvOk p flips m s x) (hap : Apart flips m s) (hstep : s.sys.outOfStep = false)
    (hd : s.ic.dataValid p x = true) :
    s.ic.outputErr p x = (m (IcacheSys.expWord s.ic)).bad ∧
      ((m (IcacheSys.expWord s.ic)).pmpErr = false →
        s.ic.outputData p x = (m (IcacheSys.expWord s.ic)).rdata) := by
  rw [Icache.dataValid, Bool.and_eq_true, Bool.not_eq_true'] at hd
  obtain ⟨i, harb⟩ := anyOf_iff.mp hd.1
  have hwait : arb s.ic.outWaits s.ic.older i = true := IcacheObs.outWaits_of_fillOutArb harb
  have hb : s.ic.busy i = true := IcacheSys.busy_of_fillOutArb harb
  have hfd := hi.data i hb
  have hf : (s.ic.fb i).Ok := hi.sys.ok i hb
  have hoff : s.ic.lineOff = (s.ic.fb i).outOff :=
    IcacheSys.lineOff_eq_outOff hi.sys hstep hwait
  have hexp : IcacheSys.expWord s.ic = (s.ic.fb i).nextWord :=
    IcacheSys.expWord_eq_nextWord hi.sys hstep hwait
  obtain ⟨hod, hoe⟩ := IcacheSys.output_eq (p := p) (x := x) hi.sys hwait
  obtain ⟨hdr, hdg⟩ := IcacheSys.source_of_fillOutArb (s := s.sys) harb
  obtain ⟨-, -, hrle, hele, hrlt⟩ := counts_next hi.sys hok hb
  have hbeat := FillBuf.toNat_rvdBeat (s.ic.fb i) (by omega)
  -- a line without an error
  have hclean : LineOk m ((s.ic.fb i).addr.extractLsb' 3 29) → ∀ o,
      (s.ic.fb i).err o = false := by
    intro hl o
    by_contra hne
    have := hfd.errBad o ((Bool.not_eq_false _).mp hne)
    rw [hl o] at this
    cases this
  rw [hexp, FillBuf.nextWord]
  cases hrvd : s.ic.fillDataRvd p x i with
  | true =>
      -- the word comes from the bus
      rw [hrvd, if_pos rfl] at hod hoe
      rw [hrvd, eq_comm, Bool.and_eq_true, Bool.and_eq_true, beq_iff_eq] at hdr
      obtain ⟨herr, hdata⟩ := answer_of_fillRvdArb hi.sys hok hdr.1.1
      have hpmp := hfd.asked _ (hrlt hdr.1.1)
      rw [← FillBuf.rvdOff_eq, FillBuf.rvdOff, hdr.2] at herr hdata hpmp
      rw [hod, hoe, herr, hdata, FetchWord.bad, FillBuf.outOff, hpmp, Bool.or_false]
      exact ⟨rfl, fun _ => rfl⟩
  | false =>
      rw [hrvd, if_neg Bool.false_ne_true, hoff] at hod hoe
      cases hh1 : s.ic.fillHitIc1 i with
      | true =>
          obtain ⟨hl, hdata⟩ := hit_of_fillHitIc1 hecc hi.read hap hh1 hd.2
          rw [hh1, if_pos rfl] at hod
          rw [hh1] at hoe
          exact ⟨hoe.trans (hl _).symm, fun _ => hod.trans (hdata _)⟩
      | false =>
          rw [hh1, if_neg Bool.false_ne_true] at hod
          rw [hh1, Bool.not_false, Bool.true_and] at hoe
          cases hh : (s.ic.fb i).hit with
          | true =>
              obtain ⟨hl, hdata⟩ := hfd.hit hh
              rw [hdg, hh, Bool.or_true, Bool.true_or, if_pos rfl] at hod
              rw [hclean hl, Bool.and_false] at hoe
              exact ⟨hoe.trans (hl _).symm, fun _ => hod.trans (hdata _)⟩
          | false =>
              have hreq : s.ic.fillOutReq p x i = true := by
                rw [Icache.fillOutArb, Bool.and_eq_true] at harb
                exact harb.1
              obtain hlt | ⟨heq, hr | ⟨hre, hlt, he⟩⟩ :=
                IcacheSys.out_of_fillOutReq hi.sys hok.sys hb hreq hh hh1
              · obtain ⟨k, hk⟩ : ∃ k, (s.ic.fb i).outCnt.toNat = (s.ic.fb i).firstOff.toNat + k :=
                  Nat.exists_eq_add_of_le hf.first_le
                have hlt : (s.ic.fb i).outCnt.toNat
                    < (s.ic.fb i).firstOff.toNat + (s.ic.fb i).rvdCnt.toNat := hlt
                have hlt' : (s.ic.fb i).outCnt < (s.ic.fb i).rvdBeat := by
                  rwa [BitVec.lt_def, hbeat]
                obtain ⟨hdata, herr⟩ := hfd.got k (by omega)
                have hpmp := hfd.asked k (by omega)
                rw [hdg, decide_eq_true hlt', Bool.true_or, Bool.true_or, if_pos rfl] at hod
                rw [hdg, decide_eq_true hlt', Bool.true_or, Bool.true_or, Bool.true_and] at hoe
                rw [hoe, hod, FillBuf.outOff_eq hk, herr, hdata, FetchWord.bad, hpmp,
                  Bool.or_false]
                exact ⟨rfl, fun _ => rfl⟩
              · have hbo : (s.ic.fb i).rvdBeat = (s.ic.fb i).outCnt :=
                  BitVec.eq_of_toNat_eq (by rw [hbeat, heq])
                rw [hrvd, hr, hh, hbo] at hdr
                simp at hdr
              · -- the word has been stopped by the PMP
                have hlt : (s.ic.fb i).extCnt.toNat < 2 := hlt
                have hre : (s.ic.fb i).rvdCnt.toNat = (s.ic.fb i).extCnt.toNat := hre
                have hoo : (s.ic.fb i).outOff = (s.ic.fb i).beatOff (s.ic.fb i).extCnt.toNat := by
                  rw [← hre]
                  exact FillBuf.outOff_eq heq
                rw [FillBuf.extOff_eq, ← hoo] at he
                have hpmp := hfd.stopped hlt (by rwa [← hoo])
                rw [← hoo] at hpmp
                rw [hoe, hdg, IcacheSys.anyErr_of_err he, he, FetchWord.bad, hpmp, Bool.or_true,
                  Bool.or_true]
                exact ⟨rfl, fun h => absurd h (by decide)⟩

/-! ### One step -/

/-- Without a branch the output address goes on by the length of what is accepted, and the skid
buffer keeps the half word that is left over. -/
theorem output_next (hb : x.branch = false) :
    (s.ic.next p x).outputAddr = (if x.ready && s.ic.valid p x then
      s.ic.outputAddr + (if s.ic.outputCompressed p x then 1#31 else 2#31)
      else s.ic.outputAddr) ∧
    (s.ic.next p x).skidValid = (if s.ic.skidValid then !(x.ready && s.ic.outputCompressed p x)
      else (unaligned s.ic.outputAddr ^^ s.ic.outputCompressed p x) && s.ic.dataValid p x
        && x.ready) := IcacheSys.output_next hb

/-- What makes the output valid, with and without a half word in the skid buffer. -/
theorem valid_eq : s.ic.valid p x =
    if s.ic.skidValid then s.ic.outputCompressed p x || s.ic.dataValid p x
    else s.ic.dataValid p x && (!unaligned s.ic.outputAddr || s.ic.outputErr p x
      || s.ic.outputCompressed p x) := IcacheSys.valid_eq

/-- The skid buffer has a whole instruction where what is in it is compressed. -/
theorem skidCompleteInstr_eq :
    s.ic.skidCompleteInstr = (s.ic.skidValid && s.ic.outputCompressed p x) :=
  IcacheSys.skidCompleteInstr_eq

/-- What is at the output without a skid buffer is the word of the address, and behind one the
next word. -/
theorem expWord_eq : IcacheSys.expWord s.ic
    = wordOf s.ic.outputAddr + if s.ic.skidValid then 1#30 else 0#30 := rfl

/-- The error of the output while a word is valid. -/
theorem err_of_dataValid (hk : s.ic.skidValid = true → s.ic.skidErr = false)
    (hc : s.ic.skidCompleteInstr = false) : (s.ic.out p x).err = s.ic.outputErr p x := by
  have hse : (s.ic.skidValid && s.ic.skidErr) = false := by
    cases hs : s.ic.skidValid with
    | false => rfl
    | true => rw [hk hs, Bool.and_false]
  rw [Icache.out, hse, hc]
  rfl

/-- The upper half of a word goes to the skid buffer, unless an error is accepted. -/
theorem skid_next (hecc : flips = true → p.icacheECC = true) (hi : Inv p flips m s)
    (hok : EnvOk p flips m s x) (hap : Apart flips m s) (hst : InStep m s)
    (hb : x.branch = false)
    (hno : (s.ic.valid p x && x.ready && (s.ic.out p x).err) = false)
    (hv : (s.ic.next p x).skidValid = true) : SkidOk m (s.next p x) := by
  obtain ⟨haddr, hskid⟩ := output_next (s := s) (p := p) hb
  have hvalid := valid_eq (s := s) (p := p) (x := x)
  have hcomplete := skidCompleteInstr_eq (s := s) (p := p) (x := x)
  have hout := output_eq (x := x) hecc hi hok hap hst.outOfStep
  have herr := err_of_dataValid (p := p) (x := x) (s := s) fun hs => (hst.skid hs).err
  have hdata : (s.next p x).ic.skidData = if s.ic.dataValid p x && x.ready
      then halfOf true (s.ic.outputData p x) else s.ic.skidData := rfl
  have hserr : (s.next p x).ic.skidErr = if s.ic.dataValid p x && x.ready
      then s.ic.outputErr p x else s.ic.skidErr := rfl
  have haddr' : (s.next p x).ic.outputAddr = _ := haddr
  rw [hskid] at hv
  cases hs : s.ic.skidValid with
  | true =>
      rw [hs, if_pos rfl] at hv hvalid
      have hu : unaligned s.ic.outputAddr = true := hi.sys.skid hs
      have hold := hst.skid hs
      cases hr : x.ready with
      | false =>
          refine ⟨?_, ?_, ?_⟩
          · rw [hdata, haddr', hr, Bool.and_false]
            exact hold.data
          · rw [hserr, hr, Bool.and_false]
            exact hold.err
          · rw [haddr', hr]
            exact hold.good
      | true =>
          have hc : s.ic.outputCompressed p x = false := by simpa [hr] using hv
          rw [hc, Bool.false_or] at hvalid
          cases hd : s.ic.dataValid p x with
          | false =>
              rw [hd] at hvalid
              refine ⟨?_, ?_, ?_⟩
              · rw [hdata, haddr', hr, hd, hvalid]
                exact hold.data
              · rw [hserr, hd]
                exact hold.err
              · rw [haddr', hr, hvalid]
                exact hold.good
          | true =>
              obtain ⟨hoe, hod⟩ := hout hd
              rw [hc, Bool.and_false] at hcomplete
              rw [hvalid, hd, hr, herr hcomplete, hoe] at hno
              have hbad : (m (IcacheSys.expWord s.ic)).bad = false := hno
              have hpmp : (m (IcacheSys.expWord s.ic)).pmpErr = false := by
                rw [FetchWord.bad, Bool.or_eq_false_iff] at hbad
                exact hbad.2
              have hword : wordOf (s.next p x).ic.outputAddr = IcacheSys.expWord s.ic := by
                rw [haddr', hr, hvalid, hd, hc, expWord_eq, hs]
                exact wordOf_add_two _
              refine ⟨?_, ?_, ?_⟩
              · rw [hdata, hd, hr, FetchMem.half, hword, ← hod hpmp, haddr', hr, hvalid, hd, hc]
                simp [IcacheSys.unaligned_add_two, hu]
              · rw [hserr, hd, hr, hoe]
                exact hbad
              · rw [hword]
                exact hbad
  | false =>
      rw [hs, if_neg Bool.false_ne_true] at hv hvalid
      rw [Bool.and_eq_true, Bool.and_eq_true] at hv
      obtain ⟨⟨hx, hd⟩, hr⟩ := hv
      obtain ⟨hoe, hod⟩ := hout hd
      rw [hs, Bool.false_and] at hcomplete
      rw [hd, Bool.true_and] at hvalid
      rw [hr, herr hcomplete, Bool.and_true] at hno
      have hbad : s.ic.outputErr p x = false := by
        by_contra hne
        rw [hvalid, (Bool.not_eq_false _).mp hne] at hno
        simp at hno
      rw [hbad, Bool.or_false] at hvalid
      have hexp : IcacheSys.expWord s.ic = wordOf s.ic.outputAddr := by
        rw [expWord_eq, hs]
        exact BitVec.add_zero _
      rw [hexp] at hoe hod
      have hpmp : (m (wordOf s.ic.outputAddr)).pmpErr = false := by
        rw [hbad, eq_comm, FetchWord.bad, Bool.or_eq_false_iff] at hoe
        exact hoe.2
      -- the address goes on to the upper half of the word, or is there
      have hnext : unaligned (s.next p x).ic.outputAddr = true ∧
          wordOf (s.next p x).ic.outputAddr = wordOf s.ic.outputAddr := by
        rw [haddr', hr, hvalid]
        cases hu : unaligned s.ic.outputAddr with
        | true =>
            have hc : s.ic.outputCompressed p x = false := by simpa [hu] using hx
            simp [hc, hu]
        | false =>
            have hc : s.ic.outputCompressed p x = true := by simpa [hu] using hx
            simp [hc, hu, unaligned_add_one, wordOf_add_one_of_aligned hu]
      refine ⟨?_, ?_, ?_⟩
      · rw [hdata, hd, hr, FetchMem.half, hnext.1, hnext.2, ← hod hpmp]
        rfl
      · rw [hserr, hd, hr]
        exact hbad
      · rw [hnext.2, ← hoe]
        exact hbad

/-- The low half word at the output. -/
theorem rdataLo_eq (hecc : flips = true → p.icacheECC = true) (hi : Inv p flips m s)
    (hok : EnvOk p flips m s x) (hap : Apart flips m s) (hst : InStep m s)
    (hv : s.ic.valid p x = true) (hgood : (m (wordOf s.ic.outputAddr)).bad = false) :
    s.ic.rdataLo p x = m.half s.ic.outputAddr := by
  rw [Icache.rdataLo]
  cases hs : s.ic.skidValid with
  | true => exact (hst.skid hs).data
  | false =>
      have hd : s.ic.dataValid p x = true := by
        rw [valid_eq, hs, if_neg Bool.false_ne_true, Bool.and_eq_true] at hv
        exact hv.1
      obtain ⟨-, hod⟩ := output_eq hecc hi hok hap hst.outOfStep hd
      have hexp : IcacheSys.expWord s.ic = wordOf s.ic.outputAddr := by
        rw [expWord_eq, hs]
        exact BitVec.add_zero _
      rw [FetchWord.bad, Bool.or_eq_false_iff] at hgood
      rw [hexp] at hod
      rw [if_neg Bool.false_ne_true, Icache.outputDataLo, hod hgood.2]
      rfl

/-- What the core is shown of the instruction at `a`: its errors, and its bytes if there is
none. `errPlus2` only counts with `err`. -/
structure Shows (m : FetchMem) (a : BitVec 31) (o : FetchOut) : Prop where
  addr : o.addr = a ++ 0#1
  err : o.err = m.instrErr a
  errPlus2 : o.err = true → o.errPlus2 = m.instrErrPlus2 a
  low : o.err = false → o.rdata.extractLsb' 0 16 = m.half a
  high : o.err = false → m.compressed a = false →
    o.rdata.extractLsb' 16 16 = m.half (a + 1#31)

/-- The instruction whose first half word is in the skid buffer. -/
theorem shows_of_skid (hecc : flips = true → p.icacheECC = true) (hi : Inv p flips m s)
    (hok : EnvOk p flips m s x) (hap : Apart flips m s) (hst : InStep m s)
    (hv : s.ic.valid p x = true) (hs : s.ic.skidValid = true) :
    Shows m s.ic.outputAddr (s.ic.out p x) := by
  have hold := hst.skid hs
  have hu : unaligned s.ic.outputAddr = true := hi.sys.skid hs
  have hlo : s.ic.rdataLo p x = m.half s.ic.outputAddr := by
    rw [Icache.rdataLo, hs, if_pos rfl]
    exact hold.data
  have hc : s.ic.outputCompressed p x = m.compressed s.ic.outputAddr := by
    rw [Icache.outputCompressed, hlo]
    rfl
  have hcomplete := skidCompleteInstr_eq (s := s) (p := p) (x := x)
  have hlow : (s.ic.out p x).rdata.extractLsb' 0 16 = m.half s.ic.outputAddr := by
    rw [← hlo]
    exact BitVec.extractLsb'_append_eq_right
  rw [valid_eq, hs, if_pos rfl, hc] at hv
  rw [hs, hc, Bool.true_and] at hcomplete
  cases hcm : m.compressed s.ic.outputAddr with
  | true =>
      have herr : (s.ic.out p x).err = false := by
        rw [Icache.out, hcomplete, hcm, hold.err, Bool.and_false]
        rfl
      refine ⟨rfl, ?_, fun he => ?_, fun _ => hlow, fun _ h => ?_⟩
      · rw [herr, FetchMem.instrErr, FetchMem.crosses, hold.good, hcm, Bool.not_true,
          Bool.and_false]
        rfl
      · rw [herr] at he
        cases he
      · rw [hcm] at h
        cases h
  | false =>
      rw [hcm, Bool.false_or] at hv
      rw [hcm] at hcomplete
      obtain ⟨hoe, hod⟩ := output_eq hecc hi hok hap hst.outOfStep hv
      have hexp : IcacheSys.expWord s.ic = wordOf s.ic.outputAddr + 1#30 := by
        rw [expWord_eq, hs, if_pos rfl]
      rw [hexp] at hoe hod
      have herr : (s.ic.out p x).err = (m (wordOf s.ic.outputAddr + 1#30)).bad := by
        rw [err_of_dataValid (fun _ => hold.err) hcomplete, hoe]
      have hcross : m.crosses s.ic.outputAddr = true := by rw [FetchMem.crosses, hu, hcm]; rfl
      refine ⟨rfl, ?_, fun he => ?_, fun _ => hlow, fun he _ => ?_⟩
      · rw [herr, FetchMem.instrErr, hold.good, hcross, Bool.false_or, Bool.true_and]
      · rw [herr] at he
        rw [FetchMem.instrErrPlus2, hold.good, hcross, he, Icache.out, hs, hold.err]
        rfl
      · have hhigh : (s.ic.out p x).rdata.extractLsb' 16 16 = s.ic.outputDataHi p x :=
          BitVec.extractLsb'_append_eq_left
        rw [herr, FetchWord.bad, Bool.or_eq_false_iff] at he
        rw [hhigh, Icache.outputDataHi, hod he.2, FetchMem.half, unaligned_add_one,
          wordOf_add_one_of_unaligned hu]

/-- An instruction that begins in the word at the output. -/
theorem shows_of_word (hecc : flips = true → p.icacheECC = true) (hi : Inv p flips m s)
    (hok : EnvOk p flips m s x) (hap : Apart flips m s) (hst : InStep m s)
    (hv : s.ic.valid p x = true) (hs : s.ic.skidValid = false) :
    Shows m s.ic.outputAddr (s.ic.out p x) := by
  have hlo := rdataLo_eq hecc hi hok hap hst hv
  have hcomplete := skidCompleteInstr_eq (s := s) (p := p) (x := x)
  rw [hs, Bool.false_and] at hcomplete
  rw [valid_eq, hs, if_neg Bool.false_ne_true, Bool.and_eq_true] at hv
  obtain ⟨hoe, hod⟩ := output_eq hecc hi hok hap hst.outOfStep hv.1
  have hexp : IcacheSys.expWord s.ic = wordOf s.ic.outputAddr := by
    rw [expWord_eq, hs]
    exact BitVec.add_zero _
  rw [hexp] at hoe hod
  have herr : (s.ic.out p x).err = (m (wordOf s.ic.outputAddr)).bad := by
    rw [err_of_dataValid (fun h => by rw [hs] at h; cases h) hcomplete, hoe]
  have hp2 : (s.ic.out p x).errPlus2 = false := by rw [Icache.out, hs]; rfl
  -- without an error an unaligned instruction is compressed
  have hcross : (m (wordOf s.ic.outputAddr)).bad = false → m.crosses s.ic.outputAddr = false := by
    intro hgood
    rw [FetchMem.crosses]
    cases hu : unaligned s.ic.outputAddr with
    | false => rfl
    | true =>
        have hc : s.ic.outputCompressed p x = true := by
          have h := hv.2
          rw [hu, hoe, hgood] at h
          simpa using h
        rw [Icache.outputCompressed, hlo hgood] at hc
        rw [FetchMem.compressed, hc]
        rfl
  refine ⟨rfl, ?_, fun he => ?_, fun he => ?_, fun he hc => ?_⟩
  · rw [herr, FetchMem.instrErr]
    cases hgood : (m (wordOf s.ic.outputAddr)).bad with
    | true => rfl
    | false => rw [hcross hgood]; rfl
  · rw [herr] at he
    rw [hp2, FetchMem.instrErrPlus2, he]
    rfl
  · rw [herr] at he
    rw [← hlo he]
    exact BitVec.extractLsb'_append_eq_right
  · rw [herr] at he
    have hu : unaligned s.ic.outputAddr = false := by
      have h := hcross he
      rw [FetchMem.crosses, hc] at h
      simpa using h
    have hhigh : (s.ic.out p x).rdata.extractLsb' 16 16 = s.ic.outputDataHi p x :=
      BitVec.extractLsb'_append_eq_left
    rw [FetchWord.bad, Bool.or_eq_false_iff] at he
    rw [hhigh, Icache.outputDataHi, hod he.2, FetchMem.half, unaligned_add_one,
      wordOf_add_one_of_aligned hu]

/-- What is valid at the output is shown as the memory has it. -/
theorem shows_of_valid (hecc : flips = true → p.icacheECC = true) (hi : Inv p flips m s)
    (hok : EnvOk p flips m s x) (hap : Apart flips m s) (hst : InStep m s)
    (hv : s.ic.valid p x = true) : Shows m s.ic.outputAddr (s.ic.out p x) := by
  cases hs : s.ic.skidValid with
  | true => exact shows_of_skid hecc hi hok hap hst hv hs
  | false => exact shows_of_word hecc hi hok hap hst hv hs

/-- A branch starts the parse anew. -/
theorem inStep_of_branch (hb : x.branch = true) : InStep m (s.next p x) where
  outOfStep := by simp [next, IcacheSys.next, hb]
  skid := fun hv => by
    have hno : (s.next p x).ic.skidValid = false := by
      change s.ic.skidValidD p x = false
      rw [Icache.skidValidD, hb, if_pos rfl]
    rw [hno] at hv
    cases hv
  parsed := fun _ => by
    have haddr : (s.next p x).ic.outputAddr = x.addr.extractLsb' 1 31 := by
      change (if x.branch || (x.ready && s.ic.valid p x) then s.ic.outputAddrD p x
        else s.ic.outputAddr) = _
      rw [hb, Bool.true_or, if_pos rfl, Icache.outputAddrD, hb, if_pos rfl]
    rw [haddr]
    simp [next, hb]

/-- The output keeps step with the parse until an error has been accepted. -/
theorem inStep_next (hecc : flips = true → p.icacheECC = true) (hi : Inv p flips m s)
    (hok : EnvOk p flips m s x) (hap : Apart flips m s)
    (hf : (s.next p x).sys.failed = false) : InStep m (s.next p x) := by
  cases hb : x.branch with
  | true => exact inStep_of_branch hb
  | false =>
      have hfail : s.sys.failed = false ∧
          (s.ic.valid p x && x.ready && (s.ic.out p x).err) = false := by
        have h : (!x.branch && (s.sys.failed || (s.ic.valid p x && x.ready
            && (s.ic.out p x).err))) = false := hf
        rw [hb, Bool.not_false, Bool.true_and, Bool.or_eq_false_iff] at h
        exact h
      obtain ⟨hfail, hno⟩ := hfail
      have hst := hi.step hfail
      refine ⟨?_, skid_next hecc hi hok hap hst hb hno, fun hbr => ?_⟩
      · have hslip : s.sys.slips p x = false := by
          by_contra hne
          simp only [IcacheSys.slips, Bool.not_eq_false, Bool.and_eq_true,
            Bool.not_eq_true'] at hne
          obtain ⟨⟨⟨⟨⟨hr, hd⟩, hs⟩, -⟩, he⟩, -⟩ := hne
          have hcomplete : s.ic.skidCompleteInstr = false := by
            rw [skidCompleteInstr_eq (p := p) (x := x), hs, Bool.false_and]
          have hout := err_of_dataValid (p := p) (x := x) (s := s)
            (fun h => by rw [hs] at h; cases h) hcomplete
          rw [valid_eq, hs, if_neg Bool.false_ne_true, hd, hr, hout, he] at hno
          simp at hno
        have h : (s.next p x).sys.outOfStep
            = (!x.branch && (s.sys.outOfStep || s.sys.slips p x)) := rfl
        rw [h, hst.outOfStep, hslip, Bool.or_false, Bool.and_false]
      · have hbr' : s.sys.branched = true := by
          have h : (s.next p x).sys.branched = (s.sys.branched || x.branch) := rfl
          rwa [h, hb, Bool.or_false] at hbr
        have haddr : (s.next p x).ic.outputAddr = _ := (output_next (s := s) (p := p) hb).1
        have htarget : (s.next p x).target = s.target := by simp [next, hb]
        have hcount : (s.next p x).accepted
            = if x.ready && s.ic.valid p x then s.accepted + 1 else s.accepted := by
          simp [next, hb]
        rw [haddr, htarget, hcount]
        cases ha : x.ready && s.ic.valid p x with
        | false => exact hst.parsed hbr'
        | true =>
            rw [Bool.and_eq_true] at ha
            have hsh := shows_of_valid hecc hi hok hap hst ha.2
            have herr : (s.ic.out p x).err = false := by
              rwa [ha.1, ha.2, Bool.true_and, Bool.true_and] at hno
            have hgood : (m (wordOf s.ic.outputAddr)).bad = false := by
              have h := hsh.err.symm.trans herr
              rw [FetchMem.instrErr, Bool.or_eq_false_iff] at h
              exact h.1
            rw [if_pos rfl, if_pos rfl, Function.iterate_succ_apply', ← hst.parsed hbr',
              Icache.outputCompressed, rdataLo_eq hecc hi hok hap hst ha.2 hgood]
            rfl

/-- **Step lemma.** -/
theorem inv_next (hecc : flips = true → p.icacheECC = true) (hi : Inv p flips m s)
    (hok : EnvOk p flips m s x) (hfst : FirstUnlooked p s x) (hap : Apart flips m s) :
    Inv p flips m (s.next p x) where
  sys := IcacheSys.inv_next hi.sys hok.sys
  ram := ram_next hi.sys hi.ram hi.data hfst
  read := read_next hi.ram hok hfst
  data := fillData_next hecc hi hok hap
  step := inStep_next hecc hi hok hap

/-- Nothing has been read, requested or accepted at the start. -/
theorem inv_start (h : Start s) : Inv p flips m s where
  sys := IcacheSys.inv_start h.sys
  ram :=
    { tag := fun w k c hc => by
        rw [h.tagWritten] at hc
        cases hc
      ahead := fun _ => ⟨h.sys.obs.ic.invalProg, h.sys.obs.ic.lookupValidIc1⟩
      filled := fun hd => by
        rw [ic, h.sys.obs.ic.resetInval] at hd
        cases hd }
  read := fun hv => by
    rw [ic, h.sys.obs.ic.lookupValidIc1] at hv
    cases hv
  data := fun i hb => by
    rw [ic, h.sys.obs.ic.busy] at hb
    cases hb
  step := fun _ =>
    { outOfStep := h.sys.outOfStep
      skid := fun hv => by
        rw [ic, h.sys.obs.ic.skidValid] at hv
        cases hv
      parsed := fun hbr => by
        rw [h.sys.branched] at hbr
        cases hbr }

/-! ### Bits that flip -/

/-- Every word is the one that has been written, or that with certain bits flipped. -/
def Within {n : ℕ} (flips : Fin 2 → BitVec 8 → BitVec n)
    (written : Fin 2 → BitVec 8 → Option (BitVec n)) (mem : Fin 2 → BitVec 8 → BitVec n) : Prop :=
  ∀ w k, ∀ c ∈ written w k, mem w k = c ∨ mem w k = c ^^^ flips w k

section Within

variable {n : ℕ} {flips f : Fin 2 → BitVec 8 → BitVec n}
  {written : Fin 2 → BitVec 8 → Option (BitVec n)} {mem : Fin 2 → BitVec 8 → BitVec n}

/-- Flipping the same bits once more leaves the word or turns it back. -/
theorem within_flip (h : Within flips written mem)
    (hf : ∀ w k, f w k = 0#n ∨ f w k = flips w k) :
    Within flips written fun w k => mem w k ^^^ f w k := by
  intro w k c hc
  dsimp only
  obtain hz | hz := hf w k <;> obtain hm | hm := h w k c hc <;> rw [hz, hm]
  · exact Or.inl BitVec.xor_zero
  · exact Or.inr BitVec.xor_zero
  · exact Or.inr rfl
  · exact Or.inl (by rw [BitVec.xor_assoc, BitVec.xor_self, BitVec.xor_zero])

/-- A word that is written is what has been written. -/
theorem within_write (h : Within flips written mem) (en : Fin 2 → BitVec 8 → Bool)
    (d : BitVec n) : Within flips (fun w k => if en w k then some d else written w k)
      fun w k => if en w k then d else mem w k := by
  intro w k c hc
  dsimp only at hc ⊢
  cases he : en w k with
  | false =>
      rw [he, if_neg Bool.false_ne_true] at hc
      exact h w k c hc
  | true =>
      rw [he, if_pos rfl, Option.mem_def, Option.some.injEq] at hc
      exact Or.inl hc

/-- A word in which certain bits flip is away from what has been written by these bits. -/
theorem atMostTwo_of_within (h : Within flips written mem)
    (hf : ∀ w k, Secded.AtMostTwo (flips w k)) (w : Fin 2) (k : BitVec 8) :
    ∀ c ∈ written w k, Secded.AtMostTwo (mem w k ^^^ c) := by
  intro c hc
  obtain h | h := h w k c hc
  · rw [h, BitVec.xor_self]
    exact Secded.atMostTwo_zero
  · rw [h, BitVec.xor_comm c, BitVec.xor_assoc, BitVec.xor_self, BitVec.xor_zero]
    exact hf w k

end Within

/-- Only certain bits flip in a cycle, all those of a word or none. -/
def Slips (f : Fin 2 → BitVec 8 → BitVec 28) (g : Fin 2 → BitVec 8 → BitVec 72) (x : IcacheIn) :
    Prop :=
  (∀ w k, x.tagFlip w k = 0#28 ∨ x.tagFlip w k = f w k) ∧
    ∀ w k, x.dataFlip w k = 0#72 ∨ x.dataFlip w k = g w k

/-- A run in which only certain bits flip. -/
theorem along_slips {f : Fin 2 → BitVec 8 → BitVec 28} {g : Fin 2 → BitVec 8 → BitVec 72}
    (hf : ∀ w k, Secded.AtMostTwo (f w k)) (hg : ∀ w k, Secded.AtMostTwo (g w k))
    {ins : List IcacheIn} (hins : ∀ x ∈ ins, Slips f g x)
    (hsys : Machine.Along (IcacheSys.next p) (IcacheSys.AnswersOk p m) s.sys ins)
    (ht : Within f s.tagWritten s.ic.tagRam) (hd : Within g s.dataWritten s.ic.dataRam) :
    Machine.Along (next p) (EnvOk p true m) s ins := by
  induction ins generalizing s with
  | nil => trivial
  | cons x ins ih =>
      obtain ⟨hxt, hxd⟩ := hins x List.mem_cons_self
      have hmt : Within f s.tagWritten (s.ic.tagMem x) := within_flip ht hxt
      have hmd : Within g s.dataWritten (s.ic.dataMem x) := within_flip hd hxd
      exact ⟨⟨hsys.1, atMostTwo_of_within hmt hf, atMostTwo_of_within hmd hg⟩,
        ih (s := s.next p x) (fun y hy => hins y (List.mem_cons_of_mem x hy)) hsys.2
          (within_write hmt (s.writesTag p x) _) (within_write hmd (s.writesData p x) _)⟩

/-! ### Runs -/

/-- What the core is served. While it has not accepted an error since the branch, it is shown
the instruction at which the parse has arrived. A lookup that has read a tag that is no code
word, or a line that is none, shows nothing in this cycle and is no hit of its buffer, which
then takes its words from the bus. -/
structure Served (p : IcacheParams) (m : FetchMem) (s : IcacheMem) (x : IcacheIn) : Prop where
  shown : s.sys.failed = false → s.sys.branched = true → s.ic.valid p x = true →
    Shows m (m.parseStep^[s.accepted] s.target) (s.ic.out p x)
  cancelled : p.icacheECC = true → s.ic.lookupValidIc1 = true →
    (∃ w, ∀ t : BitVec 22, s.ic.tagRdataIc1 w ≠ Secded.enc 6 secded2822 t) ∨
      (∀ d : BitVec 64, s.ic.hitDataIc1 ≠ Secded.enc 8 secded7264 d) →
    s.ic.dataValid p x = false ∧
      ∀ i, s.ic.fillInIc1 i = true → (s.ic.fillNext p x i).hit = false

/-- A line with an error is no code word. -/
theorem not_enc_of_dataErr {s : Icache} (h : s.dataErrIc1 = true) (d : BitVec 64) :
    s.hitDataIc1 ≠ Secded.enc 8 secded7264 d := by
  intro hd
  have herr : Secded.err 64 8 secded7264 (Secded.enc 8 secded7264 d) = 0#2 :=
    Secded.err_eq_zero_iff.mpr (detects_secded7264.syndrome_enc d)
  rw [Icache.dataErrIc1, hd, herr] at h
  cases h

/-- A word that is no code word cancels the lookup. -/
theorem cancelled (hecc : p.icacheECC = true) (hi : s.sys.Inv)
    (hv : s.ic.lookupValidIc1 = true)
    (hbad : (∃ w, ∀ t : BitVec 22, s.ic.tagRdataIc1 w ≠ Secded.enc 6 secded2822 t) ∨
      (∀ d : BitVec 64, s.ic.hitDataIc1 ≠ Secded.enc 8 secded7264 d)) :
    s.ic.dataValid p x = false ∧
      ∀ i, s.ic.fillInIc1 i = true → (s.ic.fillNext p x i).hit = false := by
  have he : s.ic.eccErrIc1 p = true := by
    rw [Icache.eccErrIc1, hecc, hv, Bool.true_and, Bool.true_and, Bool.or_eq_true]
    obtain ⟨w, hw⟩ | hd := hbad
    · refine Or.inr (anyOf_of (i := w) ?_)
      rw [Icache.tagErrIc1, bne_iff_ne]
      exact fun h => hw _ (detects_secded2822.eq_enc (Secded.err_eq_zero_iff.mp h))
    · refine Or.inl ?_
      rw [Icache.dataErrIc1, bne_iff_ne]
      exact fun h => hd _ (detects_secded7264.eq_enc (Secded.err_eq_zero_iff.mp h))
  refine ⟨by rw [Icache.dataValid, he, Bool.not_true, Bool.and_false], fun i hin => ?_⟩
  obtain ⟨pre, k, heq, hiff, hf⟩ := hi.fresh hv
  obtain rfl := (hiff i).mp hin
  have hb : s.ic.busy i = true := (hi.route.aged.mem i).mp (by simp [heq])
  have hnot : (s.ic.fb i).hit = false := hf.hit
  obtain ⟨-, -, hhit, -⟩ := Icache.fillNext_of_busy (p := p) (x := x) hb
  rw [hhit, he, hnot, Bool.not_true, Bool.and_false]
  rfl

/-- Once the reset has been seen, every cycle may look up. -/
theorem along_of_resetInval (hdone : s.ic.resetInval = true) (ins : List IcacheIn) :
    Machine.Along (next p) (FirstUnlooked p) s ins := by
  induction ins generalizing s with
  | nil => trivial
  | cons y ins ih =>
      refine ⟨fun hf => ?_, ih rfl⟩
      rw [hdone] at hf
      cases hf

/-- Only the first cycle of a run is bound. -/
theorem along_firstUnlooked {ins : List IcacheIn}
    (h : ∀ y ∈ ins.head?, s.ic.lookupActualIc0 p y = false) :
    Machine.Along (next p) (FirstUnlooked p) s ins := by
  cases ins with
  | nil => trivial
  | cons y ins => exact ⟨fun _ => h y rfl, along_of_resetInval rfl ins⟩

/-! ### The first invalidation -/

/-- The cache at its reset, with RAMs that are zero. -/
def blank : IcacheMem where
  sys := IcacheSys.quiet false false 0#8
  tagWritten := fun _ _ => none
  dataWritten := fun _ _ => none
  target := 0#31
  accepted := 0

/-- The blank cache is one of those after a reset. -/
theorem start_blank : Start blank := ⟨IcacheSys.start_quiet, fun _ _ => rfl, fun _ _ => rfl⟩

/-- The cache runs on its own, whatever is remembered of its writes. -/
theorem sys_run (s : IcacheMem) (ins : List IcacheIn) :
    (Machine.run (next p) s ins).sys = Machine.run (IcacheSys.next p) s.sys ins := by
  simpa using Machine.run_map IcacheMem.sys id (fun _ _ => rfl) s ins

/-- The cycles of the first invalidation. -/
def settle : List IcacheIn := List.replicate 257 .idle

/-- The first invalidation clears the tags. -/
theorem run_settle : Machine.run (IcacheSys.next IcacheSys.eccOn) blank.sys settle
    = IcacheSys.quiet true false 255#8 := IcacheSys.run_reset

/-- The cache after the first invalidation and some more cycles. -/
theorem sys_settled (ins : List IcacheIn) :
    (Machine.run (next IcacheSys.eccOn) blank (settle ++ ins)).sys
      = Machine.run (IcacheSys.next IcacheSys.eccOn) (IcacheSys.quiet true false 255#8) ins := by
  rw [sys_run, Machine.run_append, run_settle]

/-- The cycle after the reset looks nothing up. -/
theorem first_settle (l l' : List IcacheIn) : ∀ y ∈ (settle ++ l ++ l').head?,
    blank.ic.lookupActualIc0 IcacheSys.eccOn y = false := by
  rintro y ⟨⟩
  rfl

/-- A contract of a run is that of the first invalidation and of what follows it. -/
theorem along_settle {ok : IcacheSys → IcacheIn → Prop} {ins : List IcacheIn}
    (h0 : Machine.Along (IcacheSys.next IcacheSys.eccOn) ok blank.sys settle)
    (h : Machine.Along (IcacheSys.next IcacheSys.eccOn) ok (IcacheSys.quiet true false 255#8) ins) :
    Machine.Along (IcacheSys.next IcacheSys.eccOn) ok blank.sys (settle ++ ins) := by
  rw [Machine.along_append, run_settle]
  exact ⟨h0, h⟩

/-- During the first invalidation nothing is asked for. -/
theorem answersOk_settle (hm : ∀ a, (m a).pmpErr = false) :
    Machine.Along (IcacheSys.next IcacheSys.eccOn) (IcacheSys.AnswersOk IcacheSys.eccOn m)
      blank.sys settle :=
  Machine.along_replicate (fun _ => True)
    (fun s _ => ⟨⟨IcacheSys.envOk_idle _ s, fun h => (by cases h), fun _ => (hm _).symm⟩, trivial⟩)
    trivial 257

/-! ### A line in one way -/

/-- Every word is its own address, as an instruction of full length. -/
def addrMem : FetchMem := fun a => ⟨a ++ 0b11#2, false, false⟩

/-- At most one way matches the lookup. -/
def OneWay (s : IcacheSys) : Prop :=
  s.ic.lookupValidIc1 = true → ¬ ∀ w, s.ic.tagMatchIc1 w = true

/-- The ways are looked at one after the other. -/
instance (s : IcacheSys) : Decidable (OneWay s) :=
  haveI := Nat.decidableForallFin fun w => s.ic.tagMatchIc1 w = true
  inferInstanceAs (Decidable (_ → _))

/-- During the first invalidation nothing is looked up. -/
theorem oneWay_settle :
    Machine.Along (IcacheSys.next IcacheSys.eccOn) (fun s _ => OneWay s) blank.sys settle := by
  refine Machine.along_replicate (fun s => s.ic.lookupValidIc1 = false)
    (fun s hs => ⟨fun h => ?_, ?_⟩) rfl 257
  · rw [hs] at h
    cases h
  · change s.ic.lookupActualIc0 IcacheSys.eccOn .idle = false
    simp [Icache.lookupActualIc0, IcacheIn.idle]

/-- Lines that are in one way only are never put together. -/
theorem along_apart {ins : List IcacheIn}
    (h : Machine.Along (IcacheSys.next p) (fun s _ => OneWay s) s.sys ins) :
    Machine.Along (next p) (fun s _ => Apart flips m s) s ins :=
  Machine.along_of_map IcacheMem.sys (fun _ _ => rfl)
    (fun _ _ hone _ hv hboth => absurd hboth (hone hv)) h

/-- One bit of the line at index 0 in way 0. -/
def lineSlip (w : Fin 2) (k : BitVec 8) : BitVec 72 :=
  if firstWay w && k == 0#8 then 1#72 else 0#72

/-- A line is looked up, answered by the bus and written to the RAMs; the same branch then looks
it up again, with the bus busy. -/
def fillThenHit : List IcacheIn :=
  [IcacheSys.branchIn,
    { IcacheIn.idle with
      instrGnt := true
      instrRvalid := true
      instrRdata := 0x1003#32
      icacheEnable := true },
    { IcacheIn.idle with
      instrRvalid := true
      instrRdata := 0x1007#32
      icacheEnable := true },
    { IcacheIn.idle with icacheEnable := true },
    { IcacheSys.branchIn with instrGnt := false }]

/-- The branch once more; a bit of the line flips ahead of its lookup. -/
def slipIn : IcacheIn :=
  { IcacheSys.branchIn with
    instrGnt := false
    dataFlip := lineSlip }

/-- The cache after it has been looked up the second time. -/
def hitState : IcacheMem := Machine.run (next IcacheSys.eccOn) blank (settle ++ fillThenHit)

/-- The cache after the lookup of the flipped word. -/
def slipState : IcacheMem := hitState.next IcacheSys.eccOn slipIn

/-! ### A line in both ways -/

/-- A memory of zeros. -/
def zeroMem : FetchMem := fun _ => ⟨0#32, false, false⟩

/-- The tag of way 0 that is read shows a valid line. -/
def tagSlip (w : Fin 2) (k : BitVec 8) : BitVec 28 :=
  if firstWay w && k == 0#8 then 0x200000#28 else 0#28

/-- Two bits of the line in each way: together they are those of a code word. -/
def dataSlip (w : Fin 2) (k : BitVec 8) : BitVec 72 :=
  if k = 0#8 then (if firstWay w then 0x3#72 else 0xC0000000000000000#72) else 0#72

/-- A line is looked up twice, with a flip in the second lookup, which then takes the other
way; both are answered and written to the RAMs, and a third lookup hits both. -/
def bothWays : List IcacheIn :=
  [IcacheSys.branchIn,
    { IcacheSys.branchIn with
      instrRvalid := true
      tagFlip := tagSlip },
    { IcacheIn.idle with
      instrGnt := true
      instrRvalid := true },
    { IcacheIn.idle with
      instrGnt := true
      instrRvalid := true },
    { IcacheIn.idle with instrRvalid := true }, .idle,
    { IcacheSys.branchIn with dataFlip := dataSlip }]

/-- The flips of the tag and of the two lines are all that flips. -/
theorem slips_bothWays : ∀ x ∈ settle ++ (bothWays ++ [.idle]), Slips tagSlip dataSlip x := by
  intro x hx
  simp only [settle, bothWays, List.cons_append, List.nil_append, List.mem_append,
    List.mem_replicate, List.mem_cons, List.not_mem_nil, or_false] at hx
  rcases hx with ⟨-, rfl⟩ | rfl | rfl | rfl | rfl | rfl | rfl | rfl | rfl
  case inr.inr.inl => exact ⟨fun _ _ => Or.inr rfl, fun _ _ => Or.inl rfl⟩
  case inr.inr.inr.inr.inr.inr.inr.inl => exact ⟨fun _ _ => Or.inl rfl, fun _ _ => Or.inr rfl⟩
  all_goals exact ⟨fun _ _ => Or.inl rfl, fun _ _ => Or.inl rfl⟩

/-- A line that is in both ways is delivered with two wrong bits: the two flips in each way are
no error of the two lines together. -/
theorem memory_missed : ∃ m s₀ ins x, Start s₀ ∧
    Machine.Along (next IcacheSys.eccOn) (EnvOk IcacheSys.eccOn true m) s₀ (ins ++ [x]) ∧
    (∀ y ∈ (ins ++ [x]).head?, s₀.ic.lookupActualIc0 IcacheSys.eccOn y = false) ∧
    ¬ Served IcacheSys.eccOn m (Machine.run (next IcacheSys.eccOn) s₀ ins) x := by
  refine ⟨zeroMem, blank, settle ++ bothWays, .idle, start_blank, ?_, ?_, ?_⟩
  · rw [List.append_assoc]
    refine along_slips (fun w k => ?_) (fun w k => ?_) slips_bothWays
      (along_settle (answersOk_settle fun _ => rfl) (by decide +kernel)) (fun _ _ _ h => by cases h)
      (fun _ _ _ h => by cases h)
    · rw [tagSlip]
      split <;> decide
    · rw [dataSlip]
      split
      · split <;> decide +kernel
      · exact Secded.atMostTwo_zero
  · exact first_settle _ _
  · intro h
    have hzero : ∀ a, zeroMem.half a = 0#16 := by
      intro a
      rw [FetchMem.half, halfOf]
      split
      · exact (by decide : (0#32).extractLsb' 16 16 = 0#16)
      · exact (by decide : (0#32).extractLsb' 0 16 = 0#16)
    have hshown := h.shown
    rw [ic, sys_settled] at hshown
    have hlow := (hshown (by decide +kernel) (by decide +kernel) (by decide +kernel)).low
      (by decide +kernel)
    rw [hzero] at hlow
    revert hlow
    decide +kernel

/-! ### A line of before the reset -/

/-- The cache without ECC. -/
def eccOff : IcacheParams := { IcacheSys.eccOn with icacheECC := false }

/-- At the reset way 0 still has the tag of the line at 0x1000, with zero words. -/
def stale : IcacheMem :=
  { blank with
    sys :=
      { blank.sys with
        obs :=
          { blank.sys.obs with
            ic :=
              { blank.ic with
                tagRam := fun w k => if firstWay w && k == 0#8 then 0x200002#28 else 0#28 } } } }

/-- A reset may leave anything in the RAMs, this line too. -/
theorem start_stale : Start stale where
  sys :=
    { start_blank.sys with
      obs :=
        { start_blank.sys.obs with
          ic := { start_blank.sys.obs.ic with } } }
  tagWritten := fun _ _ => rfl
  dataWritten := fun _ _ => rfl

/-- A lookup in the first cycle after the reset hits a line of before it: the invalidation has
not begun, and no check of the code words is made. -/
theorem memory_missed_first : ∃ m s₀ ins x, Start s₀ ∧
    Machine.Along (next eccOff) (EnvOk eccOff false m) s₀ (ins ++ [x]) ∧
    ¬ Served eccOff m (Machine.run (next eccOff) s₀ ins) x := by
  refine ⟨addrMem, stale, [IcacheSys.branchIn], .idle, start_stale, ?_, ?_⟩
  · have hwrite : stale.ic.tagWriteIc0 eccOff IcacheSys.branchIn = false := by decide +kernel
    obtain ⟨htag, hdata⟩ := written_of_not_write hwrite
    refine ⟨⟨by decide +kernel, fun _ _ _ h => (by cases h), fun _ _ _ h => (by cases h)⟩,
      ⟨by decide +kernel, fun w k c hc => ?_, fun w k c hc => ?_⟩, trivial⟩
    · rw [htag] at hc
      cases hc
    · rw [hdata] at hc
      cases hc
  · intro h
    have hlow := (h.shown (by decide +kernel) (by decide +kernel) (by decide +kernel)).low
      (by decide +kernel)
    revert hlow
    decide +kernel

end IcacheMem

end CocoIbex
