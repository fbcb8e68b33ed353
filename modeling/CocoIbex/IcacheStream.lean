import CocoIbex.IcacheRoute

/-!
# The Words That the Fill Buffers Deliver

Beside the requests a fill buffer counts the words that it has delivered. It delivers a word
when it has it, be it from the RAMs, from the bus or as an error (`FillBuf.Ok`), and the buffers
that still have words to deliver are those of consecutive lines (`LineRow`), from the word that
the output waits for on.

A lookup is made for the line behind the one of the last lookup, until a branch starts a new
row; the buffers of the old row are marked as stale and deliver nothing any more. So the list of
the waiting buffers is a row whenever it is not empty, and a cycle takes its first buffer off
when that has delivered its last word, and puts a new one at its end (`waiting_next`).

The data of the words are not looked at here. Which word it is that a buffer has at its output
depends on its counters alone.

## Main results

* `waiting_next` — the buffers that wait after a cycle;
* `waiting_of_arb` and `outWaits_of_fillOutArb` — the one at the output is the oldest of them;
* `out_of_fillOutReq` — what a buffer with a word at its output has.
-/

namespace CocoIbex

open OneHot

/-! ### Rows of lines -/

/-- The first word of the line behind that of a word. -/
def lineAfter (w : BitVec 30) : BitVec 30 := (w.extractLsb' 1 29 + 1#29) ++ 0#1

/-- The first word is `w`, and every further one is the first word of the next line. -/
def LineRow : BitVec 30 → List (BitVec 30) → Prop
  | _, [] => True
  | w, u :: l => u = w ∧ LineRow (lineAfter w) l

/-- A row of words by lines goes on with the word after its last one. -/
theorem lineRow_append {w u : BitVec 30} {l : List (BitVec 30)} (h : LineRow w (l ++ [u])) :
    LineRow w (l ++ [u, lineAfter u]) := by
  induction l generalizing w with
  | nil => exact ⟨h.1, by rw [h.1], trivial⟩
  | cons a l ih => exact ⟨h.1, ih h.2⟩

/-- The word after a line is the first one of the next line. -/
theorem lineAfter_toNat (w : BitVec 30) : (lineAfter w).toNat = (w.toNat / 2 + 1) % 2 ^ 29 * 2 := by
  have := w.isLt
  rw [lineAfter, BitVec.toNat_append, BitVec.toNat_add, BitVec.extractLsb'_toNat,
    Nat.shiftRight_eq_div_pow, Nat.shiftLeft_eq]
  simp only [BitVec.toNat_ofNat, Nat.zero_mod, Nat.or_zero]
  omega

/-- Behind the last word of a line the next line begins. -/
theorem lineAfter_of_last {w : BitVec 30} (h : w.getLsbD 0 = true) : lineAfter w = w + 1#30 := by
  have := w.isLt
  rw [BitVec.getLsbD, Nat.testBit_zero, decide_eq_true_eq] at h
  apply BitVec.eq_of_toNat_eq
  rw [lineAfter_toNat, BitVec.toNat_add, BitVec.toNat_ofNat]
  omega

/-- The second word of a line is in the same line. -/
theorem lineAfter_add_one {w : BitVec 30} (h : w.getLsbD 0 = false) :
    lineAfter (w + 1#30) = lineAfter w := by
  have := w.isLt
  rw [BitVec.getLsbD, Nat.testBit_zero, decide_eq_false_iff_not] at h
  apply BitVec.eq_of_toNat_eq
  rw [lineAfter_toNat, lineAfter_toNat, BitVec.toNat_add, BitVec.toNat_ofNat]
  omega

/-- The first word of a line is used up. -/
theorem lineRow_first {w u : BitVec 30} {l : List (BitVec 30)} (h : LineRow w (u :: l))
    (hu : u.getLsbD 0 = false) : LineRow (w + 1#30) ((u + 1#30) :: l) := by
  obtain ⟨rfl, hl⟩ := h
  exact ⟨rfl, by rwa [lineAfter_add_one hu]⟩

/-- The second word of a line is used up. -/
theorem lineRow_last {w u : BitVec 30} {l : List (BitVec 30)} (h : LineRow w (u :: l))
    (hu : u.getLsbD 0 = true) : LineRow (w + 1#30) l := by
  obtain ⟨rfl, hl⟩ := h
  rwa [lineAfter_of_last hu] at hl

/-! ### What a fill buffer has delivered -/

namespace FillBuf

/-- The word that a fill buffer delivers next. -/
def nextWord (b : FillBuf) : BitVec 30 := b.addr.extractLsb' 3 29 ++ b.outOff

/-- The words that a fill buffer has delivered are words that it has, unless it has hit in the
cache. An error belongs to a word that has come with it or to the one that the PMP has stopped,
behind which nothing is requested. -/
structure Ok (b : FillBuf) : Prop where
  first_le : b.firstOff.toNat ≤ b.outCnt.toNat
  out_le : b.outCnt.toNat ≤ 2
  err : ∀ o, b.err o = true → (∃ k < b.rvdCnt.toNat, o = b.beatOff k) ∨
    (b.extCnt.toNat < 2 ∧ o = b.beatOff b.extCnt.toNat)
  hold : b.extHold = true → b.err b.extOff = false
  out : b.hit = false → b.outCnt.toNat ≤ b.firstOff.toNat + b.rvdCnt.toNat ∨
    (b.rvdCnt.toNat = b.extCnt.toNat ∧ b.extCnt.toNat < 2 ∧
      b.outCnt.toNat = b.firstOff.toNat + b.extCnt.toNat + 1 ∧ b.err b.extOff = true)

variable {b : FillBuf}

/-- Beats at one offset. -/
theorem mod_of_beatOff_eq {k l : ℕ} (h : b.beatOff k = b.beatOff l) : k % 2 = l % 2 := by
  have := congrArg BitVec.toNat h
  rw [toNat_beatOff, toNat_beatOff] at this
  omega

/-- The beat that is at the output. -/
theorem outOff_eq {k : ℕ} (h : b.outCnt.toNat = b.firstOff.toNat + k) : b.outOff = b.beatOff k := by
  apply BitVec.eq_of_toNat_eq
  rw [toNat_outOff, toNat_beatOff, h]

/-- A buffer is done with the output after its two words. -/
theorem outDone_iff (h : b.outCnt.toNat ≤ 2) : b.outDone = decide (b.outCnt.toNat = 2) := by
  rw [outDone, cnt_bit h]

end FillBuf

namespace IcacheObs

variable {p : IcacheParams} {s : IcacheObs} {x : IcacheIn} {i j : Fin 4}

/-- A buffer that delivers a word was not done. -/
theorem outDone_of_fillOutGrant (h : s.ic.fillOutGrant p x i = true) :
    (s.ic.fb i).outDone = false := by
  simp only [Icache.fillOutGrant, Icache.fillOutArb, Icache.fillOutReq, Bool.and_eq_true,
    Bool.not_eq_true'] at h
  exact h.1.1.1.1.2

/-- The delivered words of a busy buffer. -/
theorem outCnt_of_busy (hb : s.ic.busy i = true) (h : (s.ic.fb i).outCnt.toNat ≤ 2) :
    (s.ic.fillNext p x i).outCnt.toNat
      = (s.ic.fb i).outCnt.toNat + (s.ic.fillOutGrant p x i).toNat ∧
    (s.ic.fb i).outCnt.toNat + (s.ic.fillOutGrant p x i).toNat ≤ 2 := by
  obtain ⟨-, -, -, -, -, -, -, -, hout⟩ := Icache.fillNext_of_busy (p := p) (x := x) hb
  have hle : (s.ic.fb i).outCnt.toNat + (s.ic.fillOutGrant p x i).toNat ≤ 2 := by
    cases hg : s.ic.fillOutGrant p x i with
    | false => simpa using h
    | true =>
        have hd := outDone_of_fillOutGrant hg
        rw [FillBuf.outDone_iff h, decide_eq_false_iff_not] at hd
        simp only [Bool.toNat_true]
        omega
  rw [hout, cnt_add hle]
  exact ⟨rfl, hle⟩

/-- A buffer whose next word is an error makes no request. -/
theorem fillExtArb_of_err (hf : (s.ic.fb i).Ok) (h : (s.ic.fb i).err (s.ic.fb i).extOff = true) :
    s.ic.fillExtArb p x i = false := by
  have hh : (s.ic.fb i).extHold = false := by
    by_contra hne
    rw [hf.hold ((Bool.not_eq_false _).mp hne)] at h
    cases h
  simp [Icache.fillExtArb, arb, Icache.fillExtReq, Icache.fillExtDone, h, hh]

/-- The errors of a busy buffer. -/
theorem fillErrD_iff (i : Fin 4) (o : BitVec 1) : s.ic.fillErrD p x i o = true ↔
    (s.ic.fillExtArb p x i = true ∧ x.instrPmpErr = true ∧
      o = (s.ic.fb i).beatOff (s.ic.fb i).extCnt.toNat) ∨
    (s.ic.fillRvdArb p x i = true ∧ x.instrErr = true ∧
      o = (s.ic.fb i).beatOff (s.ic.fb i).rvdCnt.toNat) ∨
    (s.ic.busy i = true ∧ (s.ic.fb i).err o = true) := by
  rw [← FillBuf.extOff_eq, ← FillBuf.rvdOff_eq]
  simp only [Icache.fillErrD, Bool.or_eq_true, Bool.and_eq_true, beq_iff_eq, or_assoc, and_assoc,
    eq_comm (a := o)]

/-- What a buffer with a word at its output has. -/
theorem out_of_fillOutReq (hi : Inv s) (hok : EnvOk s x) (hf : (s.ic.fb i).Ok)
    (h : s.ic.fillOutReq p x i = true) (hh : (s.ic.fb i).hit = false)
    (hh1 : s.ic.fillHitIc1 i = false) :
    (s.ic.fb i).outCnt.toNat < (s.ic.fb i).firstOff.toNat + (s.ic.fb i).rvdCnt.toNat ∨
    ((s.ic.fb i).outCnt.toNat = (s.ic.fb i).firstOff.toNat + (s.ic.fb i).rvdCnt.toNat ∧
      (s.ic.fillRvdArb p x i = true ∨
        (s.ic.fb i).rvdCnt.toNat = (s.ic.fb i).extCnt.toNat ∧ (s.ic.fb i).extCnt.toNat < 2 ∧
        (s.ic.fb i).err (s.ic.fb i).extOff = true)) := by
  have hc := hi.counts i
  have h1 := hc.rvd_le
  have h2 := hc.ext_le
  have hf1 := hf.first_le
  have hf2 := hf.out_le
  have hbeat := FillBuf.toNat_rvdBeat (s.ic.fb i) (by omega)
  have hfl : (s.ic.fb i).firstOff.toNat < 2 := (s.ic.fb i).firstOff.isLt
  simp only [Icache.fillOutReq, hh, hh1, FillBuf.outDone_iff hf2, Bool.false_or, Bool.and_eq_true,
    Bool.not_eq_true', Bool.or_eq_true, decide_eq_true_eq, decide_eq_false_iff_not,
    BitVec.lt_def, hbeat] at h
  obtain ⟨⟨-, hnd⟩, ⟨he | hlt⟩ | hrv⟩ := h
  · -- the word at the output is an error
    obtain hle | ⟨heq, hlt, hout, herr⟩ := hf.out hh
    · obtain hlt | heq := Nat.lt_or_eq_of_le hle
      · exact Or.inl hlt
      · refine Or.inr ⟨heq, Or.inr ?_⟩
        have hoff : (s.ic.fb i).outCnt.setWidth 1 = (s.ic.fb i).beatOff (s.ic.fb i).rvdCnt.toNat :=
          FillBuf.outOff_eq heq
        obtain ⟨k, hk, hko⟩ | ⟨hlt, hko⟩ := hf.err _ he
        · have := FillBuf.mod_of_beatOff_eq (hoff.symm.trans hko)
          omega
        · have := FillBuf.mod_of_beatOff_eq (hoff.symm.trans hko)
          refine ⟨by omega, hlt, ?_⟩
          rwa [FillBuf.extOff_eq, ← hko]
    · exfalso
      have hoff : (s.ic.fb i).outCnt.setWidth 1
          = (s.ic.fb i).beatOff ((s.ic.fb i).extCnt.toNat + 1) :=
        FillBuf.outOff_eq (by omega)
      obtain ⟨k, hk, hko⟩ | ⟨-, hko⟩ := hf.err _ he
      · have := FillBuf.mod_of_beatOff_eq (hoff.symm.trans hko)
        omega
      · have := FillBuf.mod_of_beatOff_eq (hoff.symm.trans hko)
        omega
  · exact Or.inl hlt
  · have hrlt := rvdCnt_lt_of_fillRvdArb hi hok hrv
    obtain hle | ⟨heq, -⟩ := hf.out hh
    · obtain hlt | heq := Nat.lt_or_eq_of_le hle
      · exact Or.inl hlt
      · exact Or.inr ⟨heq, Or.inl hrv⟩
    · omega

/-- A delivered word of a buffer that has not hit. -/
theorem out_next (hi : Inv s) (hok : EnvOk s x) (hf : (s.ic.fb i).Ok) (hb : s.ic.busy i = true)
    (hh : (s.ic.fillNext p x i).hit = false) :
    (s.ic.fillNext p x i).outCnt.toNat
        ≤ (s.ic.fb i).firstOff.toNat + (s.ic.fillNext p x i).rvdCnt.toNat ∨
      ((s.ic.fillNext p x i).rvdCnt.toNat = (s.ic.fb i).extCnt.toNat ∧
        (s.ic.fb i).extCnt.toNat < 2 ∧
        (s.ic.fillNext p x i).outCnt.toNat
          = (s.ic.fb i).firstOff.toNat + (s.ic.fb i).extCnt.toNat + 1 ∧
        (s.ic.fb i).err (s.ic.fb i).extOff = true) := by
  obtain ⟨-, -, hhit, -⟩ := Icache.fillNext_of_busy (p := p) (x := x) hb
  obtain ⟨-, hrvd, -, -⟩ := counts_of_busy (p := p) hi hok hb
  obtain ⟨hout, -⟩ := outCnt_of_busy (p := p) (x := x) hb hf.out_le
  rw [hhit, Bool.or_eq_false_iff] at hh
  rw [hout, hrvd]
  cases hg : s.ic.fillOutGrant p x i with
  | false =>
      obtain hle | ⟨heq, hlt, ho, he⟩ := hf.out hh.2
      · exact Or.inl (by simp only [Bool.toNat_false]; omega)
      · have hno : s.ic.fillRvdArb p x i = false := by
          by_contra hne
          have := rvdCnt_lt_of_fillRvdArb hi hok ((Bool.not_eq_false _).mp hne)
          omega
        simp only [hno, Bool.toNat_false]
        exact Or.inr ⟨heq, hlt, ho, he⟩
  | true =>
      simp only [Icache.fillOutGrant, Icache.fillOutArb, Bool.and_eq_true,
        Bool.not_eq_true'] at hg
      have hh1 : s.ic.fillHitIc1 i = false := by simpa [hg.2] using hh.1
      obtain hlt | ⟨heq, hrv | ⟨hre, hlt, he⟩⟩ := out_of_fillOutReq hi hok hf hg.1.1.1 hh.2 hh1
      · exact Or.inl (by simp only [Bool.toNat_true]; omega)
      · exact Or.inl (by simp only [hrv, Bool.toNat_true]; omega)
      · have hno : s.ic.fillRvdArb p x i = false := by
          by_contra hne
          have := rvdCnt_lt_of_fillRvdArb hi hok ((Bool.not_eq_false _).mp hne)
          omega
        simp only [hno, Bool.toNat_false, Bool.toNat_true]
        exact Or.inr ⟨by omega, hlt, by omega, he⟩

/-- The counters of a busy buffer keep to their order. -/
theorem ok_of_busy (hi : Inv s) (hok : EnvOk s x) (hf : (s.ic.fb i).Ok)
    (hb : s.ic.busy i = true) : (s.ic.fillNext p x i).Ok := by
  obtain ⟨-, -, hhit, -, hhold, -, herr, haddr, -⟩ :=
    Icache.fillNext_of_busy (p := p) (x := x) hb
  obtain ⟨hext, hrvd, hrle, hele⟩ := counts_of_busy (p := p) hi hok hb
  obtain ⟨hout, hole⟩ := outCnt_of_busy (p := p) (x := x) hb hf.out_le
  have hfirst : (s.ic.fillNext p x i).firstOff = (s.ic.fb i).firstOff := by
    rw [FillBuf.firstOff, haddr, FillBuf.firstOff]
  have hbeat : ∀ k, (s.ic.fillNext p x i).beatOff k = (s.ic.fb i).beatOff k := by
    intro k
    rw [FillBuf.beatOff, hfirst, FillBuf.beatOff]
  -- while the next word is an error nothing is requested
  have hstay : (s.ic.fb i).err (s.ic.fb i).extOff = true →
      (s.ic.fillNext p x i).extCnt.toNat = (s.ic.fb i).extCnt.toNat := by
    intro he
    rw [hext, fillExtArb_of_err hf he]
    rfl
  have hfl := hf.first_le
  refine ⟨?_, ?_, fun o ho => ?_, fun hh => ?_, fun hh => ?_⟩
  · rw [hfirst, hout]
    omega
  · rw [hout]
    exact hole
  · rw [herr, fillErrD_iff] at ho
    simp only [hbeat]
    obtain ⟨ha, hp, rfl⟩ | ⟨hr, -, rfl⟩ | ⟨-, ho⟩ := ho
    · have hlt := extCnt_lt_of_fillExtReq hi (fillExtReq_of_fillExtArb ha)
      have heq : (s.ic.fillNext p x i).extCnt.toNat = (s.ic.fb i).extCnt.toNat := by
        rw [hext, Icache.gntNotPmpErr, hp]
        simp
      exact Or.inr ⟨by omega, by rw [heq]⟩
    · exact Or.inl ⟨_, by rw [hrvd, hr]; exact Nat.lt_succ_self _, rfl⟩
    · obtain ⟨k, hk, rfl⟩ | ⟨hlt, rfl⟩ := hf.err o ho
      · exact Or.inl ⟨k, by omega, rfl⟩
      · rw [hstay (by rwa [FillBuf.extOff_eq])]
        exact Or.inr ⟨hlt, rfl⟩
  · rw [hhold, Bool.and_eq_true, Bool.not_eq_true', Icache.gntOrPmpErr,
      Bool.or_eq_false_iff] at hh
    have hreq := fillExtReq_of_fillExtArb hh.1
    have hlt := extCnt_lt_of_fillExtReq hi hreq
    have hno : (s.ic.fb i).err (s.ic.fb i).extOff = false := by
      by_contra hne
      rw [fillExtArb_of_err hf ((Bool.not_eq_false _).mp hne)] at hh
      cases hh.1
    have heq : (s.ic.fillNext p x i).extCnt.toNat = (s.ic.fb i).extCnt.toNat := by
      rw [hext, Icache.gntNotPmpErr, hh.2.1]
      simp
    rw [herr, FillBuf.extOff_eq, hbeat, heq, ← Bool.not_eq_true, fillErrD_iff]
    rintro (⟨-, hp, -⟩ | ⟨hr, -, ho⟩ | ⟨-, ho⟩)
    · rw [hh.2.2] at hp
      cases hp
    · have hrlt := rvdCnt_lt_of_fillRvdArb hi hok hr
      have := FillBuf.mod_of_beatOff_eq ho
      omega
    · rw [← FillBuf.extOff_eq, hno] at ho
      cases ho
  · obtain hle | ⟨heq, hlt, ho, he⟩ := out_next hi hok hf hb hh
    · rw [hfirst]
      exact Or.inl hle
    · have hst := hstay he
      rw [hfirst, hst, FillBuf.extOff_eq, hbeat, hst, herr, fillErrD_iff,
        ← FillBuf.extOff_eq]
      exact Or.inr ⟨heq, hlt, ho, Or.inr (Or.inr ⟨hb, he⟩)⟩

/-- The counters of a new buffer do so too. -/
theorem ok_of_alloc (ha : s.ic.fillAlloc p x i = true) : (s.ic.fillNext p x i).Ok := by
  obtain ⟨-, -, -, -, -, -, hout, herr⟩ := Icache.fillNext_of_alloc ha
  have hn : (s.ic.fillNext p x i).outCnt.toNat = (s.ic.fillNext p x i).firstOff.toNat := by
    rw [hout, BitVec.toNat_append]
    simp
  have hlt : (s.ic.fillNext p x i).firstOff.toNat < 2 := (s.ic.fillNext p x i).firstOff.isLt
  refine ⟨by omega, by omega, fun o ho => ?_, fun _ => ?_, fun _ => Or.inl (by omega)⟩
  · rw [herr] at ho
    cases ho
  · rw [herr]

/-! ### The buffers that have words to deliver -/

/-- The words that are still to be delivered, by the buffers that have them. -/
def waiting (s : Icache) (order : List (Fin 4)) : List (BitVec 30) :=
  (order.filter s.outWaits).map fun i => (s.fb i).nextWord

/-- The buffer at the output is the oldest of those that wait for it. -/
theorem outWaits_of_fillOutArb (h : s.ic.fillOutArb p x i = true) :
    arb s.ic.outWaits s.ic.older i = true := by
  simp only [Icache.fillOutArb, Icache.fillOutReq, Bool.and_eq_true, Bool.not_eq_true'] at h
  obtain ⟨⟨⟨⟨hb, hs⟩, hd⟩, -⟩, hsel⟩ := h
  rw [arb, Icache.outWaits, hb, hs, hd]
  exact hsel

/-- Only a busy buffer waits for the output. -/
theorem busy_of_outWaits (h : s.ic.outWaits i = true) : s.ic.busy i = true := by
  simp only [Icache.outWaits, Bool.and_eq_true] at h
  exact h.1.1

/-- The first buffer with words to deliver. -/
theorem waiting_of_arb (hi : Inv s) (h : arb s.ic.outWaits s.ic.older i = true) :
    ∃ pre post, s.order = pre ++ i :: post ∧ s.ic.outWaits i = true ∧
      pre.filter s.ic.outWaits = [] := by
  obtain ⟨pre, post, heq, hw, hpre⟩ := (hi.aged.arb_iff fun _ => busy_of_outWaits).mp h
  refine ⟨pre, post, heq, hw, List.filter_eq_nil_iff.mpr fun j hj => ?_⟩
  simp [hpre j hj]

/-- A buffer goes on waiting until its last word is delivered. -/
theorem outWaits_next (hb : s.ic.busy i = true) (hf : (s.ic.fb i).outCnt.toNat ≤ 2)
    (hbr : x.branch = false) : (s.ic.next p x).outWaits i =
      (s.ic.outWaits i && !(s.ic.fillOutGrant p x i && (s.ic.fb i).outCnt == 1#2)) := by
  obtain ⟨hst, -⟩ := Icache.fillNext_of_busy (p := p) (x := x) hb
  obtain ⟨hout, hole⟩ := outCnt_of_busy (p := p) (x := x) hb hf
  have hdone' : (s.ic.fillNext p x i).outDone
      = decide ((s.ic.fb i).outCnt.toNat + (s.ic.fillOutGrant p x i).toNat = 2) := by
    rw [FillBuf.outDone_iff (by omega), hout]
  have hone : ((s.ic.fb i).outCnt == 1#2) = decide ((s.ic.fb i).outCnt.toNat = 1) := by
    rw [Bool.eq_iff_iff, beq_iff_eq, decide_eq_true_eq, ← BitVec.toNat_inj]
    rfl
  simp only [Icache.outWaits, Icache.busy_next, Icache.fillAlloc_of_busy hb, hb, Icache.next_fb,
    hst, hbr, hdone', hone, FillBuf.outDone_iff hf, Icache.fillDone, Bool.or_false,
    Bool.false_or, Bool.true_and]
  cases (s.ic.fb i).stale with
  | true => simp
  | false =>
      cases hg : s.ic.fillOutGrant p x i with
      | false =>
          by_cases h2 : (s.ic.fb i).outCnt.toNat = 2 <;> simp [h2]
      | true =>
          have hd := outDone_of_fillOutGrant hg
          rw [FillBuf.outDone_iff hf] at hd
          rw [hd]
          by_cases h1 : (s.ic.fb i).outCnt.toNat = 1
          · simp [h1]
          · have hne : (s.ic.fb i).outCnt.toNat + 1 ≠ 2 := by omega
            simp [h1]

/-- A new buffer has words to deliver, the first one at the address of the lookup. -/
theorem outWaits_of_alloc (ha : s.ic.fillAlloc p x i = true) :
    (s.ic.next p x).outWaits i = true ∧
      (s.ic.fillNext p x i).nextWord = wordOfAddr (s.ic.lookupAddrIc0 x) := by
  obtain ⟨hst, -, -, -, -, haddr, hout, -⟩ := Icache.fillNext_of_alloc ha
  have hb : (s.ic.next p x).busy i = true := by rw [Icache.busy_next, ha]; rfl
  have hdone : ∀ o : BitVec 1, (0#1 ++ o : BitVec 2).getLsbD 1 = false ∧
      (0#1 ++ o : BitVec 2).setWidth 1 = o := by decide
  refine ⟨?_, ?_⟩
  · rw [Icache.outWaits, hb, Icache.next_fb, hst, FillBuf.outDone, hout, (hdone _).1]
    rfl
  · rw [FillBuf.nextWord, FillBuf.outOff, hout, (hdone _).2, FillBuf.firstOff, haddr]
    exact BitVec.extractLsb'_append_extractLsb'_eq_extractLsb' rfl

/-- The buffers that wait after the cycle: of those that were there, and the new one. -/
theorem waiting_next (hi : Inv s) : waiting (s.next p x).ic (s.next p x).order
    = waiting (s.ic.next p x) s.order
      ++ if s.ic.lookupGrantIc0 p x then [wordOfAddr (s.ic.lookupAddrIc0 x)] else [] := by
  have hold : (s.order.filter fun i => !s.ic.fillDone p x i).filter (s.ic.next p x).outWaits
      = s.order.filter (s.ic.next p x).outWaits := by
    rw [List.filter_filter]
    refine List.filter_congr fun i hmem => ?_
    have hb := (hi.aged.mem i).mp hmem
    simp only [Icache.outWaits, Icache.busy_next, Icache.fillAlloc_of_busy hb, hb,
      Bool.false_or, Bool.true_and]
    cases s.ic.fillDone p x i <;> simp
  have hnew : ((s.newBuf p x).toList.filter (s.ic.next p x).outWaits).map
      (fun i => (s.ic.fillNext p x i).nextWord)
      = if s.ic.lookupGrantIc0 p x then [wordOfAddr (s.ic.lookupAddrIc0 x)] else [] := by
    cases hn : s.newBuf p x with
    | none =>
        have hl : s.ic.lookupGrantIc0 p x = false := by
          by_contra hne
          obtain ⟨i, ha⟩ := Icache.exists_fillAlloc ((Bool.not_eq_false _).mp hne)
          rw [newBuf_eq_some.mpr ha] at hn
          cases hn
        rw [hl]
        rfl
    | some i =>
        have ha : s.ic.fillAlloc p x i = true := newBuf_eq_some.mp hn
        have hl : s.ic.lookupGrantIc0 p x = true := by
          simp only [Icache.fillAlloc, Bool.and_eq_true] at ha
          exact ha.2
        obtain ⟨hw, hword⟩ := outWaits_of_alloc ha
        rw [hl, Option.toList_some, List.filter_cons_of_pos hw, List.filter_nil, List.map_cons,
          List.map_nil, hword]
        rfl
  simp only [waiting, next, Aged.nextOrder, List.filter_append, List.map_append, hold]
  exact congrArg _ hnew

/-- A word goes to the output. -/
def outputGrant (p : IcacheParams) (s : Icache) (x : IcacheIn) : Bool :=
  s.dataValid p x && s.outputReady x

/-- A word leaves some buffer where the output accepts it. -/
theorem anyOf_fillOutGrant : anyOf (s.ic.fillOutGrant p x) = outputGrant p s.ic x := by
  rw [Bool.eq_iff_iff, anyOf_iff]
  simp only [Icache.fillOutGrant, outputGrant, Icache.dataValid, Bool.and_eq_true, anyOf_iff]
  constructor
  · rintro ⟨i, ⟨h, hr⟩, he⟩
    exact ⟨⟨⟨i, h⟩, he⟩, hr⟩
  · rintro ⟨⟨⟨i, h⟩, he⟩, hr⟩
    exact ⟨i, ⟨h, hr⟩, he⟩

/-- A buffer that delivers nothing keeps its next word. -/
theorem nextWord_of_not_grant (hb : s.ic.busy i = true)
    (hg : s.ic.fillOutGrant p x i = false) :
    (s.ic.fillNext p x i).nextWord = (s.ic.fb i).nextWord := by
  obtain ⟨-, -, -, -, -, -, -, haddr, hout⟩ := Icache.fillNext_of_busy (p := p) (x := x) hb
  rw [FillBuf.nextWord, FillBuf.outOff, haddr, hout, hg, cnt_add_false, FillBuf.nextWord,
    FillBuf.outOff]

/-- The words of a line. -/
theorem append_toNat (a : BitVec 29) (o : BitVec 1) :
    (a ++ o : BitVec 30).toNat = 2 * a.toNat + o.toNat := by
  rw [BitVec.toNat_append, ← Nat.shiftLeft_add_eq_or_of_lt o.isLt, Nat.shiftLeft_eq]
  omega

/-- The next word of a buffer is in its line, at the place of its count. -/
theorem nextWord_toNat (b : FillBuf) : b.nextWord.toNat
    = 2 * (b.addr.extractLsb' 3 29).toNat + b.outCnt.toNat % 2 := by
  rw [FillBuf.nextWord, append_toNat, FillBuf.toNat_outOff]

/-- A buffer that delivers its first word goes on to the second one. -/
theorem nextWord_of_grant (hb : s.ic.busy i = true) (hf : (s.ic.fb i).Ok)
    (hg : s.ic.fillOutGrant p x i = true) (h0 : (s.ic.fb i).outCnt.toNat = 0) :
    (s.ic.fillNext p x i).nextWord = (s.ic.fb i).nextWord + 1#30 := by
  obtain ⟨-, -, -, -, -, -, -, haddr, -⟩ := Icache.fillNext_of_busy (p := p) (x := x) hb
  obtain ⟨hout, -⟩ := outCnt_of_busy (p := p) (x := x) hb hf.out_le
  have hlt := ((s.ic.fb i).addr.extractLsb' 3 29).isLt
  apply BitVec.eq_of_toNat_eq
  rw [nextWord_toNat, BitVec.toNat_add, nextWord_toNat, haddr, hout, hg, h0]
  simp only [Bool.toNat_true, BitVec.toNat_ofNat]
  omega

/-- Between branches the buffers deliver consecutive words. -/
theorem lineRow_waiting (hi : Inv s) (hf : ∀ i, s.ic.busy i = true → (s.ic.fb i).Ok)
    (hbr : x.branch = false) {w : BitVec 30} {l : List (BitVec 30)}
    (h : LineRow w (waiting s.ic s.order ++ l)) :
    LineRow (w + if outputGrant p s.ic x then 1#30 else 0#30)
      (waiting (s.ic.next p x) s.order ++ l) := by
  have hbusy : ∀ i ∈ s.order, s.ic.busy i = true := fun i h => (hi.aged.mem i).mp h
  have hstep : ∀ i ∈ s.order, (s.ic.next p x).outWaits i =
      (s.ic.outWaits i && !(s.ic.fillOutGrant p x i && (s.ic.fb i).outCnt == 1#2)) :=
    fun i hm => outWaits_next (hbusy i hm) (hf i (hbusy i hm)).out_le hbr
  have hkeep : ∀ m : List (Fin 4), (∀ i ∈ m, i ∈ s.order ∧ s.ic.fillOutGrant p x i = false) →
      (m.filter (s.ic.next p x).outWaits).map (fun i => (s.ic.fillNext p x i).nextWord)
        = (m.filter s.ic.outWaits).map fun i => (s.ic.fb i).nextWord := by
    intro m hm
    have hfil : m.filter (s.ic.next p x).outWaits = m.filter s.ic.outWaits :=
      List.filter_congr fun i hmem => by
        rw [hstep i (hm i hmem).1, (hm i hmem).2]
        simp
    rw [hfil]
    refine List.map_congr_left fun i hmem => ?_
    obtain ⟨hmo, hg⟩ := hm i (List.mem_filter.mp hmem).1
    exact nextWord_of_not_grant (hbusy i hmo) hg
  rw [← anyOf_fillOutGrant]
  cases hany : anyOf (s.ic.fillOutGrant p x) with
  | false =>
      rw [anyOf_eq_false] at hany
      have heq : waiting (s.ic.next p x) s.order = waiting s.ic s.order :=
        hkeep s.order fun i hm => ⟨hm, hany i⟩
      simpa [heq] using h
  | true =>
      obtain ⟨i, hg⟩ := anyOf_iff.mp hany
      have harb : s.ic.fillOutArb p x i = true := by
        simp only [Icache.fillOutGrant, Bool.and_eq_true] at hg
        exact hg.1.1
      obtain ⟨pre, post, heq, hw, hpre⟩ := waiting_of_arb hi (outWaits_of_fillOutArb harb)
      have hnd := hi.aged.nodup
      rw [heq, List.nodup_append, List.nodup_cons] at hnd
      have hother : ∀ j, j ≠ i → s.ic.fillOutGrant p x j = false := by
        intro j hne
        by_contra hgj
        rw [Bool.not_eq_false, Icache.fillOutGrant, Bool.and_eq_true, Bool.and_eq_true] at hgj
        exact hne (hi.aged.arb_unique (fun _ => busy_of_outWaits)
          (outWaits_of_fillOutArb harb) (outWaits_of_fillOutArb hgj.1.1))
      have hpost := hkeep post fun j hj =>
        ⟨by simp [heq, hj], hother j fun hji => hnd.2.1.1 (hji ▸ hj)⟩
      have hpre' : pre.filter (s.ic.next p x).outWaits = [] := by
        rw [List.filter_eq_nil_iff] at hpre ⊢
        intro j hj
        rw [hstep j (by simp [heq, hj])]
        have := hpre j hj
        rw [Bool.not_eq_true] at this
        simp [this]
      have hmem : i ∈ s.order := by simp [heq]
      have hfi := hf i (hbusy i hmem)
      have hlt2 : (s.ic.fb i).outCnt.toNat < 2 := by
        have hd := outDone_of_fillOutGrant hg
        rw [FillBuf.outDone_iff hfi.out_le, decide_eq_false_iff_not] at hd
        have := hfi.out_le
        omega
      have hbit : (s.ic.fb i).nextWord.getLsbD 0 = decide ((s.ic.fb i).outCnt.toNat = 1) := by
        rw [BitVec.getLsbD, Nat.testBit_zero, nextWord_toNat]
        congr 1
        rw [eq_iff_iff]
        omega
      have hwi := hstep i hmem
      simp only [waiting, heq, List.filter_append, hpre, List.nil_append,
        List.filter_cons_of_pos hw, List.map_cons, List.cons_append] at h
      simp only [waiting, heq, List.filter_append, hpre', List.nil_append, if_true,
        Icache.next_fb]
      by_cases h1 : (s.ic.fb i).outCnt.toNat = 1
      · have hno : (s.ic.next p x).outWaits i = false := by
          have hone : (s.ic.fb i).outCnt = 1#2 := BitVec.eq_of_toNat_eq h1
          simp [hwi, hg, hone]
        rw [List.filter_cons_of_neg (by simp [hno]), hpost]
        exact lineRow_last h (hbit.trans (decide_eq_true h1))
      · have hyes : (s.ic.next p x).outWaits i = true := by
          have hone : (s.ic.fb i).outCnt ≠ 1#2 := fun h => h1 (by rw [h]; rfl)
          simp [hwi, hw, hone]
        rw [List.filter_cons_of_pos hyes, List.map_cons, hpost,
          nextWord_of_grant (hbusy i hmem) hfi hg (by omega)]
        exact lineRow_first h (hbit.trans (decide_eq_false h1))

end IcacheObs

end CocoIbex
