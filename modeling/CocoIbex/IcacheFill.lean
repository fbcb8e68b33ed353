import CocoIbex.Icache

/-!
# One Fill Buffer

What a clock cycle does to a fill buffer that is busy, to one that is allocated and to one that
is free, and the two counters of its requests: beat `k` of a buffer is the word that it asks for
after `k` others, and the counters are at most two.

A buffer starts at the word of its address, which may be the second of the line, and goes on
with the other one; so the number of a beat and its place in the line are different things. The
counters have two bits for each buffer, one for the requests that it has made and one for the
answers that have come, and neither overtakes the other (`Counts`).

The lemmas are about one buffer and a cycle of arbitrary inputs. What the buffers are to each
other comes with the list of them.

## Main results

* `fillNext_of_busy` and `fillNext_of_alloc` — how a busy buffer goes on and a new one begins;
* `busy_next` — a buffer is busy from its allocation until it is done;
* `extOff_eq` and `rvdOff_eq` — the next word that is asked for, and the next one that comes.
-/

namespace CocoIbex

open OneHot

/-! ### The counters -/

/-- A counter that is stepped below its bound. -/
theorem cnt_add {c : BitVec 2} {b : Bool} (h : c.toNat + b.toNat ≤ 2) :
    (c + (0#1 ++ BitVec.ofBool b)).toNat = c.toNat + b.toNat := by
  revert h
  revert c b
  decide

/-- A counter that does not count stays. -/
@[simp] theorem cnt_add_false (c : BitVec 2) : c + (0#1 ++ BitVec.ofBool false) = c := by
  revert c
  decide

/-- The step of a counter is one or zero. -/
@[simp] theorem cnt_ofBool (b : Bool) : (0#1 ++ BitVec.ofBool b : BitVec 2).toNat = b.toNat := by
  revert b
  decide

/-- The top bit of a counter of at most two. -/
theorem cnt_bit {c : BitVec 2} (h : c.toNat ≤ 2) : c.getLsbD 1 = decide (c.toNat = 2) := by
  revert h
  revert c
  decide

namespace FillBuf

variable (b : FillBuf)

/-- The word of the line that is beat `k`. -/
def beatOff (k : ℕ) : BitVec 1 := b.firstOff + BitVec.ofNat 1 k

/-- The address that a fill buffer puts on the bus for beat `k`. -/
def beatAddr (k : ℕ) : BitVec 32 := b.addr.extractLsb' 3 29 ++ b.beatOff k ++ 0#2

/-- The beats that have been requested and not yet received. -/
def beats : List (BitVec 32) :=
  (List.range' b.rvdCnt.toNat (b.extCnt.toNat - b.rvdCnt.toNat)).map b.beatAddr

/-- A fill buffer that requests nothing more. -/
def stopped : Bool :=
  (b.extCnt.getLsbD 1 || b.hit || b.err b.extOff || (!b.cache && b.stale)) && !b.extHold

/-- The word of the line that a fill buffer delivers next. -/
def outOff : BitVec 1 := b.outCnt.setWidth 1

/-- The counters of a fill buffer are in order. -/
structure Counts : Prop where
  rvd_le : b.rvdCnt.toNat ≤ b.extCnt.toNat
  ext_le : b.extCnt.toNat ≤ 2

/-- The next word that a buffer asks for is the one after those it has asked for. -/
theorem extOff_eq : b.extOff = b.beatOff b.extCnt.toNat := by
  rw [extOff, beatOff, BitVec.ofNat_toNat]

/-- The next word that comes is the one after those that have come. -/
theorem rvdOff_eq : b.rvdOff = b.beatOff b.rvdCnt.toNat := by
  rw [rvdOff, rvdBeat, beatOff, BitVec.ofNat_toNat]
  generalize b.firstOff = o
  generalize b.rvdCnt = c
  revert o c
  decide

/-- The words of a line are taken around, beginning with the one that is wanted first. -/
@[simp] theorem toNat_beatOff (k : ℕ) : (b.beatOff k).toNat = (b.firstOff.toNat + k) % 2 := by
  rw [beatOff, BitVec.toNat_add, BitVec.toNat_ofNat]
  omega

/-- The next word for the output is at the place of the count modulo two. -/
@[simp] theorem toNat_outOff : b.outOff.toNat = b.outCnt.toNat % 2 := by
  rw [outOff, BitVec.toNat_setWidth]

/-- The beat that has come counts from the first word on. -/
theorem toNat_rvdBeat (h : b.rvdCnt.toNat ≤ 2) :
    b.rvdBeat.toNat = b.firstOff.toNat + b.rvdCnt.toNat := by
  revert h
  rw [rvdBeat]
  generalize b.firstOff = o
  generalize b.rvdCnt = c
  revert o c
  decide

/-- A buffer owes as many beats as it has asked for and not got. -/
@[simp] theorem length_beats : b.beats.length = b.extCnt.toNat - b.rvdCnt.toNat := by
  simp [beats]

/-- A buffer that has got what it has asked for owes nothing. -/
theorem beats_eq_nil (h : b.extCnt.toNat ≤ b.rvdCnt.toNat) : b.beats = [] := by
  rw [beats, Nat.sub_eq_zero_of_le h]
  rfl

/-- The first beat that is missing. -/
theorem beats_eq_cons (h : b.rvdCnt.toNat < b.extCnt.toNat) :
    ∃ l, b.beats = b.beatAddr b.rvdCnt.toNat :: l := by
  obtain ⟨n, hn⟩ := Nat.exists_eq_add_of_lt h
  have hn : b.extCnt.toNat - b.rvdCnt.toNat = n + 1 := by omega
  exact ⟨_, by rw [beats, hn, List.range'_succ, List.map_cons]⟩

/-- A beat that is received leaves the row at its front, and one that is requested enters it at
its end. -/
theorem beats_step {b b' : FillBuf} {r e : Bool} (haddr : b'.addr = b.addr)
    (hr : b'.rvdCnt.toNat = b.rvdCnt.toNat + r.toNat)
    (he : b'.extCnt.toNat = b.extCnt.toNat + e.toNat)
    (hle : b.rvdCnt.toNat + r.toNat ≤ b.extCnt.toNat) :
    b'.beats = b.beats.drop r.toNat ++ if e then [b.beatAddr b.extCnt.toNat] else [] := by
  have hbeat : b'.beatAddr = b.beatAddr := by
    funext k
    simp [beatAddr, beatOff, firstOff, haddr]
  have hdrop : (List.range' b.rvdCnt.toNat (b.extCnt.toNat - b.rvdCnt.toNat)).drop r.toNat
      = List.range' b'.rvdCnt.toNat (b.extCnt.toNat - b'.rvdCnt.toNat) := by
    rw [List.drop_range', hr, Nat.mul_one, Nat.sub_sub]
  rw [beats, beats, hbeat, ← List.map_drop, hdrop, he]
  cases e with
  | false => simp
  | true =>
      have hsub : b.extCnt.toNat + 1 - b'.rvdCnt.toNat
          = b.extCnt.toNat - b'.rvdCnt.toNat + 1 := by omega
      rw [Bool.toNat_true, hsub, List.range'_concat, List.map_append, if_pos rfl]
      simp only [List.map_cons, List.map_nil]
      congr 3
      omega

end FillBuf

namespace Icache

variable {p : IcacheParams} {s : Icache} {x : IcacheIn} {i j : Fin 4}

/-! ### Allocation -/

/-- A busy buffer is not allocated. -/
theorem fillAlloc_of_busy (h : s.busy i = true) : s.fillAlloc p x i = false := by
  simp [fillAlloc, fillAllocSel, h]

/-- An allocated buffer has been free. -/
theorem not_busy_of_fillAlloc (h : s.fillAlloc p x i = true) : s.busy i = false := by
  cases hb : s.busy i with
  | false => rfl
  | true => simp [fillAlloc_of_busy hb] at h

/-- At most one buffer is free and the lowest. -/
theorem fillAllocSel_unique (hi : s.fillAllocSel i = true) (hj : s.fillAllocSel j = true) :
    i = j := by
  simp only [fillAllocSel, Bool.and_eq_true, Bool.not_eq_true', anyOf_eq_false,
    Bool.and_eq_false_iff, decide_eq_false_iff_not, Bool.not_eq_false'] at hi hj
  obtain hlt | heq | hlt := lt_trichotomy i j
  · obtain hn | hb := hj.2 i
    · exact absurd hlt hn
    · rw [hi.1] at hb
      cases hb
  · exact heq
  · obtain hn | hb := hi.2 j
    · exact absurd hlt hn
    · rw [hj.1] at hb
      cases hb

/-- A buffer is free if not all are busy. -/
theorem exists_fillAllocSel (h : s.allBusy = false) : ∃ i, s.fillAllocSel i = true := by
  simp only [allBusy, Bool.not_eq_false', anyOf_iff, Bool.not_eq_true'] at h
  obtain ⟨i, hi⟩ := h
  by_contra hne
  push Not at hne
  have hall : ∀ k : ℕ, ∀ j : Fin 4, j.val < k → s.busy j = true := by
    intro k
    induction k with
    | zero => intro j hj; omega
    | succ k ih =>
        intro j hj
        by_contra hb
        refine hne j ?_
        simp only [fillAllocSel, Bool.and_eq_true, Bool.not_eq_true', anyOf_eq_false,
          Bool.and_eq_false_iff, decide_eq_false_iff_not, Bool.not_eq_false']
        refine ⟨Bool.eq_false_iff.mpr hb, fun l => ?_⟩
        by_cases hl : l < j
        · exact Or.inr (ih l (by omega))
        · exact Or.inl hl
  rw [hall 4 i i.isLt] at hi
  cases hi

/-- A granted lookup takes a buffer. -/
theorem exists_fillAlloc (h : s.lookupGrantIc0 p x = true) : ∃ i, s.fillAlloc p x i = true := by
  have hb : s.allBusy = false := by
    simp only [lookupGrantIc0, Bool.and_eq_true, Bool.not_eq_true'] at h
    exact h.1.1.2
  obtain ⟨i, hi⟩ := exists_fillAllocSel hb
  exact ⟨i, by rw [fillAlloc, hi, h]; rfl⟩

/-! ### The fields of the next state -/

/-- The buffers of the next cycle are those that have stepped. -/
@[simp] theorem next_fb : (s.next p x).fb = s.fillNext p x := rfl

/-- A buffer is busy from its allocation until it is done. -/
theorem busy_next (p : IcacheParams) (s : Icache) (x : IcacheIn) (i : Fin 4) :
    (s.next p x).busy i = (s.fillAlloc p x i || (s.busy i && !s.fillDone p x i)) := by
  obtain ha | ha := Bool.eq_false_or_eq_true (s.fillAlloc p x i) <;>
    obtain hb | hb := Bool.eq_false_or_eq_true (s.fb i).busy <;>
      simp [busy, fillNext, fillEntryD, ha, hb]

/-- A new buffer is younger than all busy ones, and ages are forgotten with the buffer that is
done. -/
theorem older_next (h : (s.next p x).busy i = true) (j : Fin 4) :
    (s.next p x).older i j =
      ((if s.fillAlloc p x i then s.busy j else s.older i j) && !s.fillDone p x j) := by
  have hen : (s.fillAlloc p x i || s.busy i) = true := by
    rw [busy_next] at h
    revert h
    cases s.fillAlloc p x i <;> cases s.busy i <;> simp
  simp only [older, next_fb, fillNext, hen, if_true, fillEntryD]

/-- A busy buffer keeps its address and goes on counting. -/
theorem fillNext_of_busy (h : s.busy i = true) :
    (s.fillNext p x i).stale = (x.branch || (s.fb i).stale) ∧
    (s.fillNext p x i).cache = (s.fb i).cache ∧
    (s.fillNext p x i).hit = ((s.fillHitIc1 i && !s.eccErrIc1 p) || (s.fb i).hit) ∧
    (s.fillNext p x i).extCnt =
      (s.fb i).extCnt + (0#1 ++ BitVec.ofBool (s.fillExtArb p x i && gntNotPmpErr x)) ∧
    (s.fillNext p x i).extHold = (s.fillExtArb p x i && !gntOrPmpErr x) ∧
    (s.fillNext p x i).rvdCnt = (s.fb i).rvdCnt + (0#1 ++ BitVec.ofBool (s.fillRvdArb p x i)) ∧
    (s.fillNext p x i).err = s.fillErrD p x i ∧
    (s.fillNext p x i).addr = (s.fb i).addr ∧
    (s.fillNext p x i).outCnt =
      (s.fb i).outCnt + (0#1 ++ BitVec.ofBool (s.fillOutGrant p x i)) := by
  have ha := fillAlloc_of_busy (p := p) (x := x) h
  simp [fillNext, fillEntryD, ha, h]

/-- A free buffer makes no request. -/
theorem fillExtArb_of_free (h : s.busy i = false) : s.fillExtArb p x i = false := by
  simp [fillExtArb, arb, fillExtReq, h]

/-- A free buffer takes no answer. -/
theorem fillRvdArb_of_free (h : s.busy i = false) : s.fillRvdArb p x i = false := by
  simp [fillRvdArb, arb, fillRvdExp, h]

/-- What a new buffer begins with. -/
theorem fillNext_of_alloc (h : s.fillAlloc p x i = true) :
    (s.fillNext p x i).stale = false ∧
    (s.fillNext p x i).hit = (s.fillHitIc1 i && !s.eccErrIc1 p) ∧
    (s.fillNext p x i).extCnt = 0#1 ++ BitVec.ofBool (s.fillSpecDone p x) ∧
    (s.fillNext p x i).extHold = s.fillSpecHold p x ∧
    (s.fillNext p x i).rvdCnt = 0#2 ∧
    (s.fillNext p x i).addr = s.lookupAddrIc0 x ∧
    (s.fillNext p x i).outCnt = 0#1 ++ (s.fillNext p x i).firstOff ∧
    (s.fillNext p x i).err = fun _ => false := by
  have hb := not_busy_of_fillAlloc h
  have herr : s.fillErrD p x i = fun _ => false := by
    funext off
    simp [fillErrD, fillExtArb_of_free hb, fillRvdArb_of_free hb, hb]
  simp [fillNext, fillEntryD, h, hb, fillExtArb_of_free hb, herr, FillBuf.firstOff]

/-- A free buffer keeps its counters. -/
theorem fillNext_of_free (ha : s.fillAlloc p x i = false) (hb : s.busy i = false) :
    (s.fillNext p x i).extCnt = (s.fb i).extCnt ∧
    (s.fillNext p x i).rvdCnt = (s.fb i).rvdCnt := by
  simp [fillNext, ha, hb]

end Icache

end CocoIbex
