import CocoIbex.IcacheFill
import CocoIbex.Machine

/-!
# Which Fill Buffer a Response Belongs To

The bus answers the granted requests of the cache in their order and does not say which request
it answers. Beside the cache stand the list of its busy buffers in the order of their
allocation, and the granted requests that have no answer, each with the buffer that made it. The
first beats that are missing in the buffers, the oldest buffer first, are these requests
(`Inv`): only a buffer whose older ones have all stopped makes a request.

The circuit routes an answer by the age of the buffers: it goes to the oldest one that has asked
for more than it has got. That this is the buffer that made the request is a matter of the order
in which the requests were made, and the invariant is that order. A buffer may be cancelled
while answers to it are missing; it stays busy for them, and so keeps its place.

The core is not constrained, and of the bus only that it answers granted requests.

## Main results

* `inv_next` and `inv_start` — the invariant of the routing;
* `responses_routed` — in every cycle of every run each answer goes to the buffer that made the
  request, the missing answers are as many as the counters of the buffers tell, and no buffer is
  given free while an answer to it is missing.
-/

namespace CocoIbex

open OneHot

/-- The cache, its busy buffers in the order of their allocation, and the requests that have
been granted and not answered, the first one first. -/
structure IcacheObs where
  ic : Icache
  order : List (Fin 4)
  pending : List (Fin 4 × BitVec 32)

namespace IcacheObs

variable (p : IcacheParams) (s : IcacheObs) (x : IcacheIn)

/-- The buffer that is allocated in this cycle. -/
def newBuf : Option (Fin 4) := (List.finRange 4).find? (s.ic.fillAlloc p x)

/-- The buffer whose request is on the bus: the one that the arbitration lets out, or else
the one that a lookup takes. -/
def issuer : Option (Fin 4) :=
  if anyOf (s.ic.fillExtReq p x) then (List.finRange 4).find? (s.ic.fillExtArb p x)
  else s.newBuf p x

/-- A request is granted and not suppressed by the PMP. -/
def granted : Bool := s.ic.instrReq p x && Icache.gntNotPmpErr x

/-- The request that is granted in this cycle. -/
def newReq : List (Fin 4 × BitVec 32) :=
  if s.granted p x then [((s.issuer p x).getD 0, s.ic.instrAddr p x ++ 0#2)] else []

/-- One clock cycle. -/
def next : IcacheObs where
  ic := s.ic.next p x
  order := Aged.nextOrder s.order (s.ic.fillDone p x) (s.newBuf p x)
  pending := s.pending.drop (if x.instrRvalid then 1 else 0) ++ s.newReq p x

/-- The bus answers only where a request is unanswered. -/
def EnvOk : Prop := x.instrRvalid = true → s.pending ≠ []

/-- The rule is about two values that are at hand. -/
instance : Decidable (EnvOk s x) := inferInstanceAs (Decidable (_ = true → _ ≠ []))

/-- The cache after its reset, without a request. -/
structure Start : Prop where
  ic : s.ic.AtReset
  order : s.order = []
  pending : s.pending = []

/-- The beats that are missing in a buffer. -/
def beats (fb : Fin 4 → FillBuf) (i : Fin 4) : List (Fin 4 × BitVec 32) :=
  (fb i).beats.map (Prod.mk i)

/-- The invariant. -/
structure Inv : Prop where
  aged : Aged s.ic.busy s.ic.older s.order
  counts : ∀ i, (s.ic.fb i).Counts
  hold : ∀ i, s.ic.busy i = true → (s.ic.fb i).extHold = true → (s.ic.fb i).extCnt.toNat < 2
  stopped : s.order.Pairwise fun j i =>
    0 < (s.ic.fb i).extCnt.toNat ∨ (s.ic.fb i).extHold = true → (s.ic.fb j).stopped = true
  pending : s.pending = s.order.flatMap (beats s.ic.fb)

variable {p s x} {i j : Fin 4}

/-! ### The arbitration of requests and answers -/

/-- A search finds the only index at which a predicate holds. -/
theorem find_eq_some {f : Fin 4 → Bool} (hi : f i = true)
    (hu : ∀ j, f j = true → j = i) : (List.finRange 4).find? f = some i := by
  cases h : (List.finRange 4).find? f with
  | none => exact absurd hi (List.find?_eq_none.mp h i (List.mem_finRange i))
  | some j => rw [hu j (List.find?_some h)]

/-- The new buffer of a cycle is the one that is allocated. -/
theorem newBuf_eq_some : s.newBuf p x = some i ↔ s.ic.fillAlloc p x i = true := by
  constructor
  · exact fun h => List.find?_some h
  · intro h
    refine find_eq_some h fun j hj => ?_
    simp only [Icache.fillAlloc, Bool.and_eq_true] at h hj
    exact Icache.fillAllocSel_unique hj.1 h.1

/-- A buffer that has stopped makes no request. -/
theorem fillExtDone_of_stopped (h : (s.ic.fb i).stopped = true) :
    s.ic.fillExtDone p x i = true := by
  simp only [FillBuf.stopped, Bool.and_eq_true, Bool.or_eq_true, Bool.not_eq_true'] at h
  obtain ⟨⟨⟨h | h⟩ | h⟩ | ⟨hc, hst⟩, hh⟩ := h <;> simp [Icache.fillExtDone, *]

/-- A buffer that makes no request stops. -/
theorem stopped_next (hb : s.ic.busy i = true) (h : s.ic.fillExtDone p x i = true) :
    (s.ic.fillNext p x i).stopped = true := by
  have hreq : s.ic.fillExtReq p x i = false := by simp [Icache.fillExtReq, h]
  have harb : s.ic.fillExtArb p x i = false := by simp [Icache.fillExtArb, arb, hreq]
  obtain ⟨hst, hca, hhit, hext, hhold, -, herr, haddr, -⟩ :=
    Icache.fillNext_of_busy (p := p) (x := x) hb
  have hoff : (s.ic.fillNext p x i).extOff = (s.ic.fb i).extOff := by
    simp [FillBuf.extOff, FillBuf.firstOff, haddr, hext, harb]
  simp only [Icache.fillExtDone, Bool.and_eq_true, Bool.or_eq_true, Bool.not_eq_true'] at h
  simp only [FillBuf.stopped, hoff, hst, hca, hhit, hext, hhold, herr, harb, Icache.fillErrD, hb,
    Bool.false_and, Bool.not_false, Bool.and_true, Bool.true_and, cnt_add_false,
    Bool.or_eq_true, Bool.and_eq_true, Bool.not_eq_true']
  obtain ⟨⟨⟨⟨hc | hh⟩ | hq⟩ | he⟩ | hcs, -⟩ := h
  · exact Or.inl (Or.inl (Or.inl hc))
  · exact Or.inl (Or.inl (Or.inr (Or.inl hh)))
  · exact Or.inl (Or.inl (Or.inr (Or.inr hq)))
  · exact Or.inl (Or.inr (Or.inr he))
  · exact Or.inr hcs

/-- Where a buffer has made a request, the older ones have stopped. -/
theorem stopped_of_pre (hi : Inv s) {pre post : List (Fin 4)} (heq : s.order = pre ++ i :: post)
    (h : 0 < (s.ic.fb i).extCnt.toNat ∨ (s.ic.fb i).extHold = true) (j : Fin 4) (hj : j ∈ pre) :
    (s.ic.fb j).stopped = true := by
  have hp := hi.stopped
  rw [heq, List.pairwise_append] at hp
  exact hp.2.2 j hj i (List.mem_cons_self ..) h

/-- A buffer that has the answers to all its requests owes no beats. -/
theorem beats_eq_nil {fb : Fin 4 → FillBuf} (h : (fb i).extCnt.toNat ≤ (fb i).rvdCnt.toNat) :
    beats fb i = [] := by
  rw [beats, FillBuf.beats_eq_nil _ h, List.map_nil]

/-- While an answer is outstanding, some buffer has asked for more words than it has got. -/
theorem exists_missing (hi : Inv s) (hne : s.pending ≠ []) :
    ∃ i, s.ic.busy i = true ∧ (s.ic.fb i).rvdCnt.toNat < (s.ic.fb i).extCnt.toNat := by
  by_contra hnone
  push Not at hnone
  refine hne ?_
  rw [hi.pending, List.flatMap_eq_nil_iff]
  exact fun i hmem => beats_eq_nil (hnone i ((hi.aged.mem i).mp hmem))

/-- Only a busy buffer expects an answer. -/
theorem busy_of_fillRvdExp (h : s.ic.fillRvdExp p x i = true) : s.ic.busy i = true := by
  simp only [Icache.fillRvdExp, Bool.and_eq_true] at h
  exact h.1

/-- Only a busy buffer asks the bus. -/
theorem busy_of_fillExtReq (h : s.ic.fillExtReq p x i = true) : s.ic.busy i = true := by
  simp only [Icache.fillExtReq, Bool.and_eq_true] at h
  exact h.1

/-- The buffer that takes the answer is the first one with a beat missing. -/
theorem fillRvdArb_of_rvalid (hi : Inv s) (hrv : x.instrRvalid = true)
    (hne : s.pending ≠ []) :
    ∃ i pre post, s.order = pre ++ i :: post ∧
      (s.ic.fb i).rvdCnt.toNat < (s.ic.fb i).extCnt.toNat ∧
      (∀ j ∈ pre, beats s.ic.fb j = []) ∧ ∀ j, s.ic.fillRvdArb p x j = true ↔ j = i := by
  have hreq : ∀ i, (s.ic.busy i && decide ((s.ic.fb i).rvdCnt.toNat < (s.ic.fb i).extCnt.toNat))
      = true → s.ic.busy i = true := by
    intro i h
    rw [Bool.and_eq_true] at h
    exact h.1
  obtain ⟨k, hk, hlt⟩ := exists_missing hi hne
  obtain ⟨i, harb⟩ := hi.aged.exists_arb hreq ⟨k, by simp [hk, hlt]⟩
  obtain ⟨pre, post, heq, hri, hpre⟩ := (hi.aged.arb_iff hreq).mp harb
  simp only [Bool.and_eq_true, decide_eq_true_eq] at hri
  have hbusy : ∀ j ∈ pre, s.ic.busy j = true := fun j hj =>
    (hi.aged.mem j).mp (by rw [heq]; exact List.mem_append_left _ hj)
  have hle : ∀ j ∈ pre, (s.ic.fb j).extCnt.toNat ≤ (s.ic.fb j).rvdCnt.toNat := by
    intro j hj
    have := hpre j hj
    rw [hbusy j hj, Bool.true_and, decide_eq_false_iff_not] at this
    omega
  have hexp : s.ic.fillRvdExp p x i = true := by
    have hcnt : (s.ic.fb i).rvdCnt ≠ (s.ic.fb i).extCnt := by
      intro h
      rw [h] at hri
      exact absurd hri.2 (lt_irrefl _)
    simp [Icache.fillRvdExp, Icache.fillRvdDone, hri.1, hcnt]
  have hdone : ∀ j ∈ pre, s.ic.fillRvdExp p x j = false := by
    intro j hj
    have hstop := stopped_of_pre hi heq (Or.inl (by omega)) j hj
    have hcnt : (s.ic.fb j).rvdCnt = (s.ic.fb j).extCnt :=
      BitVec.eq_of_toNat_eq (le_antisymm (hi.counts j).rvd_le (hle j hj))
    simp [Icache.fillRvdExp, Icache.fillRvdDone, fillExtDone_of_stopped hstop, hcnt]
  have hgrant : arb (s.ic.fillRvdExp p x) s.ic.older i = true :=
    (hi.aged.arb_iff fun _ => busy_of_fillRvdExp).mpr ⟨pre, post, heq, hexp, hdone⟩
  refine ⟨i, pre, post, heq, hri.2, fun j hj => beats_eq_nil (hle j hj), fun j => ?_⟩
  simp only [Icache.fillRvdArb, hrv, Bool.true_and]
  constructor
  · exact fun h => hi.aged.arb_unique (fun _ => busy_of_fillRvdExp) hgrant h
  · rintro rfl
    exact hgrant

/-- The buffer whose request is on the bus has no request of a younger one behind it. -/
theorem fillExtArb_of_fillExtReq (hi : Inv s) (h : anyOf (s.ic.fillExtReq p x) = true) :
    ∃ i pre post, s.order = pre ++ i :: post ∧ s.ic.fillExtReq p x i = true ∧
      (∀ j ∈ pre, s.ic.fillExtReq p x j = false) ∧
      (∀ j ∈ post, (s.ic.fb j).extCnt.toNat = 0 ∧ (s.ic.fb j).extHold = false) ∧
      ∀ j, s.ic.fillExtArb p x j = true ↔ j = i := by
  obtain ⟨i, harb⟩ := hi.aged.exists_arb (fun _ => busy_of_fillExtReq) (anyOf_iff.mp h)
  obtain ⟨pre, post, heq, hri, hpre⟩ := (hi.aged.arb_iff fun _ => busy_of_fillExtReq).mp harb
  refine ⟨i, pre, post, heq, hri, hpre, fun j hj => ?_, fun j => ⟨fun hj => ?_, ?_⟩⟩
  · have hp := hi.stopped
    rw [heq, List.pairwise_append, List.pairwise_cons] at hp
    have hstop := hp.2.1.1 j hj
    by_contra hne
    have hs : (s.ic.fb i).stopped = true := by
      refine hstop ?_
      by_cases h0 : (s.ic.fb j).extCnt.toNat = 0
      · exact Or.inr (by simpa [h0] using hne)
      · exact Or.inl (by omega)
    simp [Icache.fillExtReq, fillExtDone_of_stopped hs] at hri
  · exact hi.aged.arb_unique (fun _ => busy_of_fillExtReq) harb hj
  · rintro rfl
    exact harb

/-! ### One step -/

/-- A buffer that makes a request has beats to ask for. -/
theorem extCnt_lt_of_fillExtReq (hi : Inv s) (h : s.ic.fillExtReq p x i = true) :
    (s.ic.fb i).extCnt.toNat < 2 := by
  have hb := busy_of_fillExtReq h
  have hle := (hi.counts i).ext_le
  by_contra hne
  have hh : (s.ic.fb i).extHold = false := by
    by_contra hh
    have := hi.hold i hb (by simpa using hh)
    omega
  have hbit : (s.ic.fb i).extCnt.getLsbD 1 = true := by
    rw [cnt_bit hle, decide_eq_true_eq]
    omega
  have hdone : s.ic.fillExtDone p x i = true := by
    simp only [Icache.fillExtDone, hbit, hh, Bool.true_or, Bool.not_false, Bool.and_true]
  simp [Icache.fillExtReq, hdone] at h

/-- A buffer that is granted the bus has asked for it. -/
theorem fillExtReq_of_fillExtArb (h : s.ic.fillExtArb p x i = true) :
    s.ic.fillExtReq p x i = true := by
  simp only [Icache.fillExtArb, arb, Bool.and_eq_true] at h
  exact h.1

/-- A buffer that takes an answer has asked for more words than it has got. -/
theorem rvdCnt_lt_of_fillRvdArb (hi : Inv s) (hok : EnvOk s x)
    (h : s.ic.fillRvdArb p x i = true) :
    (s.ic.fb i).rvdCnt.toNat < (s.ic.fb i).extCnt.toNat := by
  have hrv : x.instrRvalid = true := by
    simp only [Icache.fillRvdArb, Bool.and_eq_true] at h
    exact h.1
  obtain ⟨k, -, -, -, hlt, -, hiff⟩ := fillRvdArb_of_rvalid (p := p) hi hrv (hok hrv)
  rw [(hiff i).mp h]
  exact hlt

/-- The counters of a busy buffer go on with the grant of its request and with its answer. -/
theorem counts_of_busy (hi : Inv s) (hok : EnvOk s x) (hb : s.ic.busy i = true) :
    (s.ic.fillNext p x i).extCnt.toNat = (s.ic.fb i).extCnt.toNat
        + (s.ic.fillExtArb p x i && Icache.gntNotPmpErr x).toNat ∧
      (s.ic.fillNext p x i).rvdCnt.toNat = (s.ic.fb i).rvdCnt.toNat
        + (s.ic.fillRvdArb p x i).toNat ∧
      (s.ic.fb i).rvdCnt.toNat + (s.ic.fillRvdArb p x i).toNat ≤ (s.ic.fb i).extCnt.toNat ∧
      (s.ic.fb i).extCnt.toNat + (s.ic.fillExtArb p x i && Icache.gntNotPmpErr x).toNat ≤ 2 := by
  obtain ⟨-, -, -, hext, -, hrvd, -⟩ := Icache.fillNext_of_busy (p := p) (x := x) hb
  have hc := hi.counts i
  have hcle := hc.rvd_le
  have hele := hc.ext_le
  have hr : (s.ic.fb i).rvdCnt.toNat + (s.ic.fillRvdArb p x i).toNat
      ≤ (s.ic.fb i).extCnt.toNat := by
    cases h : s.ic.fillRvdArb p x i with
    | false => simpa using hcle
    | true => exact rvdCnt_lt_of_fillRvdArb hi hok h
  have he : (s.ic.fb i).extCnt.toNat + (s.ic.fillExtArb p x i && Icache.gntNotPmpErr x).toNat
      ≤ 2 := by
    cases h : s.ic.fillExtArb p x i with
    | false => simpa using hele
    | true =>
        have := extCnt_lt_of_fillExtReq hi (fillExtReq_of_fillExtArb h)
        have := Bool.toNat_le (true && Icache.gntNotPmpErr x)
        omega
  rw [hext, hrvd, cnt_add he, cnt_add (by omega)]
  exact ⟨rfl, rfl, hr, he⟩

/-- The counters of a buffer keep their bounds. -/
theorem counts_next (hi : Inv s) (hok : EnvOk s x) (i : Fin 4) :
    (s.ic.fillNext p x i).Counts := by
  cases hb : s.ic.busy i with
  | true =>
      obtain ⟨hext, hrvd, hr, he⟩ := counts_of_busy (p := p) hi hok hb
      exact ⟨by omega, by omega⟩
  | false =>
      cases ha : s.ic.fillAlloc p x i with
      | true =>
          obtain ⟨-, -, hext, -, hrvd, -⟩ := Icache.fillNext_of_alloc ha
          refine ⟨by rw [hrvd]; exact Nat.zero_le _, ?_⟩
          rw [hext, cnt_ofBool]
          have := Bool.toNat_le (s.ic.fillSpecDone p x)
          omega
      | false =>
          obtain ⟨hext, hrvd⟩ := Icache.fillNext_of_free ha hb
          refine ⟨?_, ?_⟩
          · rw [hext, hrvd]
            exact (hi.counts i).rvd_le
          · rw [hext]
            exact (hi.counts i).ext_le

/-- A request that is held has a word left to ask for. -/
theorem hold_next (hi : Inv s) (hok : EnvOk s x) (i : Fin 4)
    (hb' : (s.ic.next p x).busy i = true) (hh : (s.ic.fillNext p x i).extHold = true) :
    (s.ic.fillNext p x i).extCnt.toNat < 2 := by
  cases hb : s.ic.busy i with
  | true =>
      obtain ⟨hext, -, -, -⟩ := counts_of_busy (p := p) hi hok hb
      obtain ⟨-, -, -, -, hhold, -⟩ := Icache.fillNext_of_busy (p := p) (x := x) hb
      rw [hhold, Bool.and_eq_true, Bool.not_eq_true', Icache.gntOrPmpErr,
        Bool.or_eq_false_iff] at hh
      have := extCnt_lt_of_fillExtReq hi (fillExtReq_of_fillExtArb hh.1)
      simp only [Icache.gntNotPmpErr, hh.2.1, Bool.false_and, Bool.and_false,
        Bool.toNat_false] at hext
      omega
  | false =>
      have ha : s.ic.fillAlloc p x i = true := by
        rw [Icache.busy_next, hb] at hb'
        simpa using hb'
      obtain ⟨-, -, hext, -⟩ := Icache.fillNext_of_alloc ha
      rw [hext, cnt_ofBool]
      have := Bool.toNat_le (s.ic.fillSpecDone p x)
      omega

/-- The ages of the buffers follow the order of their allocation. -/
theorem aged_next (hi : Inv s) : Aged (s.next p x).ic.busy (s.next p x).ic.older
    (s.next p x).order :=
  hi.aged.step (fun _ => newBuf_eq_some.symm) (fun _ => Icache.not_busy_of_fillAlloc)
    (Icache.busy_next p s.ic x) fun _ h => Icache.older_next h

/-- What a request of a buffer tells of an older one. -/
theorem fillExtDone_of_request (hi : Inv s) {pre post : List (Fin 4)}
    (heq : s.order = pre ++ i :: post) (hj : j ∈ pre)
    (h : 0 < (s.ic.fillNext p x i).extCnt.toNat ∨ (s.ic.fillNext p x i).extHold = true) :
    s.ic.fillExtDone p x j = true := by
  have hbi : s.ic.busy i = true := (hi.aged.mem i).mp (by simp [heq])
  have hbj : s.ic.busy j = true := (hi.aged.mem j).mp (by simp [heq, hj])
  obtain ⟨-, -, -, hext, hhold, -⟩ := Icache.fillNext_of_busy (p := p) (x := x) hbi
  cases harb : s.ic.fillExtArb p x i with
  | true =>
      have hreq : s.ic.fillExtReq p x j = false := by
        obtain ⟨pre', post', heq', -, hpre⟩ :=
          (hi.aged.arb_iff fun _ => busy_of_fillExtReq).mp harb
        exact hpre j ((hi.aged.older_iff heq' j).mp ((hi.aged.older_iff heq j).mpr hj))
      simpa [Icache.fillExtReq, hbj] using hreq
  | false =>
      rw [hext, hhold, harb] at h
      simp only [Bool.false_and, cnt_add_false, Bool.false_eq_true, or_false] at h
      exact fillExtDone_of_stopped (stopped_of_pre hi heq (Or.inl h) j hj)

/-- No younger buffer asks the bus before an older one has stopped asking. -/
theorem stopped_pairwise_next (hi : Inv s) : (s.next p x).order.Pairwise fun j i =>
    0 < (s.ic.fillNext p x i).extCnt.toNat ∨ (s.ic.fillNext p x i).extHold = true →
      (s.ic.fillNext p x j).stopped = true := by
  have hbusy : ∀ i ∈ s.order, s.ic.busy i = true := fun i h => (hi.aged.mem i).mp h
  refine List.pairwise_append.mpr ⟨?_, ?_, ?_⟩
  · refine List.Pairwise.filter _ ?_
    refine List.pairwise_iff_forall_sublist.mpr fun {j i} hsub h => ?_
    have hji := List.pairwise_iff_forall_sublist.mp hi.aged.pairwise hsub
    have hmi : i ∈ s.order := hsub.subset (by simp)
    have hmj : j ∈ s.order := hsub.subset (by simp)
    obtain ⟨pre, post, heq⟩ := List.append_of_mem hmi
    have hpre : j ∈ pre := (hi.aged.older_iff heq j).mp hji.1
    exact stopped_next (hbusy j hmj) (fillExtDone_of_request hi heq hpre h)
  · cases s.newBuf p x <;> simp
  · intro j hj i hmem h
    have ha : s.ic.fillAlloc p x i = true :=
      newBuf_eq_some.mp (Option.mem_toList.mp hmem)
    have hbj := hbusy j (List.mem_filter.mp hj).1
    obtain ⟨-, -, hext, hhold, -⟩ := Icache.fillNext_of_alloc ha
    have hspec : s.ic.specReq p x = true := by
      rw [hext, hhold, cnt_ofBool, Icache.fillSpecDone, Icache.fillSpecHold] at h
      by_contra hne
      rw [Bool.not_eq_true] at hne
      simp [hne] at h
    have hnone : s.ic.fillExtReq p x j = false := by
      simp only [Icache.specReq, Bool.and_eq_true, Bool.not_eq_true', anyOf_eq_false] at hspec
      exact hspec.2 j
    refine stopped_next hbj ?_
    simpa [Icache.fillExtReq, hbj] using hnone

/-! ### The requests without an answer -/

/-- The beats that a busy buffer owes: an answer takes the first one away, and a grant adds one at
the end. -/
theorem beats_of_busy (hi : Inv s) (hok : EnvOk s x) (hb : s.ic.busy i = true) :
    beats (s.ic.fillNext p x) i
      = (beats s.ic.fb i).drop (s.ic.fillRvdArb p x i).toNat
        ++ if s.ic.fillExtArb p x i && Icache.gntNotPmpErr x
          then [(i, (s.ic.fb i).beatAddr (s.ic.fb i).extCnt.toNat)] else [] := by
  obtain ⟨hext, hrvd, hle, -⟩ := counts_of_busy (p := p) hi hok hb
  obtain ⟨-, -, -, -, -, -, -, haddr, -⟩ := Icache.fillNext_of_busy (p := p) (x := x) hb
  rw [beats, beats, FillBuf.beats_step haddr hrvd hext hle, List.map_append, List.map_drop]
  cases s.ic.fillExtArb p x i && Icache.gntNotPmpErr x <;> rfl

/-- The answer takes the first request off. -/
theorem received_eq (hi : Inv s) (hok : EnvOk s x) :
    (s.order.flatMap fun i => (beats s.ic.fb i).drop (s.ic.fillRvdArb p x i).toNat)
      = s.pending.drop (if x.instrRvalid then 1 else 0) := by
  rw [hi.pending]
  cases hrv : x.instrRvalid with
  | false =>
      have hno : ∀ i, s.ic.fillRvdArb p x i = false := fun i => by
        simp [Icache.fillRvdArb, hrv]
      simp [hno]
  | true =>
      obtain ⟨i, pre, post, heq, hlt, hpre, hiff⟩ :=
        fillRvdArb_of_rvalid (p := p) hi hrv (hok hrv)
      refine Aged.flatMap_shift hi.aged.nodup heq hpre ?_ ?_ ?_
      · obtain ⟨l, hl⟩ := FillBuf.beats_eq_cons _ hlt
        simp [beats, hl]
      · intro j _ hne
        have hno : s.ic.fillRvdArb p x j = false := by
          rw [← Bool.not_eq_true, hiff]
          exact hne
        simp [hno]
      · rw [(hiff i).mpr rfl, Bool.toNat_true]

/-- The request that a buffer has on the bus. -/
theorem instrAddr_of_fillExtArb (hany : anyOf (s.ic.fillExtReq p x) = true)
    (hiff : ∀ j, s.ic.fillExtArb p x j = true ↔ j = i) :
    s.ic.instrAddr p x ++ 0#2 = (s.ic.fb i).beatAddr (s.ic.fb i).extCnt.toNat := by
  have hor : orOf (s.ic.fillExtArb p x) (fun i => (s.ic.fb i).extReqAddr)
      = (s.ic.fb i).extReqAddr :=
    orOf_of_unique ((hiff i).mpr rfl) fun j hj => (hiff j).mp hj
  rw [Icache.instrAddr, if_pos hany, hor, FillBuf.extReqAddr, FillBuf.extOff_eq,
    FillBuf.beatAddr]

/-- The grant of a buffer's request puts it to the end. -/
theorem requested_eq (hi : Inv s) (hok : EnvOk s x)
    (hany : anyOf (s.ic.fillExtReq p x) = true) :
    s.order.flatMap (beats (s.ic.fillNext p x))
      = s.pending.drop (if x.instrRvalid then 1 else 0) ++ s.newReq p x := by
  obtain ⟨i, pre, post, heq, -, -, hpost, hiff⟩ := fillExtArb_of_fillExtReq hi hany
  have hbusy : ∀ i ∈ s.order, s.ic.busy i = true := fun i h => (hi.aged.mem i).mp h
  have hissuer : s.issuer p x = some i := by
    rw [issuer, if_pos hany]
    exact find_eq_some ((hiff i).mpr rfl) fun j hj => (hiff j).mp hj
  rw [← received_eq (p := p) hi hok]
  cases hg : Icache.gntNotPmpErr x with
  | false =>
      have hnew : s.newReq p x = [] := by simp [newReq, granted, hg]
      rw [hnew, List.append_nil]
      refine List.flatMap_congr fun j hj => ?_
      rw [beats_of_busy hi hok (hbusy j hj), hg]
      simp
  | true =>
      have hnew : s.newReq p x = [(i, (s.ic.fb i).beatAddr (s.ic.fb i).extCnt.toNat)] := by
        rw [newReq, hissuer, instrAddr_of_fillExtArb hany hiff]
        simp [granted, Icache.instrReq, hany, hg]
      rw [hnew]
      refine Aged.flatMap_extend hi.aged.nodup heq (fun j hj => ?_) (fun j hj hne => ?_) ?_
      · have hnil : beats s.ic.fb j = [] := beats_eq_nil (by rw [(hpost j hj).1]; omega)
        simp [hnil]
      · have hno : s.ic.fillExtArb p x j = false := by
          rw [← Bool.not_eq_true, hiff]
          exact hne
        rw [beats_of_busy hi hok (hbusy j hj), hno]
        simp
      · rw [beats_of_busy hi hok (hbusy i (by simp [heq])), (hiff i).mpr rfl, hg]
        simp

/-- A new buffer has the first beat of its line missing if the lookup got it granted. -/
theorem beats_of_alloc (ha : s.ic.fillAlloc p x i = true) :
    beats (s.ic.fillNext p x) i =
      if s.ic.fillSpecDone p x then [(i, wordOfAddr (s.ic.lookupAddrIc0 x) ++ 0#2)] else [] := by
  obtain ⟨-, -, hext, -, hrvd, haddr, -⟩ := Icache.fillNext_of_alloc ha
  cases hs : s.ic.fillSpecDone p x with
  | false => exact beats_eq_nil (by rw [hext, hs, cnt_ofBool]; exact Nat.zero_le _)
  | true =>
      have hword : (s.ic.lookupAddrIc0 x).extractLsb' 3 29
          ++ ((s.ic.lookupAddrIc0 x).extractLsb' 2 1 + BitVec.ofNat 1 0)
          = wordOfAddr (s.ic.lookupAddrIc0 x) := by
        rw [BitVec.add_zero]
        exact BitVec.extractLsb'_append_extractLsb'_eq_extractLsb' rfl
      rw [beats, FillBuf.beats, hext, hrvd, hs, cnt_ofBool]
      simp only [Bool.toNat_true, BitVec.toNat_ofNat, Nat.zero_mod, Nat.sub_zero,
        List.range'_one, List.map_cons, List.map_nil, if_true, FillBuf.beatAddr,
        FillBuf.beatOff, FillBuf.firstOff, haddr, hword]

/-- Without a request of a buffer only a lookup makes one. -/
theorem received_of_none (hi : Inv s) (hok : EnvOk s x)
    (hany : anyOf (s.ic.fillExtReq p x) = false) :
    s.order.flatMap (beats (s.ic.fillNext p x))
      = s.pending.drop (if x.instrRvalid then 1 else 0) := by
  rw [← received_eq (p := p) hi hok]
  refine List.flatMap_congr fun i hmem => ?_
  have hno : s.ic.fillExtArb p x i = false := by
    rw [anyOf_eq_false] at hany
    simp [Icache.fillExtArb, arb, hany i]
  rw [beats_of_busy hi hok ((hi.aged.mem i).mp hmem), hno]
  simp

/-- The request of a lookup is the first beat of its buffer. -/
theorem newReq_of_none (hany : anyOf (s.ic.fillExtReq p x) = false) :
    s.newReq p x = (s.newBuf p x).toList.flatMap (beats (s.ic.fillNext p x)) := by
  have hissuer : s.issuer p x = s.newBuf p x := by
    rw [issuer, hany]
    rfl
  cases hn : s.newBuf p x with
  | none =>
      have hl : s.ic.lookupGrantIc0 p x = false := by
        by_contra hne
        obtain ⟨i, ha⟩ := Icache.exists_fillAlloc ((Bool.not_eq_false _).mp hne)
        rw [newBuf_eq_some.mpr ha] at hn
        cases hn
      simp [newReq, granted, Icache.instrReq, hany, hl]
  | some i =>
      have ha : s.ic.fillAlloc p x i = true := newBuf_eq_some.mp hn
      have hl : s.ic.lookupGrantIc0 p x = true := by
        simp only [Icache.fillAlloc, Bool.and_eq_true] at ha
        exact ha.2
      have hspec : s.ic.fillSpecDone p x = s.granted p x := by
        simp [Icache.fillSpecDone, Icache.specReq, granted, Icache.instrReq, hany, hl]
      rw [newReq, hissuer, hn, Icache.instrAddr, hany, Option.toList_some, List.flatMap_cons,
        List.flatMap_nil, List.append_nil, beats_of_alloc ha, hspec]
      rfl

/-- A buffer that is done misses nothing. -/
theorem beats_of_done (hi : Inv s) (hok : EnvOk s x) (hb : s.ic.busy i = true)
    (hd : s.ic.fillDone p x i = true) : beats (s.ic.fillNext p x) i = [] := by
  simp only [Icache.fillDone, Icache.fillRvdDone, Bool.and_eq_true, beq_iff_eq] at hd
  obtain ⟨-, hdone, hcnt⟩ := hd
  have hext : s.ic.fillExtArb p x i = false := by
    simp [Icache.fillExtArb, arb, Icache.fillExtReq, hdone]
  have hnil : beats s.ic.fb i = [] := beats_eq_nil (by rw [hcnt])
  rw [beats_of_busy hi hok hb, hext, hnil]
  simp

/-- The outstanding requests are the beats of the buffers, the oldest buffer first. -/
theorem pending_next (hi : Inv s) (hok : EnvOk s x) :
    (s.next p x).pending = (s.next p x).order.flatMap (beats (s.ic.fillNext p x)) := by
  have hdone : (s.order.filter fun i => !s.ic.fillDone p x i).flatMap
      (beats (s.ic.fillNext p x)) = s.order.flatMap (beats (s.ic.fillNext p x)) :=
    Aged.flatMap_filter fun i hmem hd =>
      beats_of_done hi hok ((hi.aged.mem i).mp hmem) (by simpa using hd)
  simp only [next, Aged.nextOrder, List.flatMap_append, hdone]
  cases hany : anyOf (s.ic.fillExtReq p x) with
  | true =>
      have hnew : (s.newBuf p x).toList.flatMap (beats (s.ic.fillNext p x)) = [] := by
        refine List.flatMap_eq_nil_iff.mpr fun i hmem => ?_
        rw [beats_of_alloc (newBuf_eq_some.mp (Option.mem_toList.mp hmem))]
        simp [Icache.fillSpecDone, Icache.specReq, hany]
      rw [requested_eq hi hok hany, hnew, List.append_nil]
  | false => rw [received_of_none hi hok hany, newReq_of_none hany]

/-- **Step lemma.** The invariant survives every cycle in which the bus answers only what is
outstanding. -/
theorem inv_next (hi : Inv s) (hok : EnvOk s x) : Inv (s.next p x) where
  aged := aged_next hi
  counts := counts_next hi hok
  hold := hold_next hi hok
  stopped := stopped_pairwise_next hi
  pending := pending_next hi hok

/-- Nothing is outstanding at the start. -/
theorem inv_start (h : Start s) : Inv s where
  aged := by
    rw [h.order]
    exact Aged.empty h.ic.busy
  counts := fun i => by
    constructor <;> rw [h.ic.extCnt]
    · rw [h.ic.rvdCnt]
    · exact Nat.zero_le _
  hold := fun i hb => by
    rw [h.ic.busy] at hb
    cases hb
  stopped := by
    rw [h.order]
    exact List.Pairwise.nil
  pending := by rw [h.pending, h.order]; rfl

/-! ### Every run -/

/-- The requests without an answer by the counters of the busy buffers. -/
theorem length_pending (hi : Inv s) : s.pending.length =
    ∑ i with s.ic.busy i = true, ((s.ic.fb i).extCnt.toNat - (s.ic.fb i).rvdCnt.toNat) := by
  have hset : (Finset.univ.filter fun i => s.ic.busy i = true) = s.order.toFinset := by
    ext i
    simp [hi.aged.mem]
  rw [hset, List.sum_toFinset _ hi.aged.nodup, hi.pending, List.length_flatMap]
  simp [beats]

/-- Who has made a request that is granted. -/
theorem issuer_of_granted (hi : Inv s) (hg : s.granted p x = true) :
    ∃ i, s.newReq p x = [(i, s.ic.instrAddr p x ++ 0#2)] ∧
      (s.ic.fillExtArb p x i = true ∨ s.ic.fillAlloc p x i = true) := by
  obtain ⟨i, hsome, hor⟩ : ∃ i, s.issuer p x = some i ∧
      (s.ic.fillExtArb p x i = true ∨ s.ic.fillAlloc p x i = true) := by
    cases hany : anyOf (s.ic.fillExtReq p x) with
    | true =>
        obtain ⟨i, -, -, -, -, -, -, hiff⟩ := fillExtArb_of_fillExtReq hi hany
        refine ⟨i, ?_, Or.inl ((hiff i).mpr rfl)⟩
        rw [issuer, if_pos hany]
        exact find_eq_some ((hiff i).mpr rfl) fun j hj => (hiff j).mp hj
    | false =>
        have hl : s.ic.lookupGrantIc0 p x = true := by
          simp only [granted, Icache.instrReq, hany, Bool.or_false, Bool.and_eq_true] at hg
          exact hg.1.2
        obtain ⟨i, ha⟩ := Icache.exists_fillAlloc hl
        refine ⟨i, ?_, Or.inr ha⟩
        rw [issuer, hany]
        exact newBuf_eq_some.mpr ha
  exact ⟨i, by rw [newReq, hg, hsome]; rfl, hor⟩

/-- What holds in a cycle: the age matrix gives the order of the allocations; the counters are
in order and add up to the requests without an answer; a granted request belongs to the buffer
that the arbitration has let out or that is new; the answer goes to the buffer that has made
the first of these requests, at the offset that it asked for; and a buffer with such a request
stays. -/
structure Routed (p : IcacheParams) (s : IcacheObs) (x : IcacheIn) : Prop where
  aged : Aged s.ic.busy s.ic.older s.order
  total : IsStrictTotalOrder {i // s.ic.busy i = true} fun j i => s.ic.older i j = true
  counts : ∀ i, (s.ic.fb i).rvdCnt.toNat ≤ (s.ic.fb i).extCnt.toNat ∧
    (s.ic.fb i).extCnt.toNat ≤ 2
  unanswered : s.pending.length =
    ∑ i with s.ic.busy i = true, ((s.ic.fb i).extCnt.toNat - (s.ic.fb i).rvdCnt.toNat)
  issued : s.granted p x = true → ∃ i, s.newReq p x = [(i, s.ic.instrAddr p x ++ 0#2)] ∧
    (s.ic.fillExtArb p x i = true ∨ s.ic.fillAlloc p x i = true)
  taken : x.instrRvalid = true → ∃ i a rest, s.pending = (i, a) :: rest ∧
    s.ic.busy i = true ∧ (∀ j, s.ic.fillRvdArb p x j = true ↔ j = i) ∧
    a = (s.ic.fb i).addr.extractLsb' 3 29 ++ (s.ic.fb i).rvdOff ++ 0#2
  kept : ∀ r ∈ s.pending, s.ic.busy r.1 = true ∧ s.ic.fillDone p x r.1 = false

/-- The invariant says to which buffer an answer goes, and that it is the one that has asked
first. -/
theorem routed_of_inv (hi : Inv s) (hok : EnvOk s x) : Routed p s x where
  aged := hi.aged
  total := hi.aged.strictTotal
  counts := fun i => ⟨(hi.counts i).rvd_le, (hi.counts i).ext_le⟩
  unanswered := length_pending hi
  issued := issuer_of_granted hi
  taken := by
    intro hrv
    obtain ⟨i, pre, post, heq, hlt, hpre, hiff⟩ :=
      fillRvdArb_of_rvalid (p := p) hi hrv (hok hrv)
    obtain ⟨l, hl⟩ := FillBuf.beats_eq_cons _ hlt
    have hnil : pre.flatMap (beats s.ic.fb) = [] := List.flatMap_eq_nil_iff.mpr hpre
    have hpend : s.pending = (i, (s.ic.fb i).beatAddr (s.ic.fb i).rvdCnt.toNat)
        :: (l.map (Prod.mk i) ++ post.flatMap (beats s.ic.fb)) := by
      rw [hi.pending, heq, List.flatMap_append, hnil, List.flatMap_cons, beats, hl]
      rfl
    refine ⟨i, _, _, hpend, (hi.aged.mem i).mp (by simp [heq]), hiff, ?_⟩
    rw [FillBuf.rvdOff_eq, FillBuf.beatAddr]
  kept := by
    intro r hr
    rw [hi.pending, List.mem_flatMap] at hr
    obtain ⟨i, hmem, hr⟩ := hr
    have hlt : (s.ic.fb i).rvdCnt.toNat < (s.ic.fb i).extCnt.toNat := by
      by_contra hle
      rw [beats_eq_nil (by omega)] at hr
      cases hr
    obtain ⟨a, -, rfl⟩ := List.mem_map.mp hr
    refine ⟨(hi.aged.mem i).mp hmem, ?_⟩
    have hcnt : (s.ic.fb i).rvdCnt ≠ (s.ic.fb i).extCnt := by
      intro h
      rw [h] at hlt
      exact absurd hlt (lt_irrefl _)
    simp [Icache.fillDone, Icache.fillRvdDone, hcnt]

/-- **The routing of the responses.** In every cycle of every run in which the bus answers
granted requests only, each answer goes to the buffer that made the request. -/
theorem responses_routed (p : IcacheParams) (s₀ : IcacheObs) (h0 : Start s₀)
    (ins : List IcacheIn) (x : IcacheIn)
    (hok : Machine.Along (next p) EnvOk s₀ (ins ++ [x])) :
    Routed p (Machine.run (next p) s₀ ins) x := by
  obtain ⟨hins, hx⟩ := Machine.along_concat.mp hok
  have hi : Inv (Machine.run (next p) s₀ ins) :=
    Machine.run_induction Inv (fun _ _ hi hok => inv_next hi hok) (inv_start h0) hins
  exact routed_of_inv hi hx

/-- The cache with all registers and RAMs zero. -/
def reset : IcacheObs := ⟨.quiet false false 0#8, [], []⟩

/-- The cache in `reset` has come out of its reset, without a request. -/
theorem start_reset : Start reset := ⟨Icache.atReset_quiet 0#8, rfl, rfl⟩

/-- A branch to the second word of a line, which the bus grants at once, and the answer. -/
theorem responses_routed_branch :
    Routed ⟨false, false, false⟩
      (Machine.run (next ⟨false, false, false⟩) reset
        [{ IcacheIn.idle with req := true, branch := true, addr := 0x1004#32, instrGnt := true }])
      { IcacheIn.idle with instrRvalid := true } :=
  responses_routed _ _ start_reset _ _ (by decide)

end IcacheObs

end CocoIbex
