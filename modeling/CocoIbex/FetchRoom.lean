import CocoIbex.PrefetchBuffer

/-!
# The Room in the Fetch FIFO

The prefetch buffer does not count its requests: it makes a new one when the second entry of the
FIFO is free and the second place of the queue is. The words in the FIFO, the requests in the
queue whose words are still wanted and a wanted request that waits for its grant are then never
more than the FIFO has entries, so that no word is pushed into a full FIFO.

The two tests look at one entry each, and it is the order of the entries that makes them say
something about a number: the valid ones are the first ones, in the FIFO as in the queue. A
request that a branch has made void stays in the queue until its answer comes, but its word is
dropped, and so it takes no room (`wanted`).

The assertions of the source on a push into a full FIFO are `PushFull` and `PushPopFull`.

## Main results

* `fifo_never_overflows` — after any run the valid entries are the first ones, there is room for
  all words that are still wanted, and neither of the two assertions fails.
-/

namespace CocoIbex

namespace FetchFifo

variable (s : FetchFifo) (x : FifoIn)

/-- The number of valid entries. -/
def occupied : ℕ := s.valid0.toNat + s.valid1.toNat + s.valid2.toNat

/-- `IbexFetchFifoPushFull`. -/
def PushFull : Prop := x.inValid = true → s.valid2 = false ∨ x.clear = true

/-- `IbexFetchFifoPushPopFull`. -/
def PushPopFull : Prop :=
  (x.inValid && s.popFifo x) = true → s.valid2 = false ∨ x.clear = true

variable {s x}

/-- The contents are as many as the entries that are occupied. -/
theorem length_contents (h : s.WF) : s.contents.length = s.occupied := by
  obtain ⟨h0, h1⟩ := h
  simp only [contents, occupied]
  cases h2 : s.valid2 with
  | true => simp [h1 h2, h0 (h1 h2)]
  | false =>
      cases h1' : s.valid1 with
      | true => simp [h0 h1']
      | false => cases s.valid0 <;> simp

/-- With less than three entries the last one is free. -/
theorem valid2_of_occupied (h : s.WF) (hlt : s.occupied < 3) : s.valid2 = false := by
  by_contra hne
  have h2 : s.valid2 = true := (Bool.not_eq_false _).mp hne
  simp [occupied, h2, h.valid1 h2, h.valid0 (h.valid1 h2)] at hlt

/-- One cycle adds at most the word that comes in. -/
theorem occupied_next (h : s.WF) (hfull : x.inValid = true → s.valid2 = false) :
    (s.next x).occupied ≤ s.occupied + x.inValid.toNat := by
  rw [← length_contents (wf_next h), ← length_contents h, contents_next h hfull]
  cases x.clear with
  | true => simp
  | false =>
      have hwords : (s.words x).length = s.contents.length + x.inValid.toNat := by
        rw [words]
        cases x.inValid <;> simp
      simp only [Bool.false_eq_true, if_false, List.length_drop, hwords]
      omega

/-- A FIFO that is cleared has no entries. -/
theorem occupied_next_of_clear (h : x.clear = true) : (s.next x).occupied = 0 := by
  simp [occupied, next, h]

end FetchFifo

/-- The request is under way and its word is still wanted. -/
def ReqSlot.wanted (r : ReqSlot) : Bool := r.outstanding && !r.discard

/-- The wanted requests in two places. -/
theorem ReqSlot.wanted_list {a b : ReqSlot} (h : Filled a b) :
    a.wanted.toNat + b.wanted.toNat = ((list a b).filter fun r => !r.discard).length := by
  obtain ⟨rfl, rfl⟩ | ⟨ha, rfl⟩ | ⟨ha, hb⟩ := h
  · rfl
  · cases hd : a.discard <;> simp [list, wanted, empty, ha, hd]
  · cases hd : a.discard <;> cases hd' : b.discard <;> simp [list, wanted, ha, hb, hd, hd']

namespace PrefetchBuffer

/-- The number of requests whose words are still wanted: in the queue and held back. -/
def wanted (s : PrefetchBuffer) : ℕ :=
  s.slot0.wanted.toNat + s.slot1.wanted.toNat + (s.validReqQ && !s.discardReqQ).toNat

/-- The words that are in the FIFO or still to come have room there. -/
structure Room (s : PrefetchBuffer) : Prop where
  wf : s.WF
  le : s.fifo.occupied + s.wanted ≤ 3

variable {s : PrefetchBuffer} {x : PrefetchIn}

/-- A word that is pushed was wanted. -/
theorem Room.inValid (h : s.Room) (hv : s.fifoValid x = true) :
    s.slot0.wanted = true ∧ s.fifo.valid2 = false := by
  have hw : s.slot0.wanted = true := by
    simp only [fifoValid, rvalidOrPmpErr, Bool.and_eq_true] at hv
    simp [ReqSlot.wanted, hv.1.1, hv.2]
  refine ⟨hw, FetchFifo.valid2_of_occupied h.wf.fifo ?_⟩
  have hle := h.le
  simp only [wanted, hw, Bool.toNat_true] at hle
  omega

/-- A request that is granted is wanted unless it is made for an address that a branch has left. -/
theorem wanted_grantedSlot (s : PrefetchBuffer) (x : PrefetchIn) :
    ((s.grantedSlot x).filter fun r => !r.discard).length
      = (s.granted x && !s.discardReqD x).toNat := by
  cases hg : s.granted x <;> cases hd : s.discardReqD x <;> simp [grantedSlot, hg, hd]

/-- The wanted requests of the queue after a cycle without a branch. -/
theorem wanted_slots_next (h : s.WF) (hb : x.branch = false) :
    (s.next x).slot0.wanted.toNat + (s.next x).slot1.wanted.toNat + (s.fifoValid x).toNat
      = s.slot0.wanted.toNat + s.slot1.wanted.toNat
        + (s.granted x && !s.discardReqD x).toNat := by
  obtain ⟨hf, hp⟩ := slots_next (x := x) h
  have hmap : s.pending.map (ReqSlot.mark x.branch) = s.pending := by
    rw [hb]
    exact List.map_id' _
  rw [ReqSlot.wanted_list hf, ReqSlot.wanted_list h.slots, ← pending, ← pending, hp, hmap,
    ← wanted_grantedSlot, ← List.length_append, ← List.filter_append]
  cases hr : s.rvalidOrPmpErr x with
  | false => simp [fifoValid, hr]
  | true =>
      have h0 : s.slot0.outstanding = true := by
        simp only [rvalidOrPmpErr, Bool.and_eq_true] at hr
        exact hr.1
      rw [pending_of_outstanding h0]
      cases hd : s.slot0.discard <;> simp [fifoValid, hr, hd]

/-- The first request after a branch, or none. -/
theorem wanted_next_of_branch (h : s.WF) (hb : x.branch = true) : (s.next x).wanted ≤ 1 := by
  obtain ⟨hf, hp⟩ := slots_next (x := x) h
  have hold : ((s.pending.map (ReqSlot.mark x.branch)).filter fun r => !r.discard) = [] := by
    simp [List.filter_eq_nil_iff, ReqSlot.mark, hb]
  have hdrop : ∀ l : List ReqSlot, ∀ k : ℕ,
      ((l.drop k).filter fun r => !r.discard).length ≤ (l.filter fun r => !r.discard).length :=
    fun l k => ((List.drop_sublist k l).filter _).length_le
  have hle := hdrop (s.pending.map (ReqSlot.mark x.branch) ++ s.grantedSlot x)
    (if s.rvalidOrPmpErr x then 1 else 0)
  rw [← hp, List.filter_append, hold, List.nil_append, pending, ← ReqSlot.wanted_list hf,
    wanted_grantedSlot] at hle
  have hg : (s.granted x && !s.discardReqD x).toNat
      + ((s.next x).validReqQ && !(s.next x).discardReqQ).toNat ≤ 1 := by
    simp only [granted, next]
    cases s.validReq x <;> cases gntOrPmpErr x <;> cases s.discardReqD x <;> simp
  simp only [wanted]
  omega

/-- A cycle without a branch wants a new word only where there is room for it. -/
theorem wanted_next (h : s.Room) (hb : x.branch = false) :
    s.fifo.occupied + (s.next x).wanted + (s.fifoValid x).toNat ≤ 3 := by
  have hslots := wanted_slots_next h.wf hb
  have hle := h.le
  simp only [wanted] at hle ⊢
  cases hq : s.validReqQ with
  | true =>
      have hd : s.discardReqD x = s.discardReqQ := by simp [discardReqD, hq, hb]
      have hheld : (s.granted x && !s.discardReqD x).toNat
          + ((s.next x).validReqQ && !(s.next x).discardReqQ).toNat
          ≤ (!s.discardReqQ).toNat := by
        rw [hd]
        simp only [granted, next, hd, validReq, hq]
        cases gntOrPmpErr x <;> cases s.discardReqQ <;> simp
      rw [hq, Bool.true_and] at hle
      omega
  | false =>
      have hnew : (s.granted x && !s.discardReqD x).toNat
          + ((s.next x).validReqQ && !(s.next x).discardReqQ).toNat ≤ (s.validNewReq x).toNat := by
        simp only [granted, next, validReq, hq, Bool.false_or]
        cases s.validNewReq x <;> cases gntOrPmpErr x <;> cases s.discardReqD x <;> simp
      have hroom : s.validNewReq x = true →
          s.fifo.occupied + (s.slot0.wanted.toNat + s.slot1.wanted.toNat) ≤ 2 := by
        intro hn
        simp only [validNewReq, hb, Bool.or_false, FetchFifo.inReady, Bool.and_eq_true,
          Bool.not_eq_true'] at hn
        have h2 : s.fifo.valid2 = false := by
          by_contra hne
          rw [h.wf.fifo.valid1 ((Bool.not_eq_false _).mp hne)] at hn
          cases hn.1.2
        have hocc : s.fifo.occupied ≤ 1 := by
          rw [FetchFifo.occupied, hn.1.2, h2]
          exact Bool.toNat_le _
        have h0 := Bool.toNat_le s.slot0.wanted
        have h1 : s.slot1.wanted = false := by simp [ReqSlot.wanted, hn.2]
        rw [h1, Bool.toNat_false]
        omega
      cases hn : s.validNewReq x with
      | false =>
          rw [hn, Bool.toNat_false] at hnew
          omega
      | true =>
          have := hroom hn
          rw [hn, Bool.toNat_true] at hnew
          omega

/-- The room is kept. -/
theorem Room.next (h : s.Room) : (s.next x).Room := by
  refine ⟨wf_next h.wf, ?_⟩
  have hfifo : (s.next x).fifo = s.fifo.next (s.fifoIn x) := rfl
  cases hb : x.branch with
  | true =>
      rw [hfifo, FetchFifo.occupied_next_of_clear (x := s.fifoIn x) hb]
      have := wanted_next_of_branch h.wf hb
      omega
  | false =>
      have hocc : (s.fifo.next (s.fifoIn x)).occupied
          ≤ s.fifo.occupied + (s.fifoValid x).toNat :=
        FetchFifo.occupied_next h.wf.fifo fun hv => (h.inValid hv).2
      have := wanted_next (x := x) h hb
      rw [hfifo]
      omega

/-- The FIFO has room after a reset. -/
theorem room_reset (s : PrefetchBuffer) : s.reset.Room where
  wf := wf_reset s
  le := by simp [reset, FetchFifo.occupied, wanted, ReqSlot.wanted, ReqSlot.empty]

/-- **The fetch FIFO never overflows.** After any run the valid entries are the first ones,
so are the places of the queue, there is room for all words that are wanted, and no word is
pushed into a full FIFO. -/
theorem fifo_never_overflows (s : PrefetchBuffer) (ins : List PrefetchIn) :
    let t := Machine.run PrefetchBuffer.next s.reset ins
    (t.fifo.valid1 = true → t.fifo.valid0 = true) ∧
      (t.fifo.valid2 = true → t.fifo.valid1 = true) ∧
      t.fifo.occupied + t.wanted ≤ 3 ∧
      (t.slot1.outstanding = true → t.slot0.outstanding = true) ∧
      ∀ x, t.fifo.PushFull (t.fifoIn x) ∧ t.fifo.PushPopFull (t.fifoIn x) := by
  intro t
  have h : t.Room := Machine.run_induction Room (fun s x h _ => h.next) (room_reset s)
    (Machine.along_of_forall (fun _ _ => trivial) _ ins)
  refine ⟨h.wf.fifo.valid0, h.wf.fifo.valid1, h.le, ?_, fun x => ⟨?_, ?_⟩⟩
  · intro h1
    obtain ⟨-, h1'⟩ | ⟨-, h1'⟩ | ⟨h0, -⟩ := h.wf.slots
    · simp [h1', ReqSlot.empty] at h1
    · simp [h1', ReqSlot.empty] at h1
    · exact h0
  · exact fun hv => Or.inl (h.inValid hv).2
  · intro hv
    rw [Bool.and_eq_true] at hv
    exact Or.inl (h.inValid hv.1).2

end PrefetchBuffer

end CocoIbex
