import CocoIbex.FetchFifo
import CocoIbex.Machine

/-!
# The Prefetch Buffer

`ibex_prefetch_buffer`: it requests one word after the other from the instruction memory, with
at most two requests unanswered and one more waiting for its grant, and puts the answers into
the fetch FIFO. A branch makes the requests under way void. A request that the PMP stops gets
neither grant nor answer from the bus; both are faked.

The source keeps the outstanding requests in bit vectors, one bit a request for each property,
and shifts them with an answer. Here they are two places with a record each (`ReqSlot`), which
form a queue; a place says whether its word is still wanted, and whether the PMP has stopped it.
The request that waits for its grant is a flag with an address beside them.

The fetch FIFO is part of the state, and its input is the answer to the first place.

## Main results

* `wf_next` and `slots_next` — the places are a queue: a granted request goes in at its end, an
  answer takes the first one off, and a branch voids those that are there;
* `unanswered_next` — the places count the requests that the bus has granted and not answered;
* `alone_next` — a branch leaves the words of the new address alone.
-/

namespace CocoIbex

/-- One place in the queue of the granted requests: `rdata_outstanding_q`,
`branch_discard_q` and `rdata_pmp_err_q`. -/
@[ext]
structure ReqSlot where
  outstanding : Bool
  discard : Bool
  pmpErr : Bool
  deriving DecidableEq

/-- An empty place. -/
def ReqSlot.empty : ReqSlot := ⟨false, false, false⟩

/-- A branch makes a request void. -/
def ReqSlot.mark (branch : Bool) (r : ReqSlot) : ReqSlot :=
  { r with discard := branch || r.discard }

/-- The requests in two places. -/
def ReqSlot.list (a b : ReqSlot) : List ReqSlot :=
  if b.outstanding then [a, b] else if a.outstanding then [a] else []

/-- The places are filled from the front. -/
def ReqSlot.Filled (a b : ReqSlot) : Prop :=
  (a = .empty ∧ b = .empty) ∨ (a.outstanding = true ∧ b = .empty) ∨
    (a.outstanding = true ∧ b.outstanding = true)

/-- The shift takes the first request off. -/
theorem ReqSlot.filled_shift {a b : ReqSlot} (h : Filled a b) :
    Filled b .empty ∧ list b .empty = (list a b).drop 1 := by
  obtain ⟨rfl, rfl⟩ | ⟨ha, rfl⟩ | ⟨ha, hb⟩ := h
  · exact ⟨Or.inl ⟨rfl, rfl⟩, rfl⟩
  · exact ⟨Or.inl ⟨rfl, rfl⟩, by simp [list, ha, empty]⟩
  · exact ⟨Or.inr (Or.inl ⟨hb, rfl⟩), by simp [list, hb, empty]⟩

/-- The registers of the prefetch buffer. Place 0 has the oldest request. -/
structure PrefetchBuffer where
  validReqQ : Bool
  discardReqQ : Bool
  slot0 : ReqSlot
  slot1 : ReqSlot
  storedAddrQ : BitVec 32
  fetchAddrQ : BitVec 32
  fifo : FetchFifo
  deriving DecidableEq

/-- What the prefetch buffer sees in one cycle. -/
structure PrefetchIn where
  req : Bool
  branch : Bool
  addr : BitVec 32
  ready : Bool
  instrGnt : Bool
  instrRdata : BitVec 32
  instrErr : Bool
  instrPmpErr : Bool
  instrRvalid : Bool
  deriving DecidableEq

namespace PrefetchBuffer

variable (s : PrefetchBuffer) (x : PrefetchIn)

/-! ### Requests -/

/-- `valid_new_req`. -/
def validNewReq : Bool := x.req && (s.fifo.inReady || x.branch) && !s.slot1.outstanding

/-- `valid_req`, which is `instr_req_o`. -/
def validReq : Bool := s.validReqQ || s.validNewReq x

/-- `gnt_or_pmp_err`. -/
def gntOrPmpErr : Bool := x.instrGnt || x.instrPmpErr

/-- `rvalid_or_pmp_err`. -/
def rvalidOrPmpErr : Bool := s.slot0.outstanding && (x.instrRvalid || s.slot0.pmpErr)

/-- `discard_req_d`. -/
def discardReqD : Bool := s.validReqQ && (x.branch || s.discardReqQ)

/-- `instr_addr`. -/
def instrAddr : BitVec 32 :=
  if s.validReqQ then s.storedAddrQ else if x.branch then x.addr else s.fetchAddrQ

/-- The word of `instr_addr_o`. -/
def instrWord : BitVec 30 := wordOfAddr (s.instrAddr x)

/-- `busy_o`. -/
def busy : Bool := s.slot0.outstanding || s.slot1.outstanding || s.validReq x

/-! ### The FIFO -/

/-- `fifo_valid`. -/
def fifoValid : Bool := s.rvalidOrPmpErr x && !s.slot0.discard

/-- The inputs of the FIFO. -/
def fifoIn : FifoIn where
  clear := x.branch
  inValid := s.fifoValid x
  inAddr := x.addr
  inEntry := ⟨x.instrRdata, x.instrErr || s.slot0.pmpErr⟩
  outReady := x.ready

/-- `valid_o`. -/
def valid : Bool := s.fifo.outValid (s.fifoIn x)

/-- `rdata_o`, `addr_o`, `err_o` and `err_plus2_o`. -/
def out : FetchOut := s.fifo.out (s.fifoIn x)

/-! ### The next state -/

/-- The request of the cycle is granted, or its grant is faked. -/
def granted : Bool := s.validReq x && gntOrPmpErr x

/-- Place 0 ahead of the shift. -/
def slot0N : ReqSlot where
  outstanding := s.granted x || s.slot0.outstanding
  discard := (s.granted x && s.discardReqD x) || (x.branch && s.slot0.outstanding)
    || s.slot0.discard
  pmpErr := (s.validReq x && !s.slot0.outstanding && x.instrPmpErr) || s.slot0.pmpErr

/-- Place 1 ahead of the shift. -/
def slot1N : ReqSlot where
  outstanding := (s.granted x && s.slot0.outstanding) || s.slot1.outstanding
  discard := (s.granted x && s.discardReqD x && s.slot0.outstanding)
    || (x.branch && s.slot1.outstanding) || s.slot1.discard
  pmpErr := (s.validReq x && !s.slot1.outstanding && x.instrPmpErr && s.slot0.outstanding)
    || s.slot1.pmpErr

/-- One clock edge. -/
def next : PrefetchBuffer :=
  let newReq := s.validNewReq x && !s.validReqQ
  { validReqQ := s.validReq x && !gntOrPmpErr x
    discardReqQ := s.discardReqD x
    slot0 := if s.rvalidOrPmpErr x then s.slot1N x else s.slot0N x
    slot1 := if s.rvalidOrPmpErr x then .empty else s.slot1N x
    storedAddrQ := if newReq && !gntOrPmpErr x then s.instrAddr x else s.storedAddrQ
    fetchAddrQ :=
      if x.branch || newReq then
        (if x.branch then x.addr else wordOfAddr s.fetchAddrQ ++ 0b00#2)
          + (if newReq then 4#32 else 0#32)
      else s.fetchAddrQ
    fifo := s.fifo.next (s.fifoIn x) }

/-! ### The queue of the requests -/

/-- The granted requests that are not answered, the oldest first. -/
def pending : List ReqSlot := ReqSlot.list s.slot0 s.slot1

/-- The slot of a request granted in this cycle. -/
def grantedSlot : List ReqSlot :=
  if s.granted x then [⟨true, s.discardReqD x, x.instrPmpErr⟩] else []

/-- A request that waits for its grant leaves the second place free, and all before it is
void when it is. -/
structure WF : Prop where
  fifo : s.fifo.WF
  slots : ReqSlot.Filled s.slot0 s.slot1
  held : s.validReqQ = true → s.slot1 = .empty
  discard : s.validReqQ = true → s.discardReqQ = true → s.slot0.outstanding = true →
    s.slot0.discard = true

variable {s x}

/-- With both places taken there is no request. -/
theorem validReq_of_outstanding (h : s.WF) (h1 : s.slot1.outstanding = true) :
    s.validReq x = false := by
  have hq : s.validReqQ = false := by
    refine Bool.eq_false_iff.mpr fun hq => ?_
    rw [h.held hq] at h1
    cases h1
  simp [validReq, validNewReq, hq, h1]

/-- A PMP error of the request of the cycle comes with its grant. -/
theorem validReq_and_instrPmpErr :
    (s.validReq x && x.instrPmpErr) = (s.granted x && x.instrPmpErr) := by
  simp only [granted, gntOrPmpErr]
  cases s.validReq x <;> cases x.instrPmpErr <;> simp

/-- The slot of the request of the cycle. -/
def newSlot (s : PrefetchBuffer) (x : PrefetchIn) : ReqSlot :=
  ⟨true, s.discardReqD x, x.instrPmpErr⟩

/-- A granted request goes into an empty place 0. -/
theorem slot0N_of_empty (h0 : s.slot0 = .empty) :
    s.slot0N x = if s.granted x then s.newSlot x else .empty := by
  have hp := validReq_and_instrPmpErr (s := s) (x := x)
  cases hg : s.granted x <;> simp_all [slot0N, newSlot, ReqSlot.empty]

/-- A request in place 0 stays there, and a branch voids it. -/
theorem slot0N_of_outstanding (h : s.WF) (h0 : s.slot0.outstanding = true) :
    s.slot0N x = s.slot0.mark x.branch := by
  have hd : (s.granted x && s.discardReqD x) = true → (x.branch || s.slot0.discard) = true := by
    intro hg
    simp only [discardReqD, Bool.and_eq_true, Bool.or_eq_true] at hg ⊢
    exact hg.2.2.imp_right fun hq => h.discard hg.2.1 hq h0
  ext
  · simp [slot0N, ReqSlot.mark, h0]
  · simp only [slot0N, ReqSlot.mark, h0, Bool.and_true]
    cases hg : s.granted x && s.discardReqD x <;> simp_all
  · simp [slot0N, ReqSlot.mark, h0]

/-- A granted request goes into place 1 behind the one in place 0. -/
theorem slot1N_of_empty (h1 : s.slot1 = .empty) :
    s.slot1N x = if s.granted x && s.slot0.outstanding then s.newSlot x else .empty := by
  have hp := validReq_and_instrPmpErr (s := s) (x := x)
  cases hg : s.granted x <;> cases h0 : s.slot0.outstanding <;>
    simp_all [slot1N, newSlot, ReqSlot.empty]

/-- A request in place 1 stays there, and a branch voids it. -/
theorem slot1N_of_outstanding (h : s.WF) (h1 : s.slot1.outstanding = true) :
    s.slot1N x = s.slot1.mark x.branch := by
  have hr : s.validReq x = false := validReq_of_outstanding h h1
  simp [slot1N, ReqSlot.mark, granted, hr, h1]

/-- The places ahead of the shift are the queue with the granted request. -/
theorem slotsN (h : s.WF) :
    ReqSlot.Filled (s.slot0N x) (s.slot1N x) ∧
      ReqSlot.list (s.slot0N x) (s.slot1N x)
        = s.pending.map (ReqSlot.mark x.branch) ++ s.grantedSlot x := by
  obtain ⟨h0, h1⟩ | ⟨h0, h1⟩ | ⟨h0, h1⟩ := h.slots
  · rw [slot0N_of_empty h0, slot1N_of_empty h1]
    cases hg : s.granted x <;>
      simp [ReqSlot.Filled, ReqSlot.list, pending, grantedSlot, newSlot, ReqSlot.empty, h0, h1, hg]
  · rw [slot0N_of_outstanding h h0, slot1N_of_empty h1]
    cases hg : s.granted x <;>
      simp [ReqSlot.Filled, ReqSlot.list, ReqSlot.mark, pending, grantedSlot, newSlot,
        ReqSlot.empty, h0, h1, hg]
  · rw [slot0N_of_outstanding h h0, slot1N_of_outstanding h h1]
    have hg : s.granted x = false := by simp [granted, validReq_of_outstanding h h1]
    simp [ReqSlot.Filled, ReqSlot.list, ReqSlot.mark, pending, grantedSlot, h0, h1, hg]

/-- **The places are a queue.** A granted request goes in at the end, an answer takes the
first one off, and a branch voids those that are there. -/
theorem slots_next (h : s.WF) :
    ReqSlot.Filled (s.next x).slot0 (s.next x).slot1 ∧
      (s.next x).pending
        = (s.pending.map (ReqSlot.mark x.branch) ++ s.grantedSlot x).drop
            (if s.rvalidOrPmpErr x then 1 else 0) := by
  obtain ⟨hf, hl⟩ := slotsN (x := x) h
  cases hr : s.rvalidOrPmpErr x with
  | false =>
      simp only [next, hr, Bool.false_eq_true, if_false, pending]
      exact ⟨hf, hl⟩
  | true =>
      obtain ⟨hf', hl'⟩ := ReqSlot.filled_shift hf
      rw [hl] at hl'
      simp only [next, hr, if_true, pending]
      exact ⟨hf', hl'⟩

/-- A request that is not granted leaves the second place free. -/
theorem slot1N_of_not_granted (h : s.WF) (hr : s.validReq x = true) (hg : s.granted x = false) :
    s.slot1N x = .empty := by
  have h1 : s.slot1 = .empty := by
    obtain ⟨-, h1⟩ | ⟨-, h1⟩ | ⟨-, h1⟩ := h.slots
    · exact h1
    · exact h1
    · rw [validReq_of_outstanding h h1] at hr
      cases hr
  simp [slot1N_of_empty h1, hg]

/-- The queue keeps its shape. -/
theorem wf_next (h : s.WF) : (s.next x).WF := by
  have held : (s.next x).validReqQ = true →
      s.validReq x = true ∧ s.granted x = false ∧ s.slot1N x = .empty := by
    intro hq
    simp only [next, Bool.and_eq_true, Bool.not_eq_true'] at hq
    have hg : s.granted x = false := by simp [granted, hq.2]
    exact ⟨hq.1, hg, slot1N_of_not_granted h hq.1 hg⟩
  refine ⟨FetchFifo.wf_next h.fifo, (slots_next h).1, ?_, ?_⟩
  · intro hq
    obtain ⟨-, -, h1⟩ := held hq
    simp [next, h1]
  · intro hq hd ho
    obtain ⟨-, hg, h1⟩ := held hq
    simp only [next] at hd ho ⊢
    split_ifs at ho ⊢
    · simp [h1, ReqSlot.empty] at ho
    · obtain ⟨h0, -⟩ | ⟨h0, -⟩ | ⟨h0, -⟩ := h.slots
      · simp [slot0N_of_empty h0, hg, ReqSlot.empty] at ho
      all_goals
        simp only [discardReqD, Bool.and_eq_true, Bool.or_eq_true] at hd
        simp only [slot0N_of_outstanding h h0, ReqSlot.mark, Bool.or_eq_true]
        exact hd.2.imp_right fun hq => h.discard hd.1 hq h0

/-! ### The requests on the bus -/

/-- How many granted requests the bus has not answered; those that the PMP stops do not
reach it. -/
def unanswered (s : PrefetchBuffer) : ℕ := (s.pending.filter fun r => !r.pmpErr).length

/-- A request that the PMP has stopped is answered before the next one is granted. -/
def Alone (s : PrefetchBuffer) : Prop := s.slot0.pmpErr = true → s.slot1 = .empty

/-- The places without a request in them. -/
theorem pending_eq_nil (h : s.WF) : s.pending = [] ↔ s.slot0 = .empty ∧ s.slot1 = .empty := by
  constructor
  · intro hp
    simp only [pending, ReqSlot.list] at hp
    obtain h | ⟨h0, h1⟩ | ⟨h0, h1⟩ := h.slots
    · exact h
    · simp [h0, h1, ReqSlot.empty] at hp
    · simp [h1] at hp
  · rintro ⟨h0, h1⟩
    simp [pending, ReqSlot.list, h0, h1, ReqSlot.empty]

/-- With a request in place 0 the queue has it in front. -/
theorem pending_of_outstanding (h0 : s.slot0.outstanding = true) :
    s.pending = s.slot0 :: if s.slot1.outstanding then [s.slot1] else [] := by
  simp only [pending, ReqSlot.list, h0, if_true]
  split_ifs <;> rfl

/-- A branch leaves the buffer with the words of the new address alone. -/
theorem alone_next (h : s.WF) : (s.next x).Alone := by
  intro hp
  simp only [next] at hp ⊢
  cases hr : s.rvalidOrPmpErr x with
  | true => simp
  | false =>
      simp only [hr, Bool.false_eq_true, if_false] at hp ⊢
      obtain ⟨h0, h1⟩ | ⟨h0, -⟩ | ⟨h0, -⟩ := h.slots
      · simp [slot1N_of_empty h1, h0, ReqSlot.empty]
      all_goals
        -- the fake answer comes in the cycle after the fake grant
        have hq : s.slot0.pmpErr = false := by
          rw [rvalidOrPmpErr, h0, Bool.true_and, Bool.or_eq_false_iff] at hr
          exact hr.2
        rw [slot0N_of_outstanding h h0, ReqSlot.mark, hq] at hp
        cases hp

/-- **The places count the bus.** -/
theorem unanswered_next (h : s.WF) (ha : s.Alone)
    (hgnt : x.instrGnt = true → s.validReq x = true ∧ x.instrPmpErr = false)
    (hrv : x.instrRvalid = true → s.unanswered ≠ 0) :
    (s.next x).unanswered = s.unanswered + x.instrGnt.toNat - x.instrRvalid.toNat := by
  have hslot : ((s.grantedSlot x).filter fun r => !r.pmpErr).length = x.instrGnt.toNat := by
    cases hg : x.instrGnt with
    | true => simp [grantedSlot, granted, gntOrPmpErr, hg, hgnt hg]
    | false =>
        cases hp : x.instrPmpErr <;> cases hr : s.validReq x <;>
          simp [grantedSlot, granted, gntOrPmpErr, hg, hp, hr]
  have hmap : ((s.pending.map (ReqSlot.mark x.branch)).filter fun r => !r.pmpErr).length
      = s.unanswered := by
    rw [List.filter_map, List.length_map]
    rfl
  rw [unanswered, (slots_next h).2]
  cases hr : s.rvalidOrPmpErr x with
  | false =>
      have hnone : x.instrRvalid = false := by
        by_contra hv
        rw [Bool.not_eq_false] at hv
        refine hrv hv ?_
        have h0 : s.slot0.outstanding = false := by simpa [rvalidOrPmpErr, hv] using hr
        obtain ⟨h0, h1⟩ | ⟨h0', -⟩ | ⟨h0', -⟩ := h.slots
        · simp [unanswered, (pending_eq_nil h).mpr ⟨h0, h1⟩]
        all_goals
          rw [h0] at h0'
          cases h0'
      simp [List.filter_append, hslot, hmap, hnone]
  | true =>
      simp only [rvalidOrPmpErr, Bool.and_eq_true, Bool.or_eq_true] at hr
      obtain ⟨h0, hr⟩ := hr
      have hq := pending_of_outstanding h0
      rw [if_pos rfl, hq, List.map_cons, List.cons_append, List.drop_one, List.tail_cons,
        List.filter_append, List.length_append, hslot, List.filter_map, List.length_map]
      change (List.filter (fun r : ReqSlot => !r.pmpErr) _).length + _ = _
      cases hp : s.slot0.pmpErr with
      | true =>
          have hcount : s.unanswered = 0 := by
            simp [unanswered, hq, hp, ha hp, ReqSlot.empty]
          have hnone : x.instrRvalid = false := by
            by_contra hv
            exact hrv (Bool.not_eq_false _ ▸ hv) hcount
          simp [ha hp, ReqSlot.empty, hcount, hnone]
      | false =>
          have hv : x.instrRvalid = true := by simpa [hp] using hr
          have hcount : s.unanswered = ((if s.slot1.outstanding then [s.slot1] else []).filter
              fun r => !r.pmpErr).length + 1 := by
            simp [unanswered, hq, hp]
          rw [hcount, hv, Bool.toNat_true]
          omega

/-- What a buffer that is not busy has under way. -/
theorem of_not_busy (h : s.WF) (hb : s.busy x = false) :
    s.validReq x = false ∧ s.slot0 = .empty ∧ s.slot1 = .empty := by
  simp only [busy, Bool.or_eq_false_iff] at hb
  obtain ⟨⟨h0, h1⟩, hr⟩ := hb
  refine ⟨hr, ?_⟩
  obtain h | ⟨h0', -⟩ | ⟨h0', -⟩ := h.slots
  · exact h
  all_goals
    rw [h0] at h0'
    cases h0'

/-- It has none in the next cycle either. -/
theorem rest_next (h : s.WF) (hb : s.busy x = false) :
    (s.next x).validReqQ = false ∧ (s.next x).slot0 = .empty ∧ (s.next x).slot1 = .empty := by
  obtain ⟨hr, h0, h1⟩ := of_not_busy h hb
  have hg : s.grantedSlot x = [] := by simp [grantedSlot, granted, hr]
  have hnone : (s.next x).pending = [] := by
    simp [(slots_next h).2, (pending_eq_nil h).mpr ⟨h0, h1⟩, hg]
  exact ⟨by simp [next, hr], (pending_eq_nil (wf_next h)).mp hnone⟩

/-- The buffer after a reset; its addresses and data have none. -/
def reset (s : PrefetchBuffer) : PrefetchBuffer :=
  { s with
    validReqQ := false
    discardReqQ := false
    slot0 := .empty
    slot1 := .empty
    fifo := { s.fifo with valid0 := false, valid1 := false, valid2 := false } }

/-- The buffer is well formed after a reset. -/
theorem wf_reset (s : PrefetchBuffer) : s.reset.WF where
  fifo := ⟨fun h => (nomatch h), fun h => nomatch h⟩
  slots := Or.inl ⟨rfl, rfl⟩
  held := fun h => nomatch h
  discard := fun h => nomatch h

end PrefetchBuffer

end CocoIbex
