import CocoIbex.PrefetchBuffer

/-!
# The Stream of the Prefetch Buffer

The prefetch buffer against an instruction memory with any timing delivers the program. The
buffer runs with an observer: it numbers the stretches between branches (*epochs*), keeps the
requests that the bus has granted and not answered, and counts the accepted instructions. The
memory may be another one in each epoch, and a request of an earlier epoch is answered with the
memory of that epoch; so the instructions delivered after a branch have nothing of a word that
was requested before it.

An accepted instruction moves the parse of the memory on by one instruction, so the number of
the accepted ones and the target of the branch tell the address that is to be delivered
(`parsed`). A run is *clean* as long as no instruction has been accepted behind an error, whose
length is not known; nothing is promised of what follows until the next branch.

## Main results

* `Chain` ties the words in the FIFO, the requests under way and the next fetch address to
  consecutive words of the memory;
* `FetchSys.inv_next` is the step lemma: each cycle keeps the chain, in the memory of its epoch;
* `FetchSys.prefetch_delivers` is the result for every run.
-/

namespace CocoIbex

/-! ### Consecutive words -/

/-- The words are `w` and those behind it. -/
def RowFrom : BitVec 30 → List (BitVec 30) → Prop
  | _, [] => True
  | w, a :: l => a = w ∧ RowFrom (w + 1#30) l

/-- A row of words is a row of its two parts, the second of which goes on where the first one
ends. -/
theorem rowFrom_append {w : BitVec 30} {l l' : List (BitVec 30)} :
    RowFrom w (l ++ l') ↔ RowFrom w l ∧ RowFrom (wordAt w l.length) l' := by
  induction l generalizing w with
  | nil => simp [RowFrom]
  | cons a l ih =>
      simp only [List.cons_append, RowFrom, ih, List.length_cons, wordAt_succ, and_assoc]

/-- From the word `w` on there are the words `held`, then those in `reqs` under way, then
`fetch`; at most three are fetched ahead. -/
structure Chain (m : FetchMem) (w : BitVec 30) (held : List FetchEntry)
    (reqs : List (BitVec 30)) (fetch : BitVec 30) : Prop where
  holds : HoldsFrom m w held
  row : RowFrom (wordAt w held.length) reqs
  fetchWord : fetch = wordAt w (held.length + reqs.length)
  room : held.length + reqs.length ≤ 3

namespace Chain

variable {m : FetchMem} {w fetch : BitVec 30} {held : List FetchEntry} {reqs : List (BitVec 30)}

/-- Nothing has been fetched yet. -/
theorem start (m : FetchMem) (w : BitVec 30) : Chain m w [] [] w :=
  ⟨trivial, trivial, by simp, by simp⟩

/-- A new request is for the next word. -/
theorem request (h : Chain m w held reqs fetch) (hroom : held.length + reqs.length ≤ 2) :
    Chain m w held (reqs ++ [fetch]) (fetch + 1#30) := by
  obtain ⟨hh, hr, hf, -⟩ := h
  have hadd : wordAt (wordAt w held.length) reqs.length = fetch := by
    rw [hf, wordAt_wordAt]
  refine ⟨hh, rowFrom_append.mpr ⟨hr, hadd.symm, trivial⟩, ?_, ?_⟩
  · rw [hf, wordAt_add_one]
    congr 1
    simp [Nat.add_assoc]
  · simp only [List.length_append, List.length_singleton]
    omega

/-- An answer brings the oldest word under way. -/
theorem answer {r : BitVec 30} {e : FetchEntry} (h : Chain m w held (r :: reqs) fetch)
    (he : (m r).Holds e) : Chain m w (held ++ [e]) reqs fetch := by
  obtain ⟨hh, ⟨rfl, hr⟩, hf, hroom⟩ := h
  refine ⟨holdsFrom_append.mpr ⟨hh, he, trivial⟩, ?_, ?_, ?_⟩
  · rwa [List.length_append, List.length_singleton, ← wordAt_add_one]
  · rw [hf]
    congr 1
    simp only [List.length_append, List.length_cons, List.length_nil]
    omega
  · simp only [List.length_append, List.length_cons, List.length_nil] at hroom ⊢
    omega

/-- The word at the head is used up. -/
theorem pop (h : Chain m w held reqs fetch) (hne : held ≠ []) :
    Chain m (w + 1#30) (held.drop 1) reqs fetch := by
  obtain ⟨hh, hr, hf, hroom⟩ := h
  cases held with
  | nil => exact absurd rfl hne
  | cons e l =>
      simp only [List.length_cons] at hr hf hroom
      refine ⟨hh.2, ?_, ?_, ?_⟩
      · rwa [List.drop_one, List.tail_cons, ← wordAt_succ]
      · rw [hf, List.drop_one, List.tail_cons, ← wordAt_succ]
        congr 1
        omega
      · simp only [List.drop_one, List.tail_cons]
        omega

end Chain

/-! ### The buffer and its observer -/

/-- A request on the bus, with the epoch in which it was made. -/
structure BusReq where
  epoch : ℕ
  word : BitVec 30
  deriving DecidableEq

/-- The prefetch buffer and what the observer knows. -/
structure FetchSys where
  pb : PrefetchBuffer
  /-- the number of branches so far -/
  epoch : ℕ
  /-- the epoch of the request that waits for its grant -/
  heldEpoch : ℕ
  /-- the granted requests that are not answered -/
  bus : List BusReq
  /-- the target of the last branch, and the instructions accepted since then -/
  target : BitVec 31
  accepted : ℕ
  /-- none of them had an error -/
  clean : Bool
  deriving DecidableEq

namespace FetchSys

variable (mem : ℕ → FetchMem) (s : FetchSys) (x : PrefetchIn)

/-- The request of the cycle. -/
def busReq : BusReq where
  epoch := if s.pb.validReqQ then s.heldEpoch else s.epoch + x.branch.toNat
  word := s.pb.instrWord x

/-- An instruction is accepted. -/
def accept : Bool := s.pb.valid x && x.ready

/-- One clock edge. -/
def next : FetchSys where
  pb := s.pb.next x
  epoch := s.epoch + x.branch.toNat
  heldEpoch := (s.busReq x).epoch
  bus := (s.bus ++ if x.instrGnt then [s.busReq x] else []).drop x.instrRvalid.toNat
  target := if x.branch then x.addr.extractLsb' 1 31 else s.target
  accepted := if x.branch then 0 else s.accepted + (s.accept x).toNat
  clean := x.branch || (s.clean && !(s.accept x && (s.pb.out x).err))

/-- The word that a request is for. -/
def reqWord (r : BusReq) : FetchWord := mem r.epoch r.word

/-- The bus grants requests that the PMP lets through, and answers them in their order from
the memory. The first branch comes before the first request. -/
structure EnvOk : Prop where
  gnt : x.instrGnt = true → s.pb.validReq x = true ∧ x.instrPmpErr = false
  pmp : s.pb.validReq x = true → x.instrPmpErr = (reqWord mem (s.busReq x)).pmpErr
  rvalid : x.instrRvalid = true → ∃ r, s.bus.head? = some r ∧
    x.instrRdata = (reqWord mem r).rdata ∧ x.instrErr = (reqWord mem r).err
  req : x.req = true → x.branch = true ∨ s.epoch ≠ 0

/-- The rules of the bus are about one cycle. -/
instance : Decidable (EnvOk mem s x) :=
  decidable_of_iff
    ((x.instrGnt = true → s.pb.validReq x = true ∧ x.instrPmpErr = false) ∧
      (s.pb.validReq x = true → x.instrPmpErr = (reqWord mem (s.busReq x)).pmpErr) ∧
      (x.instrRvalid = true → (s.bus.head?.any fun r =>
        x.instrRdata == (reqWord mem r).rdata && x.instrErr == (reqWord mem r).err) = true) ∧
      (x.req = true → x.branch = true ∨ s.epoch ≠ 0))
    (by
      have hany : (s.bus.head?.any fun r =>
          x.instrRdata == (reqWord mem r).rdata && x.instrErr == (reqWord mem r).err) = true ↔
          ∃ r, s.bus.head? = some r ∧ x.instrRdata = (reqWord mem r).rdata ∧
            x.instrErr = (reqWord mem r).err := by
        cases s.bus.head? <;> simp
      rw [hany]
      exact ⟨fun h => ⟨h.1, h.2.1, h.2.2.1, h.2.2.2⟩, fun h => ⟨h.gnt, h.pmp, h.rvalid, h.req⟩⟩)

/-- After a reset nothing is fetched; the address and data registers have any value. -/
structure Start : Prop where
  validReqQ : s.pb.validReqQ = false
  slot0 : s.pb.slot0 = .empty
  slot1 : s.pb.slot1 = .empty
  valid0 : s.pb.fifo.valid0 = false
  valid1 : s.pb.fifo.valid1 = false
  valid2 : s.pb.fifo.valid2 = false
  epoch : s.epoch = 0
  bus : s.bus = []
  clean : s.clean = false

/-! ### The invariant -/

/-- The words of the requests of an epoch. -/
def live (epoch : ℕ) (q : List BusReq) : List (BitVec 30) :=
  (q.filter (·.epoch == epoch)).map BusReq.word

/-- The word of a waiting request that is not void. -/
def heldWord : List (BitVec 30) :=
  if s.pb.validReqQ && s.heldEpoch == s.epoch then [wordOfAddr s.pb.storedAddrQ] else []

/-- A place of the buffer holds the request `r`. -/
structure SlotOk (epoch : ℕ) (p : ReqSlot) (r : BusReq) : Prop where
  discard : p.discard = (r.epoch != epoch)
  pmpErr : p.pmpErr = (reqWord mem r).pmpErr
  epoch : r.epoch ≤ epoch

/-- The buffer keeps the requests `q`, of which those that the PMP lets through are on the
bus, and those of this epoch continue the words in the FIFO. -/
structure Inv (q : List BusReq) : Prop where
  wf : s.pb.WF
  slots : List.Forall₂ (SlotOk mem s.epoch) s.pb.pending q
  bus : s.bus = q.filter fun r => !(reqWord mem r).pmpErr
  alone : ∀ r q', q = r :: q' → (reqWord mem r).pmpErr = true → q' = []
  heldEpoch : s.pb.validReqQ = true → s.heldEpoch ≤ s.epoch
  held : s.pb.validReqQ = true → s.pb.discardReqQ = (s.heldEpoch != s.epoch)
  start : s.epoch = 0 → s.pb.validReqQ = false ∧ q = [] ∧ s.pb.fifo.contents = []
  chain : s.epoch ≠ 0 → Chain (mem s.epoch) (wordOf s.pb.fifo.instrAddrQ) s.pb.fifo.contents
    (live s.epoch q ++ s.heldWord) (wordOfAddr s.pb.fetchAddrQ)

/-- The request granted in this cycle. -/
def grantedReq : List BusReq := if s.pb.granted x then [s.busReq x] else []

/-- The requests in the buffer after this cycle. -/
def nextReqs (q : List BusReq) : List BusReq :=
  (q ++ s.grantedReq x).drop (if s.pb.rvalidOrPmpErr x then 1 else 0)

variable {mem s x} {q : List BusReq}

/-! ### The requests -/

/-- A branch starts a new epoch and voids a request. -/
theorem SlotOk.mark {epoch : ℕ} {p : ReqSlot} {r : BusReq} (h : SlotOk mem epoch p r)
    (branch : Bool) : SlotOk mem (epoch + branch.toNat) (p.mark branch) r := by
  obtain ⟨hd, hp, he⟩ := h
  cases branch with
  | false => exact ⟨by simp [ReqSlot.mark, hd], hp, he⟩
  | true =>
      refine ⟨?_, hp, he.trans (Nat.le_add_right _ _)⟩
      have hne : r.epoch ≠ epoch + 1 := by omega
      simp [ReqSlot.mark, hne]

/-- The request of the cycle is void when it was made before the last branch. -/
theorem discardReqD_eq (hi : Inv mem s q) :
    s.pb.discardReqD x = ((s.busReq x).epoch != (s.next x).epoch) := by
  cases hq : s.pb.validReqQ with
  | false => simp [PrefetchBuffer.discardReqD, busReq, next, hq]
  | true =>
      have hle := hi.heldEpoch hq
      simp only [PrefetchBuffer.discardReqD, busReq, next, hq, hi.held hq]
      cases x.branch with
      | false => simp
      | true =>
          have hne : s.heldEpoch ≠ s.epoch + 1 := by omega
          simp [hne]

/-- A request is made for the branches so far. -/
theorem busReq_epoch_le (hi : Inv mem s q) : (s.busReq x).epoch ≤ (s.next x).epoch := by
  cases hq : s.pb.validReqQ with
  | false => simp [busReq, next, hq]
  | true =>
      have hle := hi.heldEpoch hq
      simp only [busReq, next, hq, if_true]
      omega

/-- A granted request goes into its place. -/
theorem slotOk_new (hi : Inv mem s q) (hok : EnvOk mem s x) (hg : s.pb.granted x = true) :
    SlotOk mem (s.next x).epoch ⟨true, s.pb.discardReqD x, x.instrPmpErr⟩ (s.busReq x) := by
  simp only [PrefetchBuffer.granted, Bool.and_eq_true] at hg
  exact ⟨discardReqD_eq hi, hok.pmp hg.1, busReq_epoch_le hi⟩

/-- The slots of the buffer go with the outstanding requests. -/
theorem slots_next (hi : Inv mem s q) (hok : EnvOk mem s x) :
    List.Forall₂ (SlotOk mem (s.next x).epoch) (s.next x).pb.pending (s.nextReqs x q) := by
  have hp : (s.next x).pb.pending = _ := (PrefetchBuffer.slots_next hi.wf).2
  rw [hp, nextReqs]
  refine List.forall₂_drop _ (List.rel_append ?_ ?_)
  · rw [List.forall₂_map_left_iff]
    exact hi.slots.imp fun _ _ h => h.mark x.branch
  · simp only [PrefetchBuffer.grantedSlot, grantedReq]
    split_ifs with hg
    · exact List.Forall₂.cons (slotOk_new hi hok hg) List.Forall₂.nil
    · exact List.Forall₂.nil

/-- The oldest granted request. -/
theorem exists_of_outstanding (hi : Inv mem s q) (h : s.pb.slot0.outstanding = true) :
    ∃ r q', q = r :: q' ∧ SlotOk mem s.epoch s.pb.slot0 r := by
  have hs := hi.slots
  obtain ⟨l, hl⟩ : ∃ l, s.pb.pending = s.pb.slot0 :: l := by
    simp only [PrefetchBuffer.pending, ReqSlot.list, h]
    split_ifs
    · exact ⟨_, rfl⟩
    · exact ⟨_, rfl⟩
  rw [hl] at hs
  cases hs with
  | cons hr hs => exact ⟨_, _, rfl, hr⟩

/-- The bus answers the oldest granted request. -/
theorem rvalid_of_instrRvalid (hi : Inv mem s q) (hok : EnvOk mem s x)
    (h : x.instrRvalid = true) : ∃ r q', q = r :: q' ∧ (reqWord mem r).pmpErr = false ∧
      x.instrRdata = (reqWord mem r).rdata ∧ x.instrErr = (reqWord mem r).err := by
  obtain ⟨r, hr, hd, he⟩ := hok.rvalid h
  rw [hi.bus] at hr
  cases q with
  | nil => cases hr
  | cons a q' =>
      cases hp : (reqWord mem a).pmpErr with
      | true =>
          rw [hi.alone a q' rfl hp] at hr
          simp [hp] at hr
      | false =>
          simp only [List.filter_cons, hp, Bool.not_false, if_true, List.head?_cons,
            Option.some.injEq] at hr
          subst hr
          exact ⟨a, q', rfl, hp, hd, he⟩

/-- An answer, faked or not, is the word of the oldest request. -/
theorem of_rvalidOrPmpErr (hi : Inv mem s q) (hok : EnvOk mem s x)
    (h : s.pb.rvalidOrPmpErr x = true) :
    ∃ r q', q = r :: q' ∧ SlotOk mem s.epoch s.pb.slot0 r ∧
      (reqWord mem r).Holds ⟨x.instrRdata, x.instrErr || s.pb.slot0.pmpErr⟩ := by
  simp only [PrefetchBuffer.rvalidOrPmpErr, Bool.and_eq_true, Bool.or_eq_true] at h
  obtain ⟨r, q', rfl, hr⟩ := exists_of_outstanding hi h.1
  refine ⟨r, q', rfl, hr, ?_⟩
  cases hp : (reqWord mem r).pmpErr with
  | true => exact ⟨by simp [hr.pmpErr, FetchWord.bad, hp], by simp [hp]⟩
  | false =>
      have hrv : x.instrRvalid = true := by simpa [hr.pmpErr, hp] using h.2
      obtain ⟨_, _, heq, -, hd, he⟩ := rvalid_of_instrRvalid hi hok hrv
      obtain ⟨rfl, rfl⟩ := List.cons.inj heq
      exact ⟨by simp [hr.pmpErr, hp, he, FetchWord.bad], fun _ => hd⟩

/-- A request in the queue takes up place 0. -/
theorem outstanding_of_ne_nil (hi : Inv mem s q) (h : q ≠ []) : s.pb.slot0.outstanding = true := by
  have hlen := hi.slots.length_eq
  obtain ⟨h0, h1⟩ | ⟨h0, -⟩ | ⟨h0, -⟩ := hi.wf.slots
  · simp only [PrefetchBuffer.pending, ReqSlot.list, h0, h1, ReqSlot.empty, Bool.false_eq_true,
      if_false, List.length_nil] at hlen
    exact absurd (List.eq_nil_of_length_eq_zero hlen.symm) h
  · exact h0
  · exact h0

/-- There are never more than two granted requests. -/
theorem length_add_grantedReq (hi : Inv mem s q) :
    q.length + (s.grantedReq x).length ≤ 2 := by
  have hlen := hi.slots.length_eq
  have hg : (s.grantedReq x).length ≤ 1 := by
    rw [grantedReq]
    split_ifs <;> simp
  simp only [PrefetchBuffer.pending, ReqSlot.list] at hlen
  cases h1 : s.pb.slot1.outstanding with
  | true =>
      have hr : s.pb.validReq x = false := PrefetchBuffer.validReq_of_outstanding hi.wf h1
      simp only [h1, if_true, List.length_cons, List.length_nil] at hlen
      simp [grantedReq, PrefetchBuffer.granted, hr]
      omega
  | false =>
      have hle : q.length ≤ 1 := by
        rw [← hlen, h1]
        cases s.pb.slot0.outstanding <;> simp
      omega

/-- The bus gets the granted request unless the PMP stops it. -/
theorem grantedReq_filter (hok : EnvOk mem s x) :
    (s.grantedReq x).filter (fun r => !(reqWord mem r).pmpErr)
      = if x.instrGnt then [s.busReq x] else [] := by
  obtain hg | hg := Bool.eq_false_or_eq_true x.instrGnt
  · obtain ⟨hr, hp⟩ := hok.gnt hg
    simp [grantedReq, PrefetchBuffer.granted, PrefetchBuffer.gntOrPmpErr, hg, hr, ← hok.pmp hr, hp]
  · obtain hr | hr := Bool.eq_false_or_eq_true (s.pb.validReq x)
    · obtain hp | hp := Bool.eq_false_or_eq_true x.instrPmpErr <;>
        simp [grantedReq, PrefetchBuffer.granted, PrefetchBuffer.gntOrPmpErr, hg, hr,
          ← hok.pmp hr, hp]
    · simp [grantedReq, PrefetchBuffer.granted, hr, hg]

/-- What is outstanding on the bus is what the PMP has let pass. -/
theorem bus_next (hi : Inv mem s q) (hok : EnvOk mem s x) :
    (s.next x).bus = (s.nextReqs x q).filter fun r => !(reqWord mem r).pmpErr := by
  simp only [next, nextReqs, ← grantedReq_filter hok, hi.bus, ← List.filter_append]
  cases hr : s.pb.rvalidOrPmpErr x with
  | false =>
      have hrv : x.instrRvalid = false := by
        refine Bool.eq_false_iff.mpr fun hrv => ?_
        obtain ⟨r, q', rfl, -⟩ := rvalid_of_instrRvalid hi hok hrv
        have ho := outstanding_of_ne_nil hi (List.cons_ne_nil r q')
        simp [PrefetchBuffer.rvalidOrPmpErr, ho, hrv] at hr
      simp [hrv]
  | true =>
      obtain ⟨r, q', rfl, hs, -⟩ := of_rvalidOrPmpErr hi hok hr
      cases hp : (reqWord mem r).pmpErr with
      | true =>
          have hrv : x.instrRvalid = false := by
            refine Bool.eq_false_iff.mpr fun hrv => ?_
            obtain ⟨_, _, heq, hp', -⟩ := rvalid_of_instrRvalid hi hok hrv
            obtain ⟨rfl, rfl⟩ := List.cons.inj heq
            simp [hp] at hp'
          simp [hrv, hp]
      | false =>
          have hrv : x.instrRvalid = true := by
            simp only [PrefetchBuffer.rvalidOrPmpErr, hs.pmpErr, hp, Bool.or_false,
              Bool.and_eq_true] at hr
            exact hr.2
          simp [hrv, hp]

/-- A request that the PMP has stopped is answered before there is another one. -/
theorem alone_next (hi : Inv mem s q) (hok : EnvOk mem s x) (r : BusReq) (q' : List BusReq)
    (hq : s.nextReqs x q = r :: q') (hp : (reqWord mem r).pmpErr = true) : q' = [] := by
  have hlen : q.length + (s.grantedReq x).length ≤ 2 := length_add_grantedReq hi
  simp only [nextReqs] at hq
  cases hr : s.pb.rvalidOrPmpErr x with
  | true =>
      obtain ⟨a, l, rfl, -⟩ := of_rvalidOrPmpErr hi hok hr
      have := congrArg List.length hq
      simp only [hr, if_true, List.cons_append, List.drop_one, List.tail_cons,
        List.length_append, List.length_cons] at this hlen
      exact List.eq_nil_of_length_eq_zero (by omega)
  | false =>
      simp only [hr, Bool.false_eq_true, if_false, List.drop_zero] at hq
      cases q with
      | nil =>
          have := congrArg List.length hq
          simp only [List.nil_append, List.length_cons] at this
          simp only [List.length_nil] at hlen
          simp only [grantedReq] at this
          split_ifs at this
          exact List.eq_nil_of_length_eq_zero (by simpa using this.symm)
      | cons a l =>
          obtain ⟨rfl, -⟩ := List.cons.inj hq
          have ho := outstanding_of_ne_nil hi (List.cons_ne_nil a l)
          obtain ⟨_, _, heq, hs⟩ := exists_of_outstanding hi ho
          obtain ⟨rfl, rfl⟩ := List.cons.inj heq
          simp [PrefetchBuffer.rvalidOrPmpErr, ho, hs.pmpErr, hp] at hr

/-! ### The words under way -/

/-- Nothing is live of nothing. -/
@[simp] theorem live_nil (e : ℕ) : live e [] = [] := rfl

/-- What is live of two lists is live of each. -/
@[simp] theorem live_append (e : ℕ) (q q' : List BusReq) :
    live e (q ++ q') = live e q ++ live e q' := by
  simp [live]

/-- A request is live if it has been made since the last branch. -/
theorem live_cons (e : ℕ) (r : BusReq) (q : List BusReq) :
    live e (r :: q) = if r.epoch == e then r.word :: live e q else live e q := by
  simp only [live, List.filter_cons]
  split_ifs <;> rfl

/-- A new request is made in this cycle. -/
def newReq (s : FetchSys) (x : PrefetchIn) : Bool := s.pb.validNewReq x && !s.pb.validReqQ

/-- The words that this cycle adds to those under way. -/
def newWord (s : FetchSys) (x : PrefetchIn) : List (BitVec 30) :=
  if s.newReq x then [wordOfAddr (if x.branch then x.addr else s.pb.fetchAddrQ)] else []

/-- A request is under way from the cycle in which it is made, whether it is granted or
waits. -/
theorem live_grantedReq (hi : Inv mem s q) :
    live (s.next x).epoch (s.grantedReq x) ++ (s.next x).heldWord
      = (if x.branch then [] else s.heldWord) ++ s.newWord x := by
  obtain hq | hq := Bool.eq_false_or_eq_true s.pb.validReqQ
  · have hle := hi.heldEpoch hq
    have hne : s.heldEpoch ≠ s.epoch + 1 := by omega
    obtain hb | hb := Bool.eq_false_or_eq_true x.branch <;>
      obtain hg | hg := Bool.eq_false_or_eq_true (PrefetchBuffer.gntOrPmpErr x) <;>
        simp [live_cons, grantedReq, PrefetchBuffer.granted, heldWord, next, PrefetchBuffer.next,
          PrefetchBuffer.validReq, busReq, PrefetchBuffer.instrWord, PrefetchBuffer.instrAddr,
          newWord, newReq, hq, hb, hg, hne]
  · obtain hb | hb := Bool.eq_false_or_eq_true x.branch <;>
      obtain hg | hg := Bool.eq_false_or_eq_true (PrefetchBuffer.gntOrPmpErr x) <;>
        obtain hn | hn := Bool.eq_false_or_eq_true (s.pb.validNewReq x) <;>
          simp [live_cons, grantedReq, PrefetchBuffer.granted, heldWord, next, PrefetchBuffer.next,
            PrefetchBuffer.validReq, busReq, PrefetchBuffer.instrWord, PrefetchBuffer.instrAddr,
            newWord, newReq, hq, hb, hg, hn]

/-- An answer that is not void takes the first word under way. -/
theorem live_nextReqs (hi : Inv mem s q) (hok : EnvOk mem s x) :
    live s.epoch (s.nextReqs x q)
      = (live s.epoch (q ++ s.grantedReq x)).drop (if s.pb.fifoValid x then 1 else 0) := by
  obtain hr | hr := Bool.eq_false_or_eq_true (s.pb.rvalidOrPmpErr x)
  · obtain ⟨r, q', rfl, hs, -⟩ := of_rvalidOrPmpErr hi hok hr
    obtain he | he := Bool.eq_false_or_eq_true (r.epoch == s.epoch) <;>
      simp [nextReqs, PrefetchBuffer.fifoValid, hr, live_cons, hs.discard, bne, he]
  · simp [nextReqs, PrefetchBuffer.fifoValid, hr]

/-- The word that comes in is the first one under way. -/
theorem of_fifoValid (hi : Inv mem s q) (hok : EnvOk mem s x) (h : s.pb.fifoValid x = true) :
    ∃ w l, live s.epoch q = w :: l ∧ (mem s.epoch w).Holds (s.pb.fifoIn x).inEntry := by
  simp only [PrefetchBuffer.fifoValid, Bool.and_eq_true, Bool.not_eq_true'] at h
  obtain ⟨r, q', rfl, hs, he⟩ := of_rvalidOrPmpErr hi hok h.1
  have hepoch : r.epoch = s.epoch := by simpa [hs.discard] using h.2
  refine ⟨r.word, live s.epoch q', by simp [live_cons, hepoch], ?_⟩
  rw [← hepoch]
  exact he

/-- The words with the one that comes in. -/
theorem chain_words (hi : Inv mem s q) (hok : EnvOk mem s x) {w fetch : BitVec 30}
    {l : List (BitVec 30)}
    (h : Chain (mem s.epoch) w s.pb.fifo.contents (live s.epoch q ++ l) fetch) :
    Chain (mem s.epoch) w (s.pb.fifo.words (s.pb.fifoIn x))
      ((live s.epoch q ++ l).drop (if s.pb.fifoValid x then 1 else 0)) fetch := by
  have hin : (s.pb.fifoIn x).inValid = s.pb.fifoValid x := rfl
  rw [FetchFifo.words, hin]
  cases hv : s.pb.fifoValid x with
  | false => simpa using h
  | true =>
      obtain ⟨a, l', hl, he⟩ := of_fifoValid hi hok hv
      rw [hl, List.cons_append] at h ⊢
      exact h.answer he

/-- There is no answer before the first branch. -/
theorem epoch_ne_zero_of_fifoValid (hi : Inv mem s q) (hok : EnvOk mem s x)
    (h : s.pb.fifoValid x = true) : s.epoch ≠ 0 := by
  intro h0
  obtain ⟨_, _, hl, -⟩ := of_fifoValid hi hok h
  simp [(hi.start h0).2.1, live] at hl

/-- The FIFO has room for a word that comes in. -/
theorem room_of_fifoValid (hi : Inv mem s q) (hok : EnvOk mem s x)
    (h : s.pb.fifoValid x = true) : s.pb.fifo.valid2 = false := by
  have hroom := (hi.chain (epoch_ne_zero_of_fifoValid hi hok h)).room
  obtain ⟨_, _, hl, -⟩ := of_fifoValid hi hok h
  refine Bool.eq_false_iff.mpr fun h2 => ?_
  simp only [hl, FetchFifo.contents, h2, if_true, List.length_cons, List.length_append,
    List.length_nil] at hroom
  omega

/-- The FIFO after this cycle. -/
theorem contents_next (hi : Inv mem s q) (hok : EnvOk mem s x) :
    (s.next x).pb.fifo.contents = if x.branch then [] else
      (s.pb.fifo.words (s.pb.fifoIn x)).drop (if s.pb.fifo.popFifo (s.pb.fifoIn x) then 1 else 0) :=
  FetchFifo.contents_next hi.wf.fifo (room_of_fifoValid hi hok)

/-- A new request fits behind those under way. -/
theorem room_of_newReq (hi : Inv mem s q) (hb : x.branch = false) (h : s.newReq x = true) :
    s.pb.fifo.contents.length + (live s.epoch q ++ s.heldWord).length ≤ 2 := by
  simp only [newReq, PrefetchBuffer.validNewReq, FetchFifo.inReady, hb, Bool.or_false,
    Bool.and_eq_true, Bool.not_eq_true'] at h
  obtain ⟨⟨⟨-, h1⟩, hs1⟩, hq⟩ := h
  have h2 : s.pb.fifo.valid2 = false := by
    refine Bool.eq_false_iff.mpr fun h2 => ?_
    simp [hi.wf.fifo.valid1 h2] at h1
  have hc : s.pb.fifo.contents.length ≤ 1 := by
    simp only [FetchFifo.contents, h1, h2]
    cases s.pb.fifo.valid0 <;> simp
  have hlen : q.length ≤ 1 := by
    rw [← hi.slots.length_eq, PrefetchBuffer.pending, ReqSlot.list, hs1]
    cases s.pb.slot0.outstanding <;> simp
  have hlive : (live s.epoch q).length ≤ q.length := by
    rw [live, List.length_map]
    exact List.length_filter_le _ _
  simp only [heldWord, hq, Bool.false_and, Bool.false_eq_true, if_false, List.append_nil]
  omega

/-- The next fetch address. -/
theorem fetchWord_next : wordOfAddr (s.next x).pb.fetchAddrQ
    = wordOfAddr (if x.branch then x.addr else s.pb.fetchAddrQ)
        + (if s.newReq x then 1#30 else 0#30) := by
  obtain hb | hb := Bool.eq_false_or_eq_true x.branch <;>
    obtain hn | hn := Bool.eq_false_or_eq_true (s.newReq x) <;>
      simp only [newReq] at hn <;>
      simp [next, PrefetchBuffer.next, newReq, hb, hn, wordOfAddr_add_four, wordOfAddr_append]

/-- No request is of a later branch than the last one. -/
theorem epoch_le_of_slots {e : ℕ} {l : List ReqSlot} (h : List.Forall₂ (SlotOk mem e) l q) :
    ∀ r ∈ q, r.epoch ≤ e := by
  induction h with
  | nil => simp
  | cons hr _ ih => exact List.forall_mem_cons.mpr ⟨hr.epoch, ih⟩

/-- Requests of earlier epochs bring nothing to a new one. -/
theorem live_succ (hi : Inv mem s q) {q' : List BusReq} (h : ∀ r ∈ q', r ∈ q) :
    live (s.epoch + 1) q' = [] := by
  have hle := epoch_le_of_slots hi.slots
  simp only [live, List.map_eq_nil_iff, List.filter_eq_nil_iff, beq_iff_eq]
  intro r hr
  have := hle r (h r hr)
  omega

/-- After a branch the chain starts anew at its target. -/
theorem chain_of_branch (hi : Inv mem s q) (hok : EnvOk mem s x) (hb : x.branch = true) :
    Chain (mem (s.next x).epoch) (wordOf (s.next x).pb.fifo.instrAddrQ)
      (s.next x).pb.fifo.contents
      (live (s.next x).epoch (s.nextReqs x q) ++ (s.next x).heldWord)
      (wordOfAddr (s.next x).pb.fetchAddrQ) := by
  have hepoch : (s.next x).epoch = s.epoch + 1 := by simp [next, hb]
  have hlive : live (s.next x).epoch (s.nextReqs x q)
      = live (s.next x).epoch (s.grantedReq x) := by
    rw [hepoch, nextReqs]
    cases q with
    | nil =>
        have hr : s.pb.rvalidOrPmpErr x = false := by
          refine Bool.eq_false_iff.mpr fun hr => ?_
          obtain ⟨_, _, h, -⟩ := of_rvalidOrPmpErr hi hok hr
          cases h
        simp [hr]
    | cons r q' =>
        have h1 : live (s.epoch + 1) (r :: q') = [] := live_succ hi fun _ h => h
        have h2 : live (s.epoch + 1) q' = [] := live_succ hi fun _ h => List.mem_cons_of_mem _ h
        obtain hr | hr := Bool.eq_false_or_eq_true (s.pb.rvalidOrPmpErr x)
        · simp [hr, h2]
        · simp only [hr, Bool.false_eq_true, if_false, List.drop_zero, live_append, h1,
            List.nil_append]
  have haddr : (s.next x).pb.fifo.instrAddrQ = x.addr.extractLsb' 1 31 :=
    FetchFifo.instrAddrQ_next_of_clear hb
  rw [hlive, live_grantedReq hi, contents_next hi hok, haddr, wordOf_extractLsb', fetchWord_next]
  simp only [hb, if_true, List.nil_append, newWord]
  split_ifs
  · exact (Chain.start _ _).request (by simp)
  · simpa using Chain.start (mem (s.next x).epoch) (wordOfAddr x.addr)

/-- Between branches the chain goes on. -/
theorem chain_of_not_branch (hi : Inv mem s q) (hok : EnvOk mem s x) (hb : x.branch = false)
    (h0 : s.epoch ≠ 0) :
    Chain (mem (s.next x).epoch) (wordOf (s.next x).pb.fifo.instrAddrQ)
      (s.next x).pb.fifo.contents
      (live (s.next x).epoch (s.nextReqs x q) ++ (s.next x).heldWord)
      (wordOfAddr (s.next x).pb.fetchAddrQ) := by
  have hepoch : (s.next x).epoch = s.epoch := by simp [next, hb]
  -- a new request, then an answer, then a used word
  have hreq : Chain (mem s.epoch) (wordOf s.pb.fifo.instrAddrQ) s.pb.fifo.contents
      (live s.epoch q ++ (s.heldWord ++ s.newWord x)) (wordOfAddr (s.next x).pb.fetchAddrQ) := by
    rw [fetchWord_next, newWord, hb]
    obtain hn | hn := Bool.eq_false_or_eq_true (s.newReq x)
    · simpa [hn] using (hi.chain h0).request (room_of_newReq hi hb hn)
    · simpa [hn] using hi.chain h0
  have hans := chain_words hi hok hreq
  have hreqs : live (s.next x).epoch (s.nextReqs x q) ++ (s.next x).heldWord
      = (live s.epoch q ++ (s.heldWord ++ s.newWord x)).drop
          (if s.pb.fifoValid x then 1 else 0) := by
    have hheld := live_grantedReq (x := x) hi
    rw [hepoch] at hheld ⊢
    simp only [hb, Bool.false_eq_true, if_false] at hheld
    rw [live_nextReqs hi hok, live_append, ← hheld, ← List.append_assoc]
    refine (List.drop_append_of_le_length ?_).symm
    obtain hv | hv := Bool.eq_false_or_eq_true (s.pb.fifoValid x)
    · obtain ⟨_, _, hl, -⟩ := of_fifoValid hi hok hv
      simp [hv, hl]
    · simp [hv]
  have hword : wordOf (s.next x).pb.fifo.instrAddrQ = _ := FetchFifo.wordOf_next hb
  rw [hreqs, hepoch, contents_next hi hok, hword, hb]
  obtain hp | hp := Bool.eq_false_or_eq_true (s.pb.fifo.popFifo (s.pb.fifoIn x))
  · simpa [hp] using hans.pop (FetchFifo.words_ne_nil_of_popFifo hi.wf.fifo hp)
  · simpa [hp] using hans

/-- Before the first branch nothing is fetched. -/
theorem start_next (hi : Inv mem s q) (hok : EnvOk mem s x) (h : (s.next x).epoch = 0) :
    (s.next x).pb.validReqQ = false ∧ s.nextReqs x q = [] ∧ (s.next x).pb.fifo.contents = [] := by
  have hb : x.branch = false := by
    refine Bool.eq_false_iff.mpr fun hb => ?_
    simp [next, hb] at h
  have h0 : s.epoch = 0 := by simpa [next, hb] using h
  obtain ⟨hq, rfl, hc⟩ := hi.start h0
  have hr : x.req = false := by
    refine Bool.eq_false_iff.mpr fun hr => ?_
    obtain hb' | hne := hok.req hr
    · simp [hb] at hb'
    · exact hne h0
  have hreq : s.pb.validReq x = false := by
    simp [PrefetchBuffer.validReq, PrefetchBuffer.validNewReq, hq, hr]
  have hv : s.pb.fifoValid x = false :=
    Bool.eq_false_iff.mpr fun hv => epoch_ne_zero_of_fifoValid hi hok hv h0
  have hin : (s.pb.fifoIn x).inValid = false := hv
  refine ⟨?_, ?_, ?_⟩
  · simp [next, PrefetchBuffer.next, hreq]
  · simp [nextReqs, grantedReq, PrefetchBuffer.granted, hreq]
  · simp [contents_next hi hok, hb, FetchFifo.words, hc, hin]

/-- **Step lemma.** Every cycle keeps the invariant. -/
theorem inv_next (hi : Inv mem s q) (hok : EnvOk mem s x) :
    Inv mem (s.next x) (s.nextReqs x q) where
  wf := PrefetchBuffer.wf_next hi.wf
  slots := slots_next hi hok
  bus := bus_next hi hok
  alone := alone_next hi hok
  heldEpoch _ := busReq_epoch_le hi
  held _ := discardReqD_eq hi
  start := start_next hi hok
  chain h := by
    obtain hb | hb := Bool.eq_false_or_eq_true x.branch
    · exact chain_of_branch hi hok hb
    · exact chain_of_not_branch hi hok hb (by simpa [next, hb] using h)

/-- The invariant holds at the start. -/
theorem inv_start (h : Start s) : Inv mem s [] where
  wf :=
    { fifo := ⟨by simp [h.valid1], by simp [h.valid2]⟩
      slots := Or.inl ⟨h.slot0, h.slot1⟩
      held := by simp [h.validReqQ]
      discard := by simp [h.validReqQ] }
  slots := by simp [PrefetchBuffer.pending, ReqSlot.list, h.slot0, h.slot1, ReqSlot.empty]
  bus := by simp [h.bus]
  alone := by simp
  heldEpoch := by simp [h.validReqQ]
  held := by simp [h.validReqQ]
  start _ := ⟨h.validReqQ, rfl, by simp [FetchFifo.contents, h.valid0, h.valid1, h.valid2]⟩
  chain h0 := absurd h.epoch h0

/-! ### The stream -/

/-- What is shown as valid is the instruction at the address of the FIFO. -/
theorem delivers_of_valid (hi : Inv mem s q) (hok : EnvOk mem s x) (hv : s.pb.valid x = true) :
    Delivers (mem s.epoch) s.pb.fifo.instrAddrQ (s.pb.out x) := by
  refine FetchFifo.delivers_of_outValid hi.wf.fifo ?_ hv
  by_cases h0 : s.epoch = 0
  · have hin : (s.pb.fifoIn x).inValid = false :=
      Bool.eq_false_iff.mpr fun hf => epoch_ne_zero_of_fifoValid hi hok hf h0
    simp [FetchFifo.words, (hi.start h0).2.2, hin, HoldsFrom]
  · exact (chain_words hi hok (hi.chain h0)).holds

/-- The address at which the parse from the last target has arrived. -/
def parsed (mem : ℕ → FetchMem) (s : FetchSys) : BitVec 31 :=
  (mem s.epoch).parseStep^[s.accepted] s.target

/-- As long as no error is accepted the FIFO follows the parse. -/
theorem parsed_next (hi : Inv mem s q) (hok : EnvOk mem s x)
    (h : s.clean = true → s.pb.fifo.instrAddrQ = parsed mem s)
    (hc : (s.next x).clean = true) : (s.next x).pb.fifo.instrAddrQ = parsed mem (s.next x) := by
  obtain hb | hb := Bool.eq_false_or_eq_true x.branch
  · have haddr : (s.next x).pb.fifo.instrAddrQ = x.addr.extractLsb' 1 31 :=
      FetchFifo.instrAddrQ_next_of_clear hb
    rw [haddr]
    simp [parsed, next, hb]
  · have haddr : (s.next x).pb.fifo.instrAddrQ = _ := FetchFifo.instrAddrQ_next hb
    have hacc : s.pb.fifo.accept (s.pb.fifoIn x) = s.accept x := Bool.and_comm _ _
    simp only [next, hb, Bool.false_or, Bool.and_eq_true, Bool.not_eq_true'] at hc
    have hpc := h hc.1
    rw [haddr, hacc, hpc]
    obtain ha | ha := Bool.eq_false_or_eq_true (s.accept x)
    · have hv : s.pb.valid x = true := by
        simp only [accept, Bool.and_eq_true] at ha
        exact ha.1
      have herr : (s.pb.out x).err = false := by simpa [ha] using hc.2
      have hlen := (delivers_of_valid hi hok hv).compressed herr
      rw [hpc] at hlen
      have hout : s.pb.fifo.out (s.pb.fifoIn x) = s.pb.out x := rfl
      simp only [ha, if_true, hout, hlen, parsed, next, hb, Bool.toNat_false, Nat.add_zero,
        Bool.toNat_true, Bool.false_eq_true, if_false, Function.iterate_succ_apply']
      rfl
    · simp [ha, parsed, next, hb]

/-- **The delivered program.** In every run in which the bus and the PMP answer from the
memory of the epoch of a request, whatever their timing, every instruction shown as valid
is the one that the parse from the target of the last branch has arrived at. -/
theorem prefetch_delivers (mem : ℕ → FetchMem) (s₀ : FetchSys) (h0 : Start s₀)
    (ins : List PrefetchIn) (x : PrefetchIn)
    (hok : Machine.Along next (EnvOk mem) s₀ (ins ++ [x])) :
    let s := Machine.run next s₀ ins
    s.clean = true → s.pb.valid x = true → Delivers (mem s.epoch) (parsed mem s) (s.pb.out x) := by
  intro s hc hv
  obtain ⟨hins, hx⟩ := Machine.along_concat.mp hok
  obtain ⟨⟨q, hi⟩, hpc⟩ : (∃ q, Inv mem s q) ∧
      (s.clean = true → s.pb.fifo.instrAddrQ = parsed mem s) := by
    refine Machine.run_induction
      (fun s => (∃ q, Inv mem s q) ∧ (s.clean = true → s.pb.fifo.instrAddrQ = parsed mem s))
      ?_ ⟨⟨[], inv_start h0⟩, by simp [h0.clean]⟩ hins
    intro s y h hy
    obtain ⟨⟨q, hi⟩, hpc⟩ := h
    exact ⟨⟨_, inv_next hi hy⟩, parsed_next hi hy hpc⟩
  rw [← hpc hc]
  exact delivers_of_valid hi hx hv

/-! ### A fetch into a forbidden word -/

/-- The registers after a reset, those without one taken as zero. -/
def reset : FetchSys where
  pb :=
    { validReqQ := false
      discardReqQ := false
      slot0 := .empty
      slot1 := .empty
      storedAddrQ := 0#32
      fetchAddrQ := 0#32
      fifo := ⟨false, false, false, ⟨0#32, false⟩, ⟨0#32, false⟩, ⟨0#32, false⟩, 0#31⟩ }
  epoch := 0
  heldEpoch := 0
  bus := []
  target := 0#31
  accepted := 0
  clean := false

/-- The reset is a start. -/
theorem start_reset : Start reset := ⟨rfl, rfl, rfl, rfl, rfl, rfl, rfl, rfl, rfl⟩

/-- Two compressed instructions in the first word; the PMP stops all other words. -/
def twoInstrs : FetchMem := fun w =>
  if w = 0#30 then ⟨0x00010001#32, false, false⟩ else ⟨0#32, false, true⟩

/-- A cycle without a request and without an answer. -/
def idleIn : PrefetchIn := ⟨false, false, 0#32, false, false, 0#32, false, false, false⟩

/-- A branch to the second instruction and the requests of two words. -/
def branchTrace : List PrefetchIn :=
  [{ idleIn with req := true, branch := true, addr := 2#32, instrGnt := true },
    { idleIn with
      req := true, instrPmpErr := true, instrRvalid := true, instrRdata := 0x00010001#32 }]

/-- The instruction is shown and accepted while the fake answer comes. -/
def acceptIn : PrefetchIn := { idleIn with ready := true, instrRdata := 0x00020002#32 }

/-- The instruction of `branchTrace` is delivered. -/
theorem prefetch_delivers_branch :
    let s := Machine.run next reset branchTrace
    s.clean = true ∧ s.pb.valid acceptIn = true ∧
      Delivers twoInstrs (parsed (fun _ => twoInstrs) s) (s.pb.out acceptIn) :=
  ⟨by decide +kernel, by decide +kernel,
    prefetch_delivers (fun _ => twoInstrs) reset start_reset branchTrace acceptIn
      (by decide +kernel) (by decide +kernel) (by decide +kernel)⟩

/-- In the same run `err_plus2` is high for an instruction without an error, and the
forbidden word is shown with data that are not in the memory. -/
theorem branch_inexact :
    Machine.Along next (EnvOk fun _ => twoInstrs) reset (branchTrace ++ [acceptIn, acceptIn]) ∧
      (let s := Machine.run next reset branchTrace
      s.accept acceptIn = true ∧ (s.pb.out acceptIn).errPlus2 = true ∧
        twoInstrs.instrErrPlus2 1#31 = false) ∧
      (let s := Machine.run next reset (branchTrace ++ [acceptIn])
      s.accept acceptIn = true ∧ (s.pb.out acceptIn).addr = 4#32 ∧
        (s.pb.out acceptIn).rdata.extractLsb' 0 16 ≠ twoInstrs.half 2#31) := by
  decide +kernel

end FetchSys

end CocoIbex
