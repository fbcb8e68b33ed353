import CocoIbex.LsuAccess

/-!
# The Protocol of the Data Bus

What the LSU promises to the bus and to the core, over every run of `LsuBus`: a request stays as
it is until it is granted, a store writes its bytes and no others, an access has one answer,
which tells its errors, and the address register then holds the address of the part that failed.

Safety is read off the log of the access, cycle by cycle. That an access comes to its end needs
a bus that grants and answers at last (`Fair`). It is stated for infinite streams of inputs,
with a rank that counts what is missing of the access and that each grant and each answer
lowers.

Nothing is assumed about the number of cycles between a request, its grant and its answer, and
both requests of a split access may be granted before the first answer comes.

## Main results

* `request_held` — a request that is not granted is there in the next cycle, as it was;
* `lsu_store_correct` — a store that is answered has written its bytes, each once;
* `lsu_fault_address` — the address reported with an error;
* `lsu_protocol` — the promises in every run, and as many responses as accesses;
* `eventually_answered` — on a fair bus every access is answered.
-/

namespace CocoIbex

open Machine

namespace LsuBus

variable {r : LsuBus} {x : AccessIn} {a : Access}

/-! ### Requests -/

/-- The part whose request is out, or next. -/
def part (r : LsuBus) : Bool :=
  match r.lsu.lsFsm with
  | .idle | .waitGntMis => false
  | .waitRvalidMis | .waitRvalidMisGntsDone => true
  | .waitGnt => r.lsu.handleMisalignedQ

/-- ID shows the operands of the part. -/
theorem shows_part (hi : Inv r) (hs : r.shown x = some a) : r.Shows x a r.part := by
  refine shows_of_shown hs ?_
  cases hf : r.lsu.lsFsm with
  | idle => simp [adder, Lsu.addrIncr, part, hf, Access.partAddr]
  | _ =>
      have ha : r.access = some a := by rwa [shown, hf] at hs
      simp only [Inv, ha, Works, hf] at hi
      simp only [adder, Lsu.addrIncr, part, hf, Access.partAddr]
      simp_all

/-- The request that the LSU raises is that of the part. -/
theorem transaction_part (hi : Inv r) (hs : r.shown x = some a) (hreq : r.lsuDataReq x = true) :
    r.transaction x = a.transaction r.part := by
  have hshows := shows_part hi hs
  rw [lsuDataReq, Lsu.step_dataReqO] at hreq
  cases hf : r.lsu.lsFsm with
  | idle =>
      have hm : r.lsu.handleMisalignedQ = false := by
        cases ha : r.access with
        | none =>
            simp only [Inv, ha] at hi
            exact hi.handleMisalignedQ
        | some b =>
            simp only [Inv, ha, Works, hf] at hi
            exact hi.1
      exact hshows.transaction (by rw [hm, part, hf]) (by simp [part, hf])
  | waitRvalidMisGntsDone => simp [Lsu.dataReqO, hf] at hreq
  | _ =>
      have ha : r.access = some a := by rwa [shown, hf] at hs
      simp only [Inv, ha, Works, hf] at hi
      refine hshows.transaction ?_ ?_ <;> simp_all [part]

/-- A request belongs to an access. -/
theorem shown_of_lsuDataReq (hi : Inv r) (hreq : r.lsuDataReq x = true) :
    ∃ a, r.shown x = some a := by
  cases hs : r.shown x with
  | some a => exact ⟨a, rfl⟩
  | none =>
      exfalso
      cases hf : r.lsu.lsFsm with
      | idle =>
          have hq : (r.lsuIn x).lsuReq = false := by simp [lsuIn, hs]
          simp [lsuDataReq, Lsu.step_dataReqO, Lsu.dataReqO, hf, hq] at hreq
      | _ =>
          have ha : r.access = none := by rwa [shown, hf] at hs
          simp only [Inv, ha] at hi
          exact absurd (hf.symm.trans hi.lsFsm) (by decide)

/-- A request that is not granted waits. -/
theorem next_of_waiting (hi : Inv r) (hreq : r.dataReq x = true)
    (hg : (r.lsuIn x).dataGnt = false) :
    ∃ a, r.shown x = some a ∧ (r.next x).access = some a ∧ (r.next x).part = r.part ∧
      (r.next x).lsu.lsFsm ≠ .idle ∧ (r.next x).lsu.lsFsm ≠ .waitRvalidMisGntsDone := by
  obtain ⟨hlsu, hp⟩ : r.lsuDataReq x = true ∧ (r.lsuIn x).dataPmpErr = false := by
    simpa [dataReq] using hreq
  obtain ⟨a, hs⟩ := shown_of_lsuDataReq hi hlsu
  have hpart := (shows_part hi hs).dataPmpErr
  have hbusy : r.lsu.lsFsm ≠ .idle → r.access = some a ∧ (r.next x).access = some a := by
    intro hf
    obtain ⟨hst, hshown, hresp⟩ := of_busy (x := x) (r := r) hf
    have ha : r.access = some a := hshown.symm.trans hs
    exact ⟨ha, by simp [next, hst, hresp, ha]⟩
  refine ⟨a, hs, ?_⟩
  cases hf : r.lsu.lsFsm with
  | idle =>
      have hst : r.start x = some a := by rwa [shown, if_pos hf] at hs
      have hm : r.lsu.handleMisalignedQ = false := by
        cases ha : r.access with
        | none =>
            simp only [Inv, ha] at hi
            exact hi.handleMisalignedQ
        | some b =>
            simp only [Inv, ha, Works, hf] at hi
            exact hi.1
      have hq : (r.lsuIn x).lsuReq = true := by simp [lsuIn, hs, hf]
      cases hsp : (r.lsuIn x).splitMisalignedAccess <;>
        simp [next, hst, part, Lsu.next, Lsu.step, hf, hq, hg, hsp, hm]
  | waitRvalidMisGntsDone => simp [lsuDataReq, Lsu.step_dataReqO, Lsu.dataReqO, hf] at hlsu
  | waitGntMis =>
      obtain ⟨ha, hnext⟩ := hbusy (by rw [hf]; decide)
      simp only [Inv, ha, Works, hf] at hi
      simp only [hp, part, hf] at hpart
      obtain ⟨-, -, -, hpmp, -, -, -⟩ := hi
      rw [← hpart] at hpmp
      exact ⟨hnext, by simp [next, part, Lsu.next, Lsu.step, hf, hg, hpmp]⟩
  | waitRvalidMis =>
      obtain ⟨ha, hnext⟩ := hbusy (by rw [hf]; decide)
      simp only [Inv, ha, Works, hf] at hi
      obtain ⟨-, hm, -, -, -, -, -, -⟩ := hi
      refine ⟨hnext, ?_⟩
      -- the answer to the first part may come in the cycle
      cases hv : (r.lsuIn x).dataRvalid <;> cases hpmp : r.lsu.pmpErrQ <;>
        simp [next, part, Lsu.next, Lsu.step, hf, hg, hpmp, hv, hm]
  | waitGnt =>
      obtain ⟨ha, hnext⟩ := hbusy (by rw [hf]; decide)
      simp only [Inv, ha, Works, hf] at hi
      simp only [hp, part, hf] at hpart
      obtain ⟨hm, -, hpmp, -, -, -, -, -⟩ := hi
      rw [← hm, ← hpart] at hpmp
      exact ⟨hnext, by simp [next, part, Lsu.next, Lsu.step, hf, hg, hpmp]⟩

/-- **Requests are held.** A request on the bus that is not granted is there in the next cycle,
whatever comes in, with the same address, write enable, byte enables and data. -/
theorem request_held (hi : Inv r) (hreq : r.dataReq x = true) (hg : (r.lsuIn x).dataGnt = false)
    (x' : AccessIn) : (r.next x).dataReq x' = true ∧
      (r.next x).transaction x' = r.transaction x := by
  obtain ⟨hlsu, hp⟩ : r.lsuDataReq x = true ∧ (r.lsuIn x).dataPmpErr = false := by
    simpa [dataReq] using hreq
  obtain ⟨a, hs, ha', hpart, hf, hf'⟩ := next_of_waiting hi hreq hg
  have hi' := inv_next hi x
  have hs' : (r.next x).shown x' = some a := by rw [shown, if_neg hf, ha']
  have hlsu' : (r.next x).lsuDataReq x' = true := by
    rw [lsuDataReq, Lsu.step_dataReqO, Lsu.dataReqO]
    cases hfn : (r.next x).lsu.lsFsm <;> simp_all
  have hp' : ((r.next x).lsuIn x').dataPmpErr = false := by
    rw [(shows_part hi' hs').dataPmpErr, hpart, ← (shows_part hi hs).dataPmpErr, hp]
  refine ⟨by rw [dataReq, hlsu', hp']; rfl, ?_⟩
  rw [transaction_part hi' hs' hlsu', transaction_part hi hs hlsu, hpart]

/-! ### Answers -/

/-- The access of the log starts. -/
theorem next_access (r : LsuBus) (x : AccessIn) :
    (r.next x).access = (r.start x).or (if r.respValid x then none else r.access) := rfl

/-- An access starts when none is left without an answer. -/
theorem respValid_of_start (hst : (r.start x).isSome = true) (ha : r.access.isSome = true) :
    r.respValid x = true := by
  have hfree : r.free x = true := by
    by_contra hn
    simp [start, hn] at hst
  have hsome : r.access ≠ none := Option.isSome_iff_ne_none.mp ha
  simpa [free, respValid, Lsu.lsuRespValid, lsuIn_response.1, hsome, and_comm] using hfree

/-- How often the event `f` comes about in a run. -/
def count (f : LsuBus → AccessIn → Bool) : LsuBus → List AccessIn → ℕ
  | _, [] => 0
  | r, x :: ins => (f r x).toNat + count f (r.next x) ins

/-- The accesses that start are those that are answered and the one that is under way. -/
theorem count_start (hi : Inv r) (ins : List AccessIn) :
    r.access.isSome.toNat + count (fun r x => (r.start x).isSome) r ins
      = count respValid r ins + (run next r ins).access.isSome.toNat := by
  induction ins generalizing r with
  | nil => simp [count]
  | cons x ins ih =>
      have h := ih (inv_next hi x)
      have hstep : r.access.isSome.toNat + (r.start x).isSome.toNat
          = (r.respValid x).toNat + (r.next x).access.isSome.toNat := by
        rw [next_access]
        cases ha : r.access with
        | none =>
            have hresp : r.respValid x = false := by
              cases hv : r.respValid x with
              | false => rfl
              | true =>
                  obtain ⟨a, hans⟩ := answered_of_respValid hi hv
                  exact absurd (ha.symm.trans hans.access) (by simp)
            cases r.start x <;> simp [hresp]
        | some a =>
            cases hst : r.start x with
            | none => cases r.respValid x <;> simp
            | some b =>
                have hresp := respValid_of_start (r := r) (x := x) (by rw [hst]; rfl)
                    (by rw [ha]; rfl)
                simp [hresp]
      simp only [count, run_cons]
      omega

/-! ### Every access is answered -/

/-- How many steps of the LSU the access is from its answer. -/
def rank (r : LsuBus) : ℕ :=
  match r.lsu.lsFsm with
  | .waitGntMis => 4
  | .waitRvalidMis => 3
  | .waitGnt | .waitRvalidMisGntsDone => 2
  | .idle => 1

/-- An access without an answer stays, and comes no further from it. -/
theorem rank_next_le (ha : r.access = some a) (hresp : r.respValid x = false) :
    (r.next x).access = some a ∧ (r.next x).rank ≤ r.rank := by
  have hst : r.start x = none := by
    cases hst : r.start x with
    | none => rfl
    | some b =>
        have h := respValid_of_start (r := r) (x := x) (by rw [hst]; rfl) (by rw [ha]; rfl)
        simp [hresp] at h
  refine ⟨by simp [next, hst, hresp, ha], ?_⟩
  cases hf : r.lsu.lsFsm with
  | idle =>
      have hq : (r.lsuIn x).lsuReq = false := by simp [lsuIn, shown, hf, hst]
      simp [rank, next, Lsu.next, Lsu.step, hf, hq]
  | _ =>
      simp only [rank, next, Lsu.next, Lsu.step, hf]
      split_ifs <;> simp

/-- A grant or an answer of the bus brings it on. -/
theorem rank_next_lt (hi : Inv r) (ha : r.access = some a)
    (h : (r.lsuIn x).dataGnt = true ∨ r.rvalid x = true ∨ r.lsu.pmpErrQ = true) :
    r.respValid x = true ∨ (r.next x).rank < r.rank := by
  have hv := (lsuIn_response (r := r) (x := x)).1
  simp only [Inv, ha] at hi
  cases hf : r.lsu.lsFsm with
  | idle =>
      refine Or.inl ?_
      have hidle : (r.lsuIn x).dataGnt = true → r.respValid x = true := by
        intro hg
        refine respValid_of_start ?_ (by rw [ha]; rfl)
        cases hst : r.start x with
        | some b => rfl
        | none => simp [lsuIn, shown, hf, hst] at hg
      obtain hg | hrv | hp := h
      · exact hidle hg
      · simp [respValid, Lsu.lsuRespValid, hf, hv, hrv]
      · simp [respValid, Lsu.lsuRespValid, hf, hp]
  | waitGntMis =>
      simp only [Works, hf] at hi
      obtain ⟨-, -, -, -, hgr, her, -⟩ := hi
      have hrv : r.rvalid x = false := by simp [rvalid, her, hgr]
      simp only [hrv, Bool.false_eq_true, false_or] at h
      obtain h | h := h <;> exact Or.inr (by simp [rank, next, Lsu.next, Lsu.step, hf, h])
  | waitRvalidMis =>
      refine Or.inr ?_
      obtain h | h | h := h
      · cases hrv : r.rvalid x <;> cases hp : r.lsu.pmpErrQ <;>
          simp [rank, next, Lsu.next, Lsu.step, hf, h, hv, hrv, hp]
      · cases hg : (r.lsuIn x).dataGnt <;> simp [rank, next, Lsu.next, Lsu.step, hf, h, hv, hg]
      · cases hg : (r.lsuIn x).dataGnt <;> simp [rank, next, Lsu.next, Lsu.step, hf, h, hg]
  | waitGnt =>
      simp only [Works, hf] at hi
      obtain ⟨-, -, -, -, -, hlen, -, -⟩ := hi
      have hrv : r.rvalid x = false := by simp [rvalid, hlen]
      simp only [hrv, Bool.false_eq_true, false_or] at h
      obtain h | h := h <;> exact Or.inr (by simp [rank, next, Lsu.next, Lsu.step, hf, h])
  | waitRvalidMisGntsDone =>
      simp only [Works, hf] at hi
      obtain ⟨-, -, -, hpmp, -⟩ := hi
      have hshown : r.shown x = some a := by rw [shown, hf]; simpa using ha
      have hg : (r.lsuIn x).dataGnt = false := by
        simp [lsuIn, hshown, Lsu.dataReqO, hf]
      simp only [hg, hpmp, Bool.false_eq_true, false_or, or_false] at h
      exact Or.inr (by simp [rank, next, Lsu.next, Lsu.step, hf, hv, h])

/-- The bus and the LSU on the stream `ins`: every request is granted in the end, and every
granted transaction is answered. -/
structure Fair (ins : ℕ → AccessIn) : Prop where
  gnt : ∀ n, (after next reset ins n).dataReq (ins n) = true →
    ∃ m, n ≤ m ∧ ((after next reset ins m).lsuIn (ins m)).dataGnt = true
  rvalid : ∀ n, (after next reset ins n).errs.length < (after next reset ins n).granted.length →
    ∃ m, n ≤ m ∧ (after next reset ins m).rvalid (ins m) = true

/-- What an access waits for: a grant, an answer, or the PMP. -/
theorem waits_for (hi : Inv r) (ha : r.access = some a) :
    r.dataReq x = true ∨ r.errs.length < r.granted.length ∨ r.lsu.pmpErrQ = true := by
  have hi' := hi
  simp only [Inv, ha] at hi
  cases hf : r.lsu.lsFsm with
  | idle =>
      simp only [Works, hf] at hi
      obtain ⟨-, -, -, hpmp, -, -, hlen, -, -⟩ := hi
      cases hd : a.denied a.split with
      | true => exact Or.inr (Or.inr (hpmp.trans hd))
      | false =>
          rw [hd] at hlen
          exact Or.inr (Or.inl (by simp only [Bool.not_false, Bool.toNat_true] at hlen; omega))
  | waitRvalidMis =>
      simp only [Works, hf] at hi
      obtain ⟨-, -, -, hpmp, -, hgr, her, -⟩ := hi
      cases hd : a.denied false with
      | true => exact Or.inr (Or.inr (hpmp.trans hd))
      | false => exact Or.inr (Or.inl (by simp [hgr, her, grantedBefore, hd]))
  | waitRvalidMisGntsDone =>
      simp only [Works, hf] at hi
      obtain ⟨-, -, -, -, -, -, -, hgr, her, -, -⟩ := hi
      exact Or.inr (Or.inl (by simp [hgr, her]))
  | _ =>
      have hs : r.shown x = some a := by rw [shown, hf]; simpa using ha
      have hp := (shows_part hi' hs).dataPmpErr
      have hlsu : r.lsuDataReq x = true := by
        simp [lsuDataReq, Lsu.step_dataReqO, Lsu.dataReqO, hf]
      simp only [Works, hf] at hi
      cases hd : a.denied r.part with
      | true =>
          refine Or.inr (Or.inr ?_)
          simp only [part, hf] at hd
          simp_all
      | false => exact Or.inl (by rw [dataReq, hlsu, hp, hd]; rfl)

/-- **Every access is answered.** -/
theorem eventually_answered {ins : ℕ → AccessIn} (hfair : Fair ins) {n : ℕ}
    (h : (after next reset ins n).access.isSome = true) :
    ∃ m, n ≤ m ∧ (after next reset ins m).respValid (ins m) = true := by
  have hi : ∀ n, Inv (after next reset ins n) :=
    fun n => after_invariant Inv (fun r x hr => inv_next hr x) inv_reset ins n
  refine eventually_of_rank (fun n => (after next reset ins n).access.isSome = true)
    (fun n => (after next reset ins n).rank) ?_ ?_ n h
  · intro n hw hg
    obtain ⟨a, ha⟩ := Option.isSome_iff_exists.mp hw
    obtain ⟨ha', hle⟩ := rank_next_le (x := ins n) ha (by simpa using hg)
    exact ⟨by rw [after_succ, ha']; rfl, hle⟩
  · intro n hw
    have hevent : ∃ m, n ≤ m ∧ (((after next reset ins m).lsuIn (ins m)).dataGnt = true ∨
        (after next reset ins m).rvalid (ins m) = true ∨
          (after next reset ins m).lsu.pmpErrQ = true) := by
      obtain ⟨a, ha⟩ := Option.isSome_iff_exists.mp hw
      obtain hreq | hlt | hp := waits_for (x := ins n) (hi n) ha
      · obtain ⟨m, hm, hg⟩ := hfair.gnt n hreq
        exact ⟨m, hm, Or.inl hg⟩
      · obtain ⟨m, hm, hv⟩ := hfair.rvalid n hlt
        exact ⟨m, hm, Or.inr (Or.inl hv)⟩
      · exact ⟨n, le_rfl, Or.inr (Or.inr hp)⟩
    obtain ⟨m, hm, he⟩ := hevent
    refine ⟨m, hm, fun hwm => ?_⟩
    obtain ⟨a, ha⟩ := Option.isSome_iff_exists.mp hwm
    exact rank_next_lt (hi m) ha he

end LsuBus

/-! ### The bytes of a store -/

/-- The bytes that a transaction writes, the lowest lane first. -/
def Transaction.bytes (t : Transaction) : List (BitVec 32 × BitVec 8) :=
  ((List.range 4).filter fun k => t.be.getLsbD k).map fun k =>
    (t.addr + BitVec.ofNat 32 k, wordByte t.wdata k)

/-- The bytes that a store is to write, little-endian. -/
def Access.bytes (a : Access) : List (BitVec 32 × BitVec 8) :=
  (List.range a.size).map fun j => (a.addr + BitVec.ofNat 32 j, wordByte a.wdata j)

/-- The transactions of a store write its bytes, each once and in order. -/
theorem Access.bytes_parts (a : Access) :
    (a.parts.map a.transaction).flatMap Transaction.bytes = a.bytes := by
  obtain ⟨w, hw, hoff⟩ : ∃ w, alignedAddr a.addr = w ∧ a.addr = w + a.offset.setWidth 32 :=
    ⟨_, rfl, (alignedAddr_add_offset a.addr).symm⟩
  have hfour : alignedAddr (a.addr + 4#32) = w + 4#32 := by rw [alignedAddr_add_four, hw]
  have hlane : ∀ k < 4, wordByte a.lanes k = wordByte a.wdata ((k + 4 - a.offset.toNat) % 4) :=
    fun k hk => wordByte_wordOfBytes _ hk
  obtain ht | ht | ht | ht := offset_cases a.type <;>
    obtain ho | ho | ho | ho := offset_cases a.offset <;>
    simp [parts, split, ho, ht, Transaction.bytes, transaction, enables, size, accessSize, bytes,
      partAddr, List.range_succ, Bits.getLsbD_gen, hlane, hw, hfour] <;>
    simp [hoff, ho, BitVec.add_assoc]

namespace LsuBus

/-- The invariant in every run. -/
theorem inv_run (ins : List AccessIn) : Inv (run next reset ins) :=
  run_invariant Inv (fun _ x hr => inv_next hr x) ins inv_reset

/-- **Stores.** When a store that the PMP lets through is answered, with any timing of grants
and responses, the bus has accepted one write to each word of the store, the first word first,
and they write the addressed bytes with the bytes of the data, each once, and no others. -/
theorem lsu_store_correct (ins : List AccessIn) (x : AccessIn) (a : Access)
    (hresp : (run next reset ins).respValid x = true)
    (ha : (run next reset ins).access = some a) (hwe : a.we = true)
    (hpmp : ∀ p ∈ a.parts, a.denied p = false) :
    (∀ t ∈ (run next reset ins).granted, t.we = true) ∧
      (run next reset ins).granted.map Transaction.addr
        = a.parts.map (fun p => alignedAddr (a.partAddr p)) ∧
      (run next reset ins).granted.flatMap Transaction.bytes = a.bytes := by
  obtain ⟨b, hans⟩ := answered_of_respValid (inv_run ins) hresp
  obtain rfl : b = a := Option.some.inj (hans.access.symm.trans ha)
  have hopen : b.openParts = b.parts := List.filter_eq_self.mpr fun p hp => by simp [hpmp p hp]
  rw [hans.granted, hopen]
  refine ⟨?_, ?_, b.bytes_parts⟩
  · intro t ht
    obtain ⟨p, -, rfl⟩ := List.mem_map.mp ht
    exact hwe
  · rw [List.map_map]
    rfl

/-- A cycle in which the bus offers a grant, an answer and an error. -/
def offer (request : Option Access) (gnt rvalid err : Bool) : AccessIn where
  request := request
  port :=
    { lsuReq := false, lsuWe := false, lsuType := 0b00#2, lsuSignExt := false, lsuWdata := 0#32
      adderResultEx := 0#32, dataGnt := gnt, dataRvalid := rvalid, dataErr := err
      dataPmpErr := false, dataRdata := 0#32 }

/-- A word at address 3, stored or loaded. -/
def wordAtThree (we : Bool) : Access := ⟨we, 0b00#2, false, 3#32, 0x44332211#32, fun _ => false⟩

/-- The store of a word at address 3. -/
theorem lsu_store_correct_word :
    let r := run next reset [offer (some (wordAtThree true)) true false false,
      offer none true true false]
    r.granted.flatMap Transaction.bytes
      = [(3#32, 0x11#8), (4#32, 0x22#8), (5#32, 0x33#8), (6#32, 0x44#8)] := by
  have h := (lsu_store_correct [offer (some (wordAtThree true)) true false false,
    offer none true true false] (offer none false true false) (wordAtThree true) (by decide) rfl rfl
    (fun _ _ => rfl)).2.2
  exact h.trans (by decide)

/-- **The address of a data fault.** When an access is answered with an error, the address
register holds its address if the first part has failed, and else the address of the second
part, which has failed then. -/
theorem lsu_fault_address (ins : List AccessIn) (x : AccessIn)
    (herr : (run next reset ins).loadErr x = true ∨ (run next reset ins).storeErr x = true) :
    ∃ a, (run next reset ins).access = some a ∧
      (a.failed ((run next reset ins).answers x) false = true →
        (run next reset ins).lsu.addrLastQ = a.addr) ∧
      (a.failed ((run next reset ins).answers x) false = false →
        a.split = true ∧ a.failed ((run next reset ins).answers x) true = true ∧
          (run next reset ins).lsu.addrLastQ = a.addr + 4#32) := by
  have hresp : (run next reset ins).respValid x = true := by
    simp only [loadErr, storeErr, Lsu.loadErr, Lsu.storeErr, Bool.and_eq_true] at herr
    rw [respValid]
    tauto
  obtain ⟨a, hans⟩ := answered_of_respValid (inv_run ins) hresp
  have he : a.error ((run next reset ins).answers x) = true := by
    rw [hans.loadErr, hans.storeErr] at herr
    simp only [Bool.and_eq_true] at herr
    tauto
  have hlast := hans.addrLastQ he
  refine ⟨a, hans.access, fun hf => by rw [hlast, hf]; rfl, fun hf => ?_⟩
  rw [hf] at hlast
  cases hs : a.split with
  | false => simp [Access.error, Access.parts, hs, hf] at he
  | true => exact ⟨rfl, by simpa [Access.error, Access.parts, hs, hf] using he, hlast⟩

/-- The load of a word at address 3 whose second part fails. -/
theorem lsu_fault_address_second :
    (run next reset [offer (some (wordAtThree false)) true false false,
      offer none true true false]).lsu.addrLastQ = 7#32 := by
  obtain ⟨a, ha, -, h⟩ := lsu_fault_address [offer (some (wordAtThree false)) true false false,
    offer none true true false] (offer none false true true) (Or.inl (by decide))
  obtain rfl : wordAtThree false = a := Option.some.inj ha
  exact (h (by decide)).2.2

/-- What the LSU promises in a cycle. -/
structure Promises (r : LsuBus) (x : AccessIn) : Prop where
  /-- a request that is not granted stays as it is -/
  held : r.dataReq x = true → (r.lsuIn x).dataGnt = false → ∀ x',
    (r.next x).dataReq x' = true ∧ (r.next x).transaction x' = r.transaction x
  /-- a response answers an access, all of whose parts were requested and are answered, with its
  errors -/
  answered : r.respValid x = true → ∃ a, r.Answered x a
  /-- errors and data come with a response only -/
  flags : r.loadErr x = true ∨ r.storeErr x = true ∨ r.rdataValid x = true → r.respValid x = true

/-- **The protocol of the LSU.** In every run it keeps its promises in every cycle, there are as
many responses as accesses have started, up to the one under way, and where the bus grants
every request and answers every transaction in the end, each access that starts has its
response, the first one after its start. -/
theorem lsu_protocol :
    (∀ ins : List AccessIn, (∀ x, Promises (run next reset ins) x) ∧
      count (fun r x => (r.start x).isSome) reset ins
        = count respValid reset ins + (run next reset ins).access.isSome.toNat) ∧
    ∀ ins : ℕ → AccessIn, Fair ins → ∀ n a, (after next reset ins n).start (ins n) = some a →
      ∃ m, n < m ∧ (after next reset ins m).Answered (ins m) a ∧
        (after next reset ins m).respValid (ins m) = true ∧
        ∀ k, n < k → k < m → (after next reset ins k).respValid (ins k) = false := by
  refine ⟨fun ins => ⟨fun x =>
      ⟨request_held (inv_run ins), answered_of_respValid (inv_run ins), ?_⟩,
    ?_⟩, ?_⟩
  · intro h
    simp only [loadErr, storeErr, rdataValid, Lsu.loadErr, Lsu.storeErr, Lsu.lsuRdataValid,
      Bool.and_eq_true] at h
    rw [respValid]
    obtain h | h | h := h
    · exact h.2
    · exact h.2
    · simp [Lsu.lsuRespValid, h.1.1.2, beq_iff_eq.mp h.1.1.1]
  · have h := count_start inv_reset ins
    simpa [reset] using h
  · intro ins hfair n a hst
    have hi : ∀ n, Inv (after next reset ins n) :=
      fun n => after_invariant Inv (fun r x hr => inv_next hr x) inv_reset ins n
    have hnext : (after next reset ins (n + 1)).access = some a := by
      rw [after_succ, next_access, hst]
      rfl
    obtain ⟨m, hm, hresp, hfirst⟩ := exists_first
      (eventually_answered hfair (n := n + 1) (by rw [hnext]; rfl))
    have hwait : ∀ k, n + 1 ≤ k → k ≤ m → (after next reset ins k).access = some a := by
      intro k hk
      induction k, hk using Nat.le_induction with
      | base => exact fun _ => hnext
      | succ k hk ih =>
          intro hle
          exact (rank_next_le (ih (by omega)) (by simpa using hfirst k hk (by omega))).1
    obtain ⟨b, hans⟩ := answered_of_respValid (hi m) hresp
    obtain rfl : b = a := Option.some.inj (hans.access.symm.trans (hwait m hm le_rfl))
    exact ⟨m, hm, hans, hresp, fun k hk hlt => by simpa using hfirst k hk hlt⟩

/-- A bus that is always ready is fair. -/
theorem fair_of_ready {ins : ℕ → AccessIn}
    (h : ∀ n, (ins n).port.dataGnt = true ∧ (ins n).port.dataRvalid = true) : Fair ins where
  gnt n hreq := by
    refine ⟨n, le_rfl, ?_⟩
    have hi : Inv (after next reset ins n) :=
      after_invariant Inv (fun r x hr => inv_next hr x) inv_reset ins n
    obtain ⟨hlsu, hp⟩ : (after next reset ins n).lsuDataReq (ins n) = true ∧
        ((after next reset ins n).lsuIn (ins n)).dataPmpErr = false := by
      simpa [dataReq] using hreq
    obtain ⟨a, hs⟩ := shown_of_lsuDataReq hi hlsu
    have hshows := shows_part hi hs
    rw [hshows.dataGnt, (h n).1, hlsu, ← hshows.dataPmpErr, hp]
    rfl
  rvalid n hlt := ⟨n, le_rfl, by simp [rvalid, (h n).2, hlt]⟩

/-- The load of a word at address 3 on a bus that is always ready has its response. -/
theorem lsu_protocol_word :
    ∃ m, 0 < m ∧ (after next reset
      (fun n => offer (if n = 0 then some (wordAtThree false) else none) true true false)
      m).respValid
        (offer (if m = 0 then some (wordAtThree false) else none) true true false) = true := by
  obtain ⟨m, hm, -, hresp, -⟩ := lsu_protocol.2
    (fun n => offer (if n = 0 then some (wordAtThree false) else none) true true false)
    (fair_of_ready fun _ => ⟨rfl, rfl⟩) 0 (wordAtThree false) rfl
  exact ⟨m, hm, hresp⟩

end LsuBus

end CocoIbex
