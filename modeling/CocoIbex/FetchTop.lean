import CocoIbex.PrefetchStream

/-!
# The Fetch Path of the Top Level

The prefetch buffer on the instruction ROM as `ibex_top` wires them: the grant is the registered
request, and the ROM answers every cycle with a request, granted or not, one cycle later. So
there are more answers than grants, and each grant comes a cycle late. The buffer takes an
answer only for a request that it counts as granted, and that request was on the address of the
ROM in the cycle before (`FetchTop.Inv`); the stream is that of the contents of the ROM
(`FetchTop.fetch_top_delivers`).

The bus of this level does not keep to the protocol of the prefetch buffer as it stands, so the
result on the buffer cannot be used at once. The run is seen as a run of the buffer on another
bus, which has only those answers that the buffer takes (`busIn`); `bus_next` says that this bus
answers what was granted and in its order.

Registers without a reset hold anything at the start. The write port of the ROM, through which
the program is loaded, is not used while it runs (`Loaded`).

## Main results

* `inv_next` and `inv_start` — the invariant of the two registers and the buffer;
* `fetch_top_delivers` — from every branch on the parse of the ROM is delivered, for all
  contents.
-/

namespace CocoIbex

/-! ### The ROM -/

/-- `rom_1p`: 256 words and the registers of the read port. -/
structure Rom1p where
  mem : BitVec 8 → BitVec 32
  rdata : BitVec 32
  rvalid : Bool

/-- What the ROM sees in one cycle. -/
structure RomIn where
  req : Bool
  we : Bool
  addr : BitVec 32
  wdata : BitVec 32

namespace Rom1p

/-- `addr_idx` of a word. -/
def addrIdx (w : BitVec 30) : BitVec 8 := w.extractLsb' 0 8

/-- One clock edge. -/
def next (s : Rom1p) (x : RomIn) : Rom1p where
  mem i := if x.req && x.we && i == addrIdx (wordOfAddr x.addr) then x.wdata else s.mem i
  rdata := if x.req then s.mem (addrIdx (wordOfAddr x.addr)) else s.rdata
  rvalid := x.req

/-- The contents of the ROM as an instruction memory without errors. -/
def fetchMem (s : Rom1p) : FetchMem := fun w => ⟨s.mem (addrIdx w), false, false⟩

end Rom1p

/-! ### The state before the first branch -/

namespace FetchFifo

/-- The FIFO with another address at its output. -/
def move (s : FetchFifo) (a : BitVec 31) : FetchFifo := { s with instrAddrQ := a }

/-- Of its address the FIFO only looks at the alignment. -/
theorem next_move {s : FetchFifo} {a : BitVec 31} (h : unaligned a = unaligned s.instrAddrQ)
    (x : FifoIn) : ∃ a', (s.move a).next x = (s.next x).move a' ∧
      unaligned a' = unaligned (s.next x).instrAddrQ ∧
      (x.clear = true → a' = (s.next x).instrAddrQ) := by
  refine ⟨((s.move a).next x).instrAddrQ, ?_, ?_, ?_⟩
  · simp only [next, move, popFifo, outValid, addrIncrTwo, h]
    rfl
  · have hstep : ∀ d : BitVec 31, d = 1#31 ∨ d = 2#31 →
        unaligned (a + d) = unaligned (s.instrAddrQ + d) := by
      rintro d (rfl | rfl)
      · rw [unaligned_add_one, unaligned_add_one, h]
      · have htwo : ∀ b : BitVec 31, b + 2#31 = b + 1#31 + 1#31 := by
          intro b
          rw [BitVec.add_assoc]
          rfl
        rw [htwo, htwo]
        simp only [unaligned_add_one, h]
    cases hc : x.clear with
    | true => simp [next, hc]
    | false =>
        have hv : (s.move a).outValid x = s.outValid x := by
          simp only [outValid, move, h]
          rfl
        have hi : (s.move a).addrIncrTwo x = s.addrIncrTwo x := by
          simp only [addrIncrTwo, move, h]
          rfl
        simp only [next, hc, hv, hi]
        cases x.outReady && s.outValid x with
        | false => simpa [move] using h
        | true =>
            simp only [Bool.or_true, if_true, Bool.false_eq_true, if_false, move]
            exact hstep _ (by cases s.addrIncrTwo x <;> simp)
  · intro hc
    simp [next, hc]

end FetchFifo

namespace PrefetchBuffer

/-- The buffer with another address at its output. -/
def move (s : PrefetchBuffer) (a : BitVec 31) : PrefetchBuffer := { s with fifo := s.fifo.move a }

/-- A prefetch buffer whose FIFO is at another address of the same alignment takes the same steps.
-/
theorem next_move {s : PrefetchBuffer} {a : BitVec 31}
    (h : unaligned a = unaligned s.fifo.instrAddrQ) (x : PrefetchIn) :
    ∃ a', (s.move a).next x = (s.next x).move a' ∧
      unaligned a' = unaligned (s.next x).fifo.instrAddrQ ∧
      (x.branch = true → a' = (s.next x).fifo.instrAddrQ) := by
  obtain ⟨a', hn, hu, hc⟩ := FetchFifo.next_move h (s.fifoIn x)
  refine ⟨a', ?_, hu, hc⟩
  have hfifo : ((s.move a).next x).fifo = ((s.next x).fifo).move a' := hn
  simp only [next, move] at hfifo ⊢
  rw [hfifo]
  rfl

/-- The inputs with the grant and the answer only where the buffer looks at them. -/
def masked (s : PrefetchBuffer) (x : PrefetchIn) : PrefetchIn :=
  { x with
    instrGnt := s.validReq x && x.instrGnt
    instrRvalid := s.slot0.outstanding && x.instrRvalid }

/-- What a mask does to the data does not change what is granted. -/
theorem granted_masked (s : PrefetchBuffer) (x : PrefetchIn) :
    s.granted (s.masked x) = s.granted x := by
  have hr : s.validReq (s.masked x) = s.validReq x := rfl
  simp only [granted, hr]
  simp only [gntOrPmpErr, masked]
  cases s.validReq x <;> simp

/-- It does not change what comes either. -/
theorem rvalidOrPmpErr_masked (s : PrefetchBuffer) (x : PrefetchIn) :
    s.rvalidOrPmpErr (s.masked x) = s.rvalidOrPmpErr x := by
  simp only [rvalidOrPmpErr, masked]
  cases s.slot0.outstanding <;> simp

/-- What goes into the FIFO has no data but that of a response. -/
theorem fifoIn_masked (s : PrefetchBuffer) (x : PrefetchIn) :
    s.fifoIn (s.masked x) = s.fifoIn x := by
  simp only [fifoIn, fifoValid, rvalidOrPmpErr_masked]
  rfl

/-- A grant without a request and an answer without a granted request change nothing. -/
theorem next_masked (s : PrefetchBuffer) (x : PrefetchIn) : s.next (s.masked x) = s.next x := by
  have hr : s.validReq (s.masked x) = s.validReq x := rfl
  have hnew : s.validNewReq (s.masked x) = s.validNewReq x := rfl
  have hq : (s.validReq x && !gntOrPmpErr (s.masked x)) = (s.validReq x && !gntOrPmpErr x) := by
    simp only [gntOrPmpErr, masked]
    cases s.validReq x <;> simp
  have hn : ((s.validNewReq x && !s.validReqQ) && !gntOrPmpErr (s.masked x))
      = ((s.validNewReq x && !s.validReqQ) && !gntOrPmpErr x) := by
    simp only [gntOrPmpErr, masked, validReq]
    cases s.validNewReq x <;> simp
  have h0 : s.slot0N (s.masked x) = s.slot0N x := by
    simp only [slot0N, granted_masked, hr]
    rfl
  have h1 : s.slot1N (s.masked x) = s.slot1N x := by
    simp only [slot1N, granted_masked, hr]
    rfl
  simp only [next, hr, hq, hnew, hn, rvalidOrPmpErr_masked, fifoIn_masked, h0, h1]
  rfl

end PrefetchBuffer

/-! ### The fetch path -/

/-- What the fetch path sees in one cycle: the request, the branches and `ready` of the IF
stage, and the port that loads the ROM. -/
structure FetchTopIn where
  req : Bool
  branch : Bool
  addr : BitVec 32
  ready : Bool
  instrWe : Bool
  instrWdata : BitVec 32

/-- The prefetch buffer, the ROM and the grant register. The last four are no registers:
the granted requests that the buffer has not taken an answer for, whether there was a
branch, its target, and the instructions accepted since then. -/
structure FetchTop where
  pb : PrefetchBuffer
  rom : Rom1p
  instrGnt : Bool
  bus : List (BitVec 30)
  branched : Bool
  target : BitVec 31
  accepted : ℕ

namespace FetchTop

variable (s : FetchTop) (x : FetchTopIn)

/-- The inputs of the prefetch buffer. There are no bus errors and no PMP. -/
def pbIn : PrefetchIn where
  req := x.req
  branch := x.branch
  addr := x.addr
  ready := x.ready
  instrGnt := s.instrGnt
  instrRdata := s.rom.rdata
  instrErr := false
  instrPmpErr := false
  instrRvalid := s.rom.rvalid

/-- `instr_req`. -/
def instrReq : Bool := s.pb.validReq (s.pbIn x)

/-- The word of `instr_addr`. -/
def instrWord : BitVec 30 := s.pb.instrWord (s.pbIn x)

/-- `valid_o` of the buffer. -/
def valid : Bool := s.pb.valid (s.pbIn x)

/-- The instruction at the output of the buffer. -/
def out : FetchOut := s.pb.out (s.pbIn x)

/-- The buffer takes the answer of the ROM. -/
def takes : Bool := s.pb.rvalidOrPmpErr (s.pbIn x)

/-- One clock edge. -/
def next : FetchTop where
  pb := s.pb.next (s.pbIn x)
  rom := s.rom.next ⟨s.instrReq x, x.instrWe, s.instrWord x ++ 0b00#2, x.instrWdata⟩
  instrGnt := s.instrReq x
  bus := (s.bus ++ if s.pb.granted (s.pbIn x) then [s.instrWord x] else []).drop (s.takes x).toNat
  branched := s.branched || x.branch
  target := if x.branch then x.addr.extractLsb' 1 31 else s.target
  accepted := if x.branch then 0 else s.accepted + (s.valid x && x.ready).toNat

/-- After a reset, with any words in the ROM; the address and data registers have any
value. -/
structure Start : Prop where
  validReqQ : s.pb.validReqQ = false
  slot0 : s.pb.slot0 = .empty
  slot1 : s.pb.slot1 = .empty
  valid0 : s.pb.fifo.valid0 = false
  valid1 : s.pb.fifo.valid1 = false
  valid2 : s.pb.fifo.valid2 = false
  instrGnt : s.instrGnt = false
  rvalid : s.rom.rvalid = false
  bus : s.bus = []
  branched : s.branched = false

/-- The port that loads the ROM is idle. -/
def Loaded (_ : FetchTop) (x : FetchTopIn) : Prop := x.instrWe = false

/-- The address at which the parse from the last target has arrived. -/
def parsed : BitVec 31 := s.rom.fetchMem.parseStep^[s.accepted] s.target

/-! ### The prefetch buffer under a protocol -/

/-- The state is that of a prefetch buffer on a bus that keeps to the protocol, apart from
the output address before the first branch. The granted requests are one at most, and the
ROM has its word. -/
structure Inv (f : FetchSys) (q : List BusReq) : Prop where
  sys : FetchSys.Inv (fun _ => s.rom.fetchMem) f q
  epoch : f.epoch ≠ 0
  pb : f.pb = s.pb.move f.pb.fifo.instrAddrQ
  aligned : unaligned f.pb.fifo.instrAddrQ = unaligned s.pb.fifo.instrAddrQ
  same : s.branched = true → f.pb.fifo.instrAddrQ = s.pb.fifo.instrAddrQ
  clean : f.clean = s.branched
  target : s.branched = true → f.target = s.target ∧ f.accepted = s.accepted
  bus : q.map BusReq.word = s.bus
  one : s.bus.length ≤ 1
  rom : ∀ w ∈ s.bus, s.rom.rvalid = true ∧ s.rom.rdata = s.rom.mem (Rom1p.addrIdx w)
  follows : f.clean = true → f.pb.fifo.instrAddrQ = FetchSys.parsed (fun _ => s.rom.fetchMem) f

variable {s x} {f : FetchSys} {q : List BusReq}

/-- The inputs under which the buffer keeps to the protocol. -/
def busIn (s : FetchTop) (x : FetchTopIn) : PrefetchIn := s.pb.masked (s.pbIn x)

/-- The buffer asks the ROM when its model asks the bus. -/
theorem validReq_eq (h : Inv s f q) : f.pb.validReq (s.busIn x) = s.instrReq x := by
  rw [h.pb]
  rfl

/-- A word comes from the ROM when its model takes one. -/
theorem rvalidOrPmpErr_eq (h : Inv s f q) : f.pb.rvalidOrPmpErr (s.busIn x) = s.takes x := by
  rw [h.pb]
  exact PrefetchBuffer.rvalidOrPmpErr_masked s.pb (s.pbIn x)

/-- A request is granted when that of its model is. -/
theorem granted_eq (h : Inv s f q) : f.pb.granted (s.busIn x) = s.pb.granted (s.pbIn x) := by
  rw [h.pb]
  exact PrefetchBuffer.granted_masked s.pb (s.pbIn x)

/-- The word that is asked for is the one of the model. -/
theorem instrWord_eq (h : Inv s f q) : f.pb.instrWord (s.busIn x) = s.instrWord x := by
  rw [h.pb]
  rfl

/-- Without a PMP a request that the buffer counts as granted is on the bus. -/
theorem bus_eq (h : Inv s f q) : f.bus = q := by
  rw [h.sys.bus]
  simp [FetchSys.reqWord, Rom1p.fetchMem]

/-- The word of the granted request is in the register of the ROM. -/
theorem rom_of_outstanding (h : Inv s f q) (ho : s.pb.slot0.outstanding = true) :
    ∃ r, q = [r] ∧ s.bus = [r.word] ∧ s.rom.rvalid = true ∧
      s.rom.rdata = s.rom.mem (Rom1p.addrIdx r.word) := by
  obtain ⟨r, q', rfl, -⟩ := FetchSys.exists_of_outstanding h.sys (by rw [h.pb]; exact ho)
  have hlen : (r :: q').length ≤ 1 := by
    rw [← List.length_map (f := BusReq.word), h.bus]
    exact h.one
  obtain rfl : q' = [] := List.eq_nil_of_length_eq_zero (by simpa using hlen)
  have hbus : s.bus = [r.word] := by simpa using h.bus.symm
  exact ⟨r, rfl, hbus, h.rom r.word (by simp [hbus])⟩

/-- Where the buffer looks, the ROM and the grant register keep to the protocol. -/
theorem envOk (h : Inv s f q) : FetchSys.EnvOk (fun _ => s.rom.fetchMem) f (s.busIn x) where
  gnt hg := by
    rw [validReq_eq h]
    simp only [busIn, PrefetchBuffer.masked, Bool.and_eq_true] at hg
    exact ⟨hg.1, rfl⟩
  pmp _ := rfl
  rvalid hr := by
    simp only [busIn, PrefetchBuffer.masked, Bool.and_eq_true] at hr
    obtain ⟨r, rfl, -, -, hd⟩ := rom_of_outstanding h hr.1
    exact ⟨r, by rw [bus_eq h]; rfl, hd, rfl⟩
  req _ := Or.inr h.epoch

/-- An answer that the buffer takes ends the only granted request. -/
theorem takes_of_bus (h : Inv s f q) (hne : s.bus ≠ []) : s.takes x = true := by
  have hq : q ≠ [] := by
    rintro rfl
    exact hne h.bus.symm
  have ho := FetchSys.outstanding_of_ne_nil h.sys hq
  rw [h.pb] at ho
  obtain ⟨-, -, -, hv, -⟩ := rom_of_outstanding h ho
  have ho' : s.pb.slot0.outstanding = true := ho
  simp [takes, PrefetchBuffer.rvalidOrPmpErr, ho', pbIn, hv]

/-- After a branch the output is that of the buffer under the protocol. -/
theorem pb_eq (h : Inv s f q) (hb : s.branched = true) : f.pb = s.pb := by
  rw [h.pb, h.same hb]
  rfl

/-- What is shown after a branch is the next instruction of the parse. -/
theorem delivers (h : Inv s f q) (hb : s.branched = true) (hv : s.valid x = true) :
    Delivers s.rom.fetchMem s.parsed (s.out x) := by
  have hfifo : f.pb.fifoIn (s.busIn x) = s.pb.fifoIn (s.pbIn x) := by
    rw [pb_eq h hb]
    exact PrefetchBuffer.fifoIn_masked s.pb (s.pbIn x)
  have hvalid : f.pb.valid (s.busIn x) = true := by
    rw [PrefetchBuffer.valid, hfifo, pb_eq h hb]
    exact hv
  have hd := FetchSys.delivers_of_valid h.sys (envOk h) hvalid
  obtain ⟨ht, ha⟩ := h.target hb
  have hp : FetchSys.parsed (fun _ => s.rom.fetchMem) f = s.parsed := by
    rw [FetchSys.parsed, parsed, ht, ha]
  rw [h.follows (h.clean.trans hb), hp, PrefetchBuffer.out, hfifo, pb_eq h hb] at hd
  exact hd

/-- The ROM stays as it is unless it is written. -/
theorem fetchMem_next (hx : x.instrWe = false) : (s.next x).rom.fetchMem = s.rom.fetchMem := by
  funext w
  simp [Rom1p.fetchMem, next, Rom1p.next, hx]

/-- The words on the bus after a cycle. -/
theorem bus_next (h : Inv s f q) :
    (s.next x).bus = if s.pb.granted (s.pbIn x) then [s.instrWord x] else [] := by
  by_cases hne : s.bus = []
  · have hs : s.takes x = false := by
      have hq : q = [] := by
        have := h.bus
        rw [hne] at this
        exact List.map_eq_nil_iff.mp this
      have ho : s.pb.slot0.outstanding = false := by
        refine Bool.eq_false_iff.mpr fun ho => ?_
        obtain ⟨r, hr, -⟩ := rom_of_outstanding h ho
        rw [hq] at hr
        cases hr
      simp [takes, PrefetchBuffer.rvalidOrPmpErr, ho]
    simp [next, hne, hs]
  · obtain ⟨w, hw⟩ : ∃ w, s.bus = [w] := by
      have := h.one
      exact List.length_eq_one_iff.mp (le_antisymm this (List.length_pos_iff.mpr hne))
    simp [next, takes_of_bus h hne, hw]

/-- An accepted instruction has no error. -/
theorem accept_eq (h : Inv s f q) (hb : s.branched = true) :
    f.accept (s.busIn x) = (s.valid x && x.ready) ∧
      (f.accept (s.busIn x) && (f.pb.out (s.busIn x)).err) = false := by
  have hfifo : f.pb.fifoIn (s.busIn x) = s.pb.fifoIn (s.pbIn x) := by
    rw [pb_eq h hb]
    exact PrefetchBuffer.fifoIn_masked s.pb (s.pbIn x)
  have hacc : f.accept (s.busIn x) = (s.valid x && x.ready) := by
    rw [FetchSys.accept, PrefetchBuffer.valid, hfifo, pb_eq h hb]
    rfl
  refine ⟨hacc, ?_⟩
  rw [hacc]
  cases hv : s.valid x with
  | false => simp
  | true =>
      have herr := (delivers h hb hv).err
      have hout : f.pb.out (s.busIn x) = s.out x := by
        rw [PrefetchBuffer.out, hfifo, pb_eq h hb]
        rfl
      rw [hout, herr]
      simp [FetchMem.instrErr, Rom1p.fetchMem, FetchWord.bad]

/-- **Step lemma.** Every cycle keeps the invariant. -/
theorem inv_next (h : Inv s f q) (hx : x.instrWe = false) :
    Inv (s.next x) (f.next (s.busIn x)) (f.nextReqs (s.busIn x) q) := by
  have hsys := FetchSys.inv_next h.sys (envOk (x := x) h)
  have hmem := fetchMem_next (s := s) hx
  have hgrant : (f.grantedReq (s.busIn x)).map BusReq.word
      = if s.pb.granted (s.pbIn x) then [s.instrWord x] else [] := by
    rw [FetchSys.grantedReq, granted_eq h]
    split_ifs
    · simp [FetchSys.busReq, instrWord_eq h]
    · rfl
  obtain ⟨a', hmove, hal, hsame⟩ := PrefetchBuffer.next_move h.aligned (s.busIn x)
  rw [← h.pb] at hmove
  have hpb : (f.next (s.busIn x)).pb = (s.next x).pb.move a' := by
    refine Eq.trans hmove ?_
    rw [busIn, PrefetchBuffer.next_masked]
    rfl
  have hnextpb : s.pb.next (s.busIn x) = (s.next x).pb := PrefetchBuffer.next_masked _ _
  rw [hnextpb] at hal hsame
  have haddr : (f.next (s.busIn x)).pb.fifo.instrAddrQ = a' := by
    rw [hpb]
    rfl
  have hbranch : (s.busIn x).branch = x.branch := rfl
  have hready : (s.busIn x).ready = x.ready := rfl
  refine ⟨by rw [hmem]; exact hsys, ?_, by rw [haddr]; exact hpb, by rw [haddr]; exact hal, ?_, ?_,
    ?_, ?_, ?_, ?_, ?_⟩
  · have := h.epoch
    simp only [FetchSys.next]
    omega
  · intro hb
    rw [haddr]
    cases hbr : x.branch with
    | true => exact hsame hbr
    | false =>
        have hb' : s.branched = true := by simpa [next, hbr] using hb
        rw [← haddr, ← hnextpb, ← pb_eq h hb']
        rfl
  · cases hb : s.branched with
    | false =>
        have hc := h.clean.trans hb
        simp [FetchSys.next, next, hc, hb, hbranch]
    | true =>
        have hc := h.clean.trans hb
        simp [FetchSys.next, next, hc, hb, (accept_eq h hb).2]
  · intro hb
    cases hbr : x.branch with
    | true => simp [FetchSys.next, next, hbr, busIn, PrefetchBuffer.masked, pbIn]
    | false =>
        have hb' : s.branched = true := by simpa [next, hbr] using hb
        obtain ⟨ht, ha⟩ := h.target hb'
        simp [FetchSys.next, next, hbranch, hbr, ht, ha, (accept_eq h hb').1]
  · rw [FetchSys.nextReqs, List.map_drop, List.map_append, h.bus, hgrant, rvalidOrPmpErr_eq h]
    simp only [next]
    cases s.takes x <;> rfl
  · rw [bus_next h]
    split_ifs <;> simp
  · intro w hw
    rw [bus_next h] at hw
    split_ifs at hw with hg
    · obtain rfl : w = s.instrWord x := by simpa using hw
      have hr : s.instrReq x = true := by
        simp only [PrefetchBuffer.granted, Bool.and_eq_true] at hg
        exact hg.1
      simp [next, Rom1p.next, hr, hx, wordOfAddr_append]
    · simp at hw
  · have hfol := fun hc => FetchSys.parsed_next h.sys (envOk (x := x) h) h.follows hc
    rw [hmem]
    exact hfol

/-- The prefetch buffer under the protocol that the fetch path starts as. Its output address
lies in the word that is fetched first. -/
def startSys (s : FetchTop) : FetchSys where
  pb := s.pb.move (wordOfAddr s.pb.fetchAddrQ ++ s.pb.fifo.instrAddrQ.extractLsb' 0 1)
  epoch := 1
  heldEpoch := 0
  bus := []
  target := s.target
  accepted := s.accepted
  clean := false

/-- The invariant holds at the start. -/
theorem inv_start (h : Start s) : Inv s (startSys s) [] := by
  have hlow : ∀ (w : BitVec 30) (l : BitVec 1), unaligned (w ++ l) = l.getLsbD 0 := by
    intro w l
    exact BitVec.getLsbD_append.trans (by simp)
  have hun : unaligned (wordOfAddr s.pb.fetchAddrQ ++ s.pb.fifo.instrAddrQ.extractLsb' 0 1)
      = unaligned s.pb.fifo.instrAddrQ := by
    rw [hlow]
    simp [unaligned]
  have hword : wordOf (wordOfAddr s.pb.fetchAddrQ ++ s.pb.fifo.instrAddrQ.extractLsb' 0 1)
      = wordOfAddr s.pb.fetchAddrQ := by
    rw [wordOf]
    exact BitVec.extractLsb'_append_eq_left
  have hcont : (startSys s).pb.fifo.contents = [] := by
    simp [startSys, PrefetchBuffer.move, FetchFifo.move, FetchFifo.contents, h.valid0, h.valid1,
      h.valid2]
  have hsys : FetchSys.Inv (fun _ => s.rom.fetchMem) (startSys s) [] :=
    { wf :=
        { fifo :=
            ⟨by simp [startSys, PrefetchBuffer.move, FetchFifo.move, h.valid1],
              by simp [startSys, PrefetchBuffer.move, FetchFifo.move, h.valid2]⟩
          slots := Or.inl ⟨h.slot0, h.slot1⟩
          held := by simp [startSys, PrefetchBuffer.move, h.validReqQ]
          discard := by simp [startSys, PrefetchBuffer.move, h.validReqQ] }
      slots := by
        simp [startSys, PrefetchBuffer.move, PrefetchBuffer.pending, ReqSlot.list, h.slot0, h.slot1,
          ReqSlot.empty]
      bus := rfl
      alone := by simp
      heldEpoch := by simp [startSys, PrefetchBuffer.move, h.validReqQ]
      held := by simp [startSys, PrefetchBuffer.move, h.validReqQ]
      start := by simp [startSys]
      chain := by
        intro _
        have hheld : (startSys s).heldWord = [] := by
          simp [FetchSys.heldWord, startSys, PrefetchBuffer.move, h.validReqQ]
        rw [hcont, hheld]
        simp only [startSys, PrefetchBuffer.move, FetchFifo.move, FetchSys.live_nil,
          List.append_nil, hword]
        exact Chain.start _ _ }
  refine ⟨hsys, one_ne_zero, rfl, hun, ?_, ?_, ?_, ?_, ?_, ?_, ?_⟩ <;>
    simp [h.branched, h.bus, startSys]

/-- **The fetch path delivers the ROM.** For all contents of the ROM, all values of the
registers without a reset, and every sequence of requests, branches and `ready`: an answer
that the prefetch buffer takes is the word of the oldest granted request, and every
instruction shown after a branch is the one that the parse from its target has arrived
at. -/
theorem fetch_top_delivers (s₀ : FetchTop) (h0 : Start s₀) (ins : List FetchTopIn)
    (x : FetchTopIn) (hins : Machine.Along next Loaded s₀ ins) :
    let s := Machine.run next s₀ ins
    s.rom.fetchMem = s₀.rom.fetchMem ∧
      (s.takes x = true → ∃ w, s.bus = [w] ∧ s.rom.rdata = (s₀.rom.fetchMem w).rdata) ∧
      (s.branched = true → s.valid x = true → Delivers s₀.rom.fetchMem s.parsed (s.out x)) := by
  intro s
  obtain ⟨⟨f, q, h⟩, hmem⟩ : (∃ f q, Inv s f q) ∧ s.rom.fetchMem = s₀.rom.fetchMem := by
    refine Machine.run_induction
      (fun s => (∃ f q, Inv s f q) ∧ s.rom.fetchMem = s₀.rom.fetchMem) ?_
      ⟨⟨_, _, inv_start h0⟩, rfl⟩ hins
    rintro s y ⟨⟨f, q, h⟩, hmem⟩ hy
    exact ⟨⟨_, _, inv_next h hy⟩, (fetchMem_next hy).trans hmem⟩
  refine ⟨hmem, fun ht => ?_, fun hb hv => ?_⟩
  · have ho : s.pb.slot0.outstanding = true := by
      simp only [takes, PrefetchBuffer.rvalidOrPmpErr, Bool.and_eq_true] at ht
      exact ht.1
    obtain ⟨r, -, hbus, -, hd⟩ := rom_of_outstanding h ho
    exact ⟨r.word, hbus, by rw [hd, ← hmem]; rfl⟩
  · rw [← hmem]
    exact delivers h hb hv

/-! ### The first fetch -/

/-- A reset of the fetch path with two compressed instructions in every word. -/
def boot : FetchTop where
  pb := FetchSys.reset.pb
  rom := ⟨fun _ => 0x00010001#32, 0#32, false⟩
  instrGnt := false
  bus := []
  branched := false
  target := 0#31
  accepted := 0

/-- A cycle that requests. -/
def reqIn (branch : Bool) : FetchTopIn := ⟨true, branch, 0x80#32, true, false, 0#32⟩

/-- The first instruction comes two cycles after the branch to it. -/
theorem fetch_top_delivers_boot :
    let s := Machine.run next boot [reqIn true, reqIn false]
    s.branched = true ∧ s.valid (reqIn false) = true ∧
      Delivers boot.rom.fetchMem s.parsed (s.out (reqIn false)) :=
  ⟨by decide +kernel, by decide +kernel,
    (fetch_top_delivers boot ⟨rfl, rfl, rfl, rfl, rfl, rfl, rfl, rfl, rfl, rfl⟩
      [reqIn true, reqIn false] (reqIn false) ⟨rfl, rfl, trivial⟩).2.2 (by decide +kernel)
        (by decide +kernel)⟩

end FetchTop

end CocoIbex
