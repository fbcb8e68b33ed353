import CocoIbex.Liveness
import CocoIbex.LsuRam

/-!
# Accesses on the Data Bus

The LSU between ID and a data bus with any timing. ID holds the operands of a load or store
until the last request is granted, adds four to the last address where the LSU asks for it, and
starts an access when the one before it is answered. The bus grants requests and answers the
granted ones in order, with or without an error; the PMP keeps requests from the bus. The state
of the machine `LsuBus` has a log of the access beside the LSU.

An access is one word-aligned transaction, or two if it is split at a word boundary
(`Access.parts`). What ID shows of it, what the bus sees of each part, and what is written or
read are functions of the access, so that the log can say how far it has come: which parts have
been granted, which of them are answered, and which have failed or have been denied.

The state of the LSU follows from the log (`Inv`), and the later results are read off it. The
inputs are free but for the held operands, the order of the answers, and the wait for the PMP.

## Main results

* `inv_next` and `inv_start` — one cycle keeps the log in step with the LSU;
* `of_busy` — a busy LSU starts no access and gives no answer;
* `answered_of_respValid` — a response completes an access.
-/

namespace CocoIbex

/-! ### Accesses -/

/-- A load or store as ID holds it: its size (00 word, 01 half word, else byte), sign mode,
address and data, and the answer of the PMP for each word. -/
structure Access where
  we : Bool
  type : BitVec 2
  signExt : Bool
  addr : BitVec 32
  wdata : BitVec 32
  pmpErr : BitVec 32 → Bool

/-- A transaction of the data bus, as the bus sees it in the granted cycle. -/
structure Transaction where
  addr : BitVec 32
  we : Bool
  be : BitVec 4
  wdata : BitVec 32
  deriving DecidableEq, Repr

namespace Access

variable (a : Access)

/-- The offset of the access in its word. -/
def offset : BitVec 2 := a.addr.extractLsb 1 0

/-- The number of bytes. -/
def size : ℕ := accessSize a.type

/-- The access is split into two parts. -/
def split : Bool :=
  (a.type == 0b00#2 && a.offset != 0b00#2) || (a.type == 0b01#2 && a.offset == 0b11#2)

/-- The parts of the access: the first, and of a split access the second. -/
def parts : List Bool := if a.split then [false, true] else [false]

/-- The address of a part; the second part has the offset of the first. -/
def partAddr (second : Bool) : BitVec 32 := if second then a.addr + 4#32 else a.addr

/-- The PMP keeps the part from the bus. -/
def denied (second : Bool) : Bool := a.pmpErr (alignedAddr (a.partAddr second))

/-- The byte enables of a part. -/
def enables (second : Bool) : BitVec 4 :=
  Bits.gen 4 fun k =>
    if second then decide (k + 4 < a.offset.toNat + a.size)
    else decide (a.offset.toNat ≤ k) && decide (k < a.offset.toNat + a.size)

/-- The data in the byte lanes. -/
def lanes : BitVec 32 := wordOfBytes fun k => wordByte a.wdata ((k + 4 - a.offset.toNat) % 4)

/-- The transaction of a part. -/
def transaction (second : Bool) : Transaction where
  addr := alignedAddr (a.partAddr second)
  we := a.we
  be := a.enables second
  wdata := a.lanes

/-- The parts that reach the bus. -/
def openParts : List Bool := a.parts.filter fun p => !a.denied p

/-- The part fails, on the bus with the answers `errs` of the access or in the PMP. -/
def failed (errs : List Bool) (second : Bool) : Bool :=
  a.denied second || (errs[if second && !a.denied false then 1 else 0]?).getD false

/-- Some part fails. -/
def error (errs : List Bool) : Bool := a.parts.any (a.failed errs)

end Access

/-! ### The machine -/

/-- One cycle: the access that ID wants to start, if any, and the port of the LSU, with what the
bus offers and with what is there when no access is under way. -/
structure AccessIn where
  request : Option Access
  port : LsuIn

/-- The LSU, the access that is not answered, and its log: the transactions that the bus
granted, the errors of its answers, and the addresses of the requests of the LSU. -/
structure LsuBus where
  lsu : Lsu
  access : Option Access
  granted : List Transaction
  errs : List Bool
  raised : List (BitVec 32)

namespace LsuBus

variable (r : LsuBus) (x : AccessIn)

/-- After a reset. -/
def reset : LsuBus := ⟨.reset, none, [], [], []⟩

/-- `data_rvalid_i`: only a transaction that was granted in an earlier cycle is answered. -/
def rvalid : Bool := x.port.dataRvalid && decide (r.errs.length < r.granted.length)

/-- The access before is answered, or there is none. -/
def free : Bool := r.lsu.lsFsm == .idle && (r.access.isNone || r.rvalid x || r.lsu.pmpErrQ)

/-- The access that ID starts in the cycle. -/
def start : Option Access := if r.free x then x.request else none

/-- The access whose operands ID holds in the cycle. -/
def shown : Option Access := if r.lsu.lsFsm = .idle then r.start x else r.access

/-- The address of the adder for the access `a`. -/
def adder (a : Access) : BitVec 32 := if r.lsu.addrIncr then r.lsu.addrLastQ + 4#32 else a.addr

/-- What the LSU sees. -/
def lsuIn : LsuIn :=
  match r.shown x with
  | none => { x.port with lsuReq := false, dataGnt := false, dataRvalid := r.rvalid x }
  | some a =>
    let pmpErr := a.pmpErr (alignedAddr (r.adder a))
    let lsuReq := r.lsu.lsFsm == .idle || x.port.lsuReq
    { lsuReq := lsuReq
      lsuWe := a.we
      lsuType := a.type
      lsuSignExt := a.signExt
      lsuWdata := a.wdata
      adderResultEx := r.adder a
      dataGnt := x.port.dataGnt && (r.lsu.dataReqO lsuReq && !pmpErr)
      dataRvalid := r.rvalid x
      dataErr := x.port.dataErr
      dataPmpErr := pmpErr
      dataRdata := x.port.dataRdata }

/-- `data_req_o` of the LSU. -/
def lsuDataReq : Bool := (r.lsu.step (r.lsuIn x)).dataReq

/-- `data_req_o` of the core: the PMP keeps a request from the bus. -/
def dataReq : Bool := r.lsuDataReq x && !(r.lsuIn x).dataPmpErr

/-- The request on the bus. -/
def transaction : Transaction where
  addr := (r.lsuIn x).dataAddr
  we := (r.lsuIn x).lsuWe
  be := r.lsu.dataBe (r.lsuIn x)
  wdata := (r.lsuIn x).dataWdata

/-- `lsu_resp_valid_o`. -/
def respValid : Bool := r.lsu.lsuRespValid (r.lsuIn x)

/-- `lsu_rdata_valid_o`. -/
def rdataValid : Bool := r.lsu.lsuRdataValid (r.lsuIn x)

/-- `load_err_o`. -/
def loadErr : Bool := r.lsu.loadErr (r.lsuIn x)

/-- `store_err_o`. -/
def storeErr : Bool := r.lsu.storeErr (r.lsuIn x)

/-- The answers of the access, with that of the cycle. -/
def answers : List Bool := r.errs ++ if (r.lsuIn x).dataRvalid then [(r.lsuIn x).dataErr] else []

/-- One clock edge. The log starts anew with an access. -/
def next : LsuBus where
  lsu := r.lsu.next (r.lsuIn x)
  access := (r.start x).or (if r.respValid x then none else r.access)
  granted :=
    (if (r.start x).isSome then [] else r.granted)
      ++ if (r.lsuIn x).dataGnt then [r.transaction x] else []
  errs := if (r.start x).isSome then [] else r.answers x
  raised :=
    (if (r.start x).isSome then [] else r.raised)
      ++ if r.lsuDataReq x then [(r.lsuIn x).adderResultEx] else []

/-! ### The request of a part -/

variable {r : LsuBus} {x : AccessIn} {a : Access}

/-- What the LSU sees while ID holds the part `second` of the access. -/
structure Shows (r : LsuBus) (x : AccessIn) (a : Access) (second : Bool) : Prop where
  lsuWe : (r.lsuIn x).lsuWe = a.we
  lsuType : (r.lsuIn x).lsuType = a.type
  lsuWdata : (r.lsuIn x).lsuWdata = a.wdata
  adderResultEx : (r.lsuIn x).adderResultEx = a.partAddr second
  dataGnt : (r.lsuIn x).dataGnt = (x.port.dataGnt && (r.lsuDataReq x && !a.denied second))
  dataRvalid : (r.lsuIn x).dataRvalid = r.rvalid x
  dataPmpErr : (r.lsuIn x).dataPmpErr = a.denied second

/-- What ID shows of an access, where the adder has its address. -/
theorem shows_of_shown {second : Bool} (h : r.shown x = some a)
    (hadder : r.adder a = a.partAddr second) : r.Shows x a second where
  lsuWe := by simp [lsuIn, h]
  lsuType := by simp [lsuIn, h]
  lsuWdata := by simp [lsuIn, h]
  adderResultEx := by simp [lsuIn, h, hadder]
  dataGnt := by simp [lsuIn, h, lsuDataReq, Lsu.step_dataReqO, Access.denied, hadder]
  dataRvalid := by simp [lsuIn, h]
  dataPmpErr := by simp [lsuIn, h, Access.denied, hadder]

/-- Both parts have the offset of the access. -/
theorem Shows.dataOffset {second : Bool} (h : r.Shows x a second) :
    (r.lsuIn x).dataOffset = a.offset := by
  rw [LsuIn.dataOffset, h.adderResultEx, Access.offset, Access.partAddr]
  cases second
  · rfl
  · exact offset_add_four a.addr

/-- The LSU splits the access where it crosses its word. -/
theorem Shows.splitMisalignedAccess {second : Bool} (h : r.Shows x a second) :
    (r.lsuIn x).splitMisalignedAccess = a.split := by
  rw [LsuIn.splitMisalignedAccess, h.dataOffset, h.lsuType, Access.split]

/-- The request on the bus is the transaction of the part. -/
theorem Shows.transaction {second : Bool} (h : r.Shows x a second)
    (hm : r.lsu.handleMisalignedQ = second) (hs : second = true → a.split = true) :
    r.transaction x = a.transaction second := by
  have hbe : r.lsu.dataBe (r.lsuIn x) = a.enables second := by
    refine BitVec.eq_of_getLsbD_eq fun k hk => ?_
    rw [Access.enables, Bits.getLsbD_gen, decide_eq_true hk, Bool.true_and]
    cases second with
    | false =>
        rw [dataBe_first _ hm hk, h.dataOffset, h.lsuType]
        rfl
    | true =>
        have hsplit : (r.lsuIn x).splitMisalignedAccess = true :=
          h.splitMisalignedAccess.trans (hs rfl)
        rw [dataBe_second hm hsplit hk, h.dataOffset, h.lsuType]
        rfl
  have hdata : (r.lsuIn x).dataWdata = a.lanes := by
    refine word_ext fun k hk => ?_
    rw [dataWdata_lane _ hk, h.dataOffset, h.lsuWdata, Access.lanes, wordByte_wordOfBytes _ hk]
  rw [LsuBus.transaction, hbe, hdata, h.lsuWe, LsuIn.dataAddr, h.adderResultEx]
  rfl

/-! ### The invariant -/

/-- The log while the requests of the parts before `second` are out. -/
def grantedBefore (a : Access) (second : Bool) : List Transaction :=
  if second && !a.denied false then [a.transaction false] else []

/-- The LSU works on the access, with the log in step. -/
def Works (r : LsuBus) (a : Access) : Prop :=
  match r.lsu.lsFsm with
  | .idle =>
    -- all is granted, and the last answer is missing
    r.lsu.handleMisalignedQ = false ∧ r.lsu.dataWeQ = a.we ∧
      r.lsu.lsuErrQ = (a.split && a.failed r.errs false) ∧
      r.lsu.pmpErrQ = a.denied a.split ∧
      r.lsu.addrLastQ = a.partAddr (a.split && !a.failed r.errs false) ∧
      r.granted = a.openParts.map a.transaction ∧
      r.errs.length + (!a.denied a.split).toNat = r.granted.length ∧
      a.addr ∈ r.raised ∧ a.partAddr a.split ∈ r.raised
  | .waitGntMis =>
    a.split = true ∧ r.lsu.handleMisalignedQ = false ∧ r.lsu.lsuErrQ = false ∧
      r.lsu.pmpErrQ = a.denied false ∧ r.granted = [] ∧ r.errs = [] ∧ a.addr ∈ r.raised
  | .waitRvalidMis =>
    a.split = true ∧ r.lsu.handleMisalignedQ = true ∧ r.lsu.dataWeQ = a.we ∧
      r.lsu.pmpErrQ = a.denied false ∧ r.lsu.addrLastQ = a.addr ∧
      r.granted = grantedBefore a true ∧ r.errs = [] ∧ a.addr ∈ r.raised
  | .waitGnt =>
    r.lsu.handleMisalignedQ = a.split ∧
      r.lsu.lsuErrQ = (a.split && a.failed r.errs false) ∧
      r.lsu.pmpErrQ = a.denied a.split ∧ (a.split = true → r.lsu.addrLastQ = a.addr) ∧
      r.granted = grantedBefore a a.split ∧ r.errs.length = r.granted.length ∧
      a.addr ∈ r.raised ∧ a.partAddr a.split ∈ r.raised
  | .waitRvalidMisGntsDone =>
    a.split = true ∧ r.lsu.handleMisalignedQ = false ∧ r.lsu.dataWeQ = a.we ∧
      r.lsu.pmpErrQ = false ∧ a.denied false = false ∧ a.denied true = false ∧
      r.lsu.addrLastQ = a.addr ∧
      r.granted = [a.transaction false, a.transaction true] ∧ r.errs = [] ∧
      a.addr ∈ r.raised ∧ a.partAddr true ∈ r.raised

/-- Between two accesses nothing is left on the bus. -/
structure Rests (r : LsuBus) : Prop where
  lsFsm : r.lsu.lsFsm = .idle
  pmpErrQ : r.lsu.pmpErrQ = false
  handleMisalignedQ : r.lsu.handleMisalignedQ = false
  answered : r.errs.length = r.granted.length

/-- The LSU rests or works on the access. -/
def Inv (r : LsuBus) : Prop :=
  match r.access with
  | none => r.Rests
  | some a => r.Works a

/-- Nothing is under way after a reset. -/
theorem inv_reset : Inv reset := ⟨rfl, rfl, rfl, rfl⟩

/-- An access that the bus grants at once. -/
theorem inv_start (hf : r.lsu.lsFsm = .idle) (hm : r.lsu.handleMisalignedQ = false)
    (hst : r.start x = some a) : Inv (r.next x) := by
  have hshown : r.shown x = some a := by rw [shown, if_pos hf, hst]
  have hadder : r.adder a = a.partAddr false := by simp [adder, Lsu.addrIncr, hf, Access.partAddr]
  have h := shows_of_shown (x := x) hshown hadder
  have hreq : (r.lsuIn x).lsuReq = true := by simp [lsuIn, hshown, hf]
  have hlsu : r.lsuDataReq x = true := by
    simp [lsuDataReq, Lsu.step_dataReqO, Lsu.dataReqO, hf, hreq]
  have ht := h.transaction hm (by simp)
  have hsplit := h.splitMisalignedAccess
  have hg := h.dataGnt
  simp only [hlsu, Bool.true_and] at hg
  have hnext : (r.next x).access = some a := by simp [next, hst]
  simp only [Inv, hnext]
  cases hd : a.denied false <;> cases hs : a.split <;> cases hp : x.port.dataGnt <;>
    simp [hd, hp] at hg <;>
    simp [Works, next, Lsu.next, Lsu.step, hf, hm, hreq, hsplit, hs, hg, h.lsuWe, h.adderResultEx,
      h.dataPmpErr, hd, hst, hlsu, ht, Access.partAddr, Access.openParts, Access.parts,
      Access.failed, grantedBefore]

/-- The LSU waits for the last answer, or for the next access. -/
theorem inv_idle (hi : Inv r) (hf : r.lsu.lsFsm = .idle) (hst : r.start x = none) :
    Inv (r.next x) := by
  have hshown : r.shown x = none := by rw [shown, if_pos hf, hst]
  have hreq : (r.lsuIn x).lsuReq = false := by simp [lsuIn, hshown]
  have hg : (r.lsuIn x).dataGnt = false := by simp [lsuIn, hshown]
  have hv : (r.lsuIn x).dataRvalid = r.rvalid x := by simp [lsuIn, hshown]
  have hlsu : r.lsuDataReq x = false := by
    simp [lsuDataReq, Lsu.step_dataReqO, Lsu.dataReqO, hf, hreq]
  have hresp : r.respValid x = (r.rvalid x || r.lsu.pmpErrQ) := by
    simp [respValid, Lsu.lsuRespValid, hf, hv]
  cases ha : r.access with
  | none =>
      simp only [Inv, ha] at hi
      have hrv : r.rvalid x = false := by simp [rvalid, hi.answered]
      have hnext : (r.next x).access = none := by simp [next, hst, ha]
      simp only [Inv, hnext]
      constructor <;> simp [next, Lsu.next, Lsu.step, hf, hreq, hst, hg, answers, hv, hrv,
        hi.handleMisalignedQ, hi.answered]
  | some a =>
      simp only [Inv, ha, Works, hf] at hi
      obtain ⟨hm, hwe, herr, hpmp, hlast, hgr, hlen, h1, h2⟩ := hi
      cases hp : a.denied a.split with
      | true =>
          -- the answer of the PMP
          rw [hp] at hpmp hlen
          have hrv : r.rvalid x = false := by simp [rvalid, ← hlen]
          have hnext : (r.next x).access = none := by simp [next, hst, hresp, hpmp]
          simp only [Inv, hnext]
          constructor <;> simp [next, Lsu.next, Lsu.step, hf, hreq, hst, hg, answers, hv, hrv, hm]
          simpa using hlen
      | false =>
          rw [hp] at hpmp hlen
          cases hrv : r.rvalid x with
          | true =>
              have hnext : (r.next x).access = none := by simp [next, hst, hresp, hrv]
              simp only [Inv, hnext]
              constructor <;>
                simp [next, Lsu.next, Lsu.step, hf, hreq, hst, hg, answers, hv, hrv, hm]
              simpa using hlen
          | false =>
              have hnext : (r.next x).access = some a := by simp [next, hst, hresp, hrv, hpmp, ha]
              simp only [Inv, hnext]
              simp [Works, next, Lsu.next, Lsu.step, hf, hreq, hst, hg, answers, hv, hrv, hm, hwe,
                herr, hp, hlast, hgr, hlsu, h1, h2]
              simpa [hgr] using hlen

/-- A busy LSU starts no access and gives no answer. -/
theorem of_busy (hf : r.lsu.lsFsm ≠ .idle) :
    r.start x = none ∧ r.shown x = r.access ∧ r.respValid x = false := by
  have hidle : (r.lsu.lsFsm == .idle) = false := by simpa using hf
  refine ⟨by simp [start, free, hidle], by rw [shown, if_neg hf], ?_⟩
  simp [respValid, Lsu.lsuRespValid, hf]

/-- The first request waits for its grant. -/
theorem inv_waitGntMis (hi : Inv r) (ha : r.access = some a) (hf : r.lsu.lsFsm = .waitGntMis) :
    Inv (r.next x) := by
  obtain ⟨hst, hshown, hresp⟩ := of_busy (x := x) (r := r) (by rw [hf]; decide)
  simp only [Inv, ha, Works, hf] at hi
  obtain ⟨hs, hm, herr, hpmp, hgr, her, h1⟩ := hi
  have hadder : r.adder a = a.partAddr false := by simp [adder, Lsu.addrIncr, hf, Access.partAddr]
  have h := shows_of_shown (hshown.trans ha) hadder
  have hlsu : r.lsuDataReq x = true := by simp [lsuDataReq, Lsu.step_dataReqO, Lsu.dataReqO, hf]
  have hrv : r.rvalid x = false := by simp [rvalid, her, hgr]
  have ht := h.transaction hm (by simp)
  have hg := h.dataGnt
  have hv := h.dataRvalid
  simp only [hlsu, Bool.true_and] at hg
  rw [hrv] at hv
  have hnext : (r.next x).access = some a := by simp [next, hst, hresp, ha]
  simp only [Inv, hnext]
  cases hd : a.denied false <;> cases hp : x.port.dataGnt <;>
    simp [hd, hp] at hg hpmp <;>
    simp [Works, next, Lsu.next, Lsu.step, hf, hm, hg, hpmp, h.lsuWe, h.adderResultEx, hst, hlsu,
      ht, hs, hd, herr, hgr, her, answers, hv, h1, Access.partAddr, grantedBefore]

/-- The second request goes out while the first part is not answered. -/
theorem inv_waitRvalidMis (hi : Inv r) (ha : r.access = some a)
    (hf : r.lsu.lsFsm = .waitRvalidMis) : Inv (r.next x) := by
  obtain ⟨hst, hshown, hresp⟩ := of_busy (x := x) (r := r) (by rw [hf]; decide)
  simp only [Inv, ha, Works, hf] at hi
  obtain ⟨hs, hm, hwe, hpmp, hlast, hgr, her, h1⟩ := hi
  have hadder : r.adder a = a.partAddr true := by
    simp [adder, Lsu.addrIncr, hf, Access.partAddr, hlast]
  have h := shows_of_shown (hshown.trans ha) hadder
  have hlsu : r.lsuDataReq x = true := by simp [lsuDataReq, Lsu.step_dataReqO, Lsu.dataReqO, hf]
  have ht := h.transaction hm (by simp [hs])
  have hg := h.dataGnt
  have hv := h.dataRvalid
  simp only [hlsu, Bool.true_and] at hg
  have hnext : (r.next x).access = some a := by simp [next, hst, hresp, ha]
  simp only [Inv, hnext]
  cases hd : a.denied false with
  | true =>
      have hrv : r.rvalid x = false := by simp [rvalid, her, hgr, grantedBefore, hd]
      rw [hrv] at hv
      rw [hd] at hpmp
      cases hd' : a.denied true <;> cases hp : x.port.dataGnt <;>
        simp [hd', hp] at hg <;>
        simp [Works, next, Lsu.next, Lsu.step, hf, hg, hpmp, hwe, h.adderResultEx,
          h.dataPmpErr, hst, hlsu, ht, hs, hd, hd', hgr, her, answers, hv, h1, hlast,
          Access.partAddr, Access.openParts, Access.parts, Access.failed, grantedBefore]
  | false =>
      rw [hd] at hpmp
      cases hrv : r.rvalid x <;> rw [hrv] at hv <;> cases hd' : a.denied true <;>
        cases hp : x.port.dataGnt <;> simp [hd', hp] at hg <;>
        cases he : (r.lsuIn x).dataErr <;>
        simp [Works, next, Lsu.next, Lsu.step, hf, hm, hg, hpmp, hwe, h.adderResultEx,
          h.dataPmpErr, hst, hlsu, ht, hs, hd, hd', hgr, her, answers, hv, he, h1, hlast,
          Access.partAddr, Access.openParts, Access.parts, Access.failed, grantedBefore]

/-- The only or the second request waits for its grant. -/
theorem inv_waitGnt (hi : Inv r) (ha : r.access = some a) (hf : r.lsu.lsFsm = .waitGnt) :
    Inv (r.next x) := by
  obtain ⟨hst, hshown, hresp⟩ := of_busy (x := x) (r := r) (by rw [hf]; decide)
  simp only [Inv, ha, Works, hf] at hi
  obtain ⟨hm, herr, hpmp, hlast, hgr, hlen, h1, h2⟩ := hi
  have hadder : r.adder a = a.partAddr a.split := by
    cases hs : a.split <;> simp [adder, Lsu.addrIncr, hf, Access.partAddr, hm, hs]
    rw [hlast hs]
  have h := shows_of_shown (hshown.trans ha) hadder
  have hlsu : r.lsuDataReq x = true := by simp [lsuDataReq, Lsu.step_dataReqO, Lsu.dataReqO, hf]
  have hrv : r.rvalid x = false := by simp [rvalid, hlen]
  have ht := h.transaction hm id
  have hg := h.dataGnt
  have hv := h.dataRvalid
  simp only [hlsu, Bool.true_and] at hg
  rw [hrv] at hv
  have hnext : (r.next x).access = some a := by simp [next, hst, hresp, ha]
  simp only [Inv, hnext]
  cases hs : a.split <;> rw [hs] at herr hpmp hgr hg ht h2 <;> cases hd : a.denied false <;>
    cases hd' : a.denied true <;> cases hp : x.port.dataGnt <;>
    simp [hd, hd', hp] at hg hpmp <;> simp [grantedBefore, hd] at hgr <;>
    cases he : a.failed r.errs false <;> simp [he] at herr <;>
    simp_all [Works, next, Lsu.next, Lsu.step, h.lsuWe, h.adderResultEx, answers,
      Access.partAddr, Access.openParts, Access.parts, grantedBefore]

/-- Both requests are granted, and the first is not answered. -/
theorem inv_gntsDone (hi : Inv r) (ha : r.access = some a)
    (hf : r.lsu.lsFsm = .waitRvalidMisGntsDone) : Inv (r.next x) := by
  obtain ⟨hst, hshown, hresp⟩ := of_busy (x := x) (r := r) (by rw [hf]; decide)
  simp only [Inv, ha, Works, hf] at hi
  obtain ⟨hs, hm, hwe, hpmp, hd, hd', hlast, hgr, her, h1, h2⟩ := hi
  have hadder : r.adder a = a.partAddr true := by
    simp [adder, Lsu.addrIncr, hf, Access.partAddr, hlast]
  have h := shows_of_shown (hshown.trans ha) hadder
  have hlsu : r.lsuDataReq x = false := by simp [lsuDataReq, Lsu.step_dataReqO, Lsu.dataReqO, hf]
  have hg : (r.lsuIn x).dataGnt = false := by simp [h.dataGnt, hlsu]
  have hv := h.dataRvalid
  have hnext : (r.next x).access = some a := by simp [next, hst, hresp, ha]
  simp only [Inv, hnext]
  cases hrv : r.rvalid x <;> rw [hrv] at hv <;> cases he : (r.lsuIn x).dataErr <;>
    simp [Works, next, Lsu.next, Lsu.step, hf, hm, hg, hpmp, hwe, h.adderResultEx, h.dataPmpErr,
      hst, hlsu, hs, hd, hd', hgr, her, answers, hv, he, h1, h2, hlast, Access.openParts,
      Access.parts, Access.failed]
  all_goals simp [Access.partAddr]

/-- One cycle keeps the log in step with the LSU. -/
theorem inv_next (hi : Inv r) (x : AccessIn) : Inv (r.next x) := by
  cases hf : r.lsu.lsFsm with
  | idle =>
      cases hst : r.start x with
      | none => exact inv_idle hi hf hst
      | some a =>
          refine inv_start hf ?_ hst
          cases ha : r.access with
          | none =>
              simp only [Inv, ha] at hi
              exact hi.handleMisalignedQ
          | some b =>
              simp only [Inv, ha, Works, hf] at hi
              exact hi.1
  | _ =>
      cases ha : r.access with
      | none =>
          simp only [Inv, ha] at hi
          exact absurd (hf.symm.trans hi.lsFsm) (by decide)
      | some a =>
          first
            | exact inv_waitGntMis hi ha hf
            | exact inv_waitRvalidMis hi ha hf
            | exact inv_waitGnt hi ha hf
            | exact inv_gntsDone hi ha hf

/-! ### The answer to an access -/

/-- The cycle in which the LSU answers the access, all whose parts are answered. -/
structure Answered (r : LsuBus) (x : AccessIn) (a : Access) : Prop where
  access : r.access = some a
  granted : r.granted = a.openParts.map a.transaction
  answers : (r.answers x).length = r.granted.length
  raised : ∀ p ∈ a.parts, a.partAddr p ∈ r.raised
  loadErr : r.loadErr x = (!a.we && a.error (r.answers x))
  storeErr : r.storeErr x = (a.we && a.error (r.answers x))
  rdataValid : r.rdataValid x = (!a.we && !a.error (r.answers x))
  addrLastQ : a.error (r.answers x) = true →
    r.lsu.addrLastQ = a.partAddr (!a.failed (r.answers x) false)

/-- The LSU sees the response and the error of the bus. -/
theorem lsuIn_response :
    (r.lsuIn x).dataRvalid = r.rvalid x ∧ (r.lsuIn x).dataErr = x.port.dataErr := by
  rw [lsuIn]
  cases r.shown x <;> exact ⟨rfl, rfl⟩

/-- The answers of the access in the cycle that completes them: `pmpErrQ` stands for the last
part if the PMP has stopped it. -/
theorem Works.answers_cases (h : r.Works a) (hf : r.lsu.lsFsm = .idle)
    (hresp : (r.rvalid x || r.lsu.pmpErrQ) = true) :
    r.rvalid x = !a.denied a.split ∧ (r.answers x).length = r.granted.length ∧
      r.answers x = r.errs ++ if a.denied a.split then [] else [x.port.dataErr] := by
  simp only [Works, hf] at h
  obtain ⟨-, -, -, hpmp, -, -, hlen, -, -⟩ := h
  have hrv : r.rvalid x = !a.denied a.split := by
    cases hd : a.denied a.split with
    | true => simp [rvalid, ← hlen, hd]
    | false => simpa [hpmp, hd] using hresp
  obtain ⟨hv, he⟩ := lsuIn_response (r := r) (x := x)
  have hans : r.answers x = r.errs ++ if a.denied a.split then [] else [x.port.dataErr] := by
    rw [answers, hv, he, hrv]
    cases a.denied a.split <;> rfl
  refine ⟨hrv, ?_, hans⟩
  rw [hans, ← hlen]
  cases a.denied a.split <;> simp

/-- The errors that the LSU has recorded are those of the parts. -/
theorem Works.dataOrPmpErr (h : r.Works a) (hf : r.lsu.lsFsm = .idle)
    (hresp : (r.rvalid x || r.lsu.pmpErrQ) = true) :
    r.lsu.dataOrPmpErr (r.lsuIn x) = a.error (r.answers x) := by
  obtain ⟨hrv, -, hans⟩ := h.answers_cases hf hresp
  simp only [Works, hf] at h
  obtain ⟨-, -, herr, hpmp, -, hgr, hlen, -, -⟩ := h
  rw [Lsu.dataOrPmpErr, lsuIn_response.2, herr, hpmp, hans]
  rw [hgr] at hlen
  cases hs : a.split <;> rw [hs] at hlen <;> cases hd : a.denied false <;>
    cases hd' : a.denied true <;>
    simp [Access.openParts, Access.parts, hs, hd, hd'] at hlen <;>
    simp [Access.error, Access.parts, Access.failed, hs, hd, hd', hlen]

/-- Whether the first part of a split access has failed is known before the last answer. -/
theorem Works.failed_first (h : r.Works a) (hf : r.lsu.lsFsm = .idle) (hs : a.split = true)
    (l : List Bool) : a.failed (r.errs ++ l) false = a.failed r.errs false := by
  simp only [Works, hf] at h
  obtain ⟨-, -, -, -, -, hgr, hlen, -, -⟩ := h
  rw [hgr] at hlen
  cases hd : a.denied false with
  | true => simp [Access.failed, hd]
  | false =>
      have hpos : 0 < r.errs.length := by
        cases hd' : a.denied true <;>
          simp [Access.openParts, Access.parts, hs, hd, hd'] at hlen <;> omega
      simp [Access.failed, List.getElem?_append_left hpos]

/-- A response completes an access. -/
theorem answered_of_respValid (hi : Inv r) (h : r.respValid x = true) : ∃ a, r.Answered x a := by
  have hv := (lsuIn_response (r := r) (x := x)).1
  obtain ⟨hresp, hf⟩ : (r.rvalid x || r.lsu.pmpErrQ) = true ∧ r.lsu.lsFsm = .idle := by
    simpa [respValid, Lsu.lsuRespValid, hv] using h
  cases ha : r.access with
  | none =>
      simp only [Inv, ha] at hi
      simp [rvalid, hi.answered, hi.pmpErrQ] at hresp
  | some a =>
      simp only [Inv, ha] at hi
      obtain ⟨hrv, hlen, hans⟩ := hi.answers_cases hf hresp
      have herr := hi.dataOrPmpErr hf hresp
      have hfirst := hi.failed_first hf
      simp only [Works, hf] at hi
      obtain ⟨-, hwe, -, hpmp, hlast, hgr, -, h1, h2⟩ := hi
      refine ⟨a, ⟨ha, hgr, hlen, ?_, ?_, ?_, ?_, ?_⟩⟩
      · intro p hp
        have hp' : p = false ∨ p = a.split := by
          cases hs : a.split <;> simp_all [Access.parts]
        obtain rfl | rfl := hp'
        · exact h1
        · exact h2
      · rw [loadErr, Lsu.loadErr, herr, hwe, ← respValid, h]
        simp [Bool.and_comm]
      · rw [storeErr, Lsu.storeErr, herr, hwe, ← respValid, h]
        simp [Bool.and_comm]
      · -- an error of the PMP in the last part is an error of the access
        have hden : a.denied a.split = true → a.error (r.answers x) = true := by
          intro hd
          rw [← herr, Lsu.dataOrPmpErr, hpmp, hd, Bool.or_true]
        rw [rdataValid, Lsu.lsuRdataValid, herr, hwe, hv, hf, hrv]
        cases hd : a.denied a.split with
        | true => simp [hden hd]
        | false => simp [Bool.and_comm]
      · intro he
        rw [hlast]
        cases hs : a.split with
        | true => rw [hans, hfirst hs, Bool.true_and]
        | false =>
            have hfail : a.failed (r.answers x) false = true := by
              simpa [Access.error, Access.parts, hs] using he
            rw [hfail]
            rfl

end LsuBus

end CocoIbex
