import Mathlib.Tactic
import CocoIbex.Bits
import CocoIbex.Machine

/-!
# The Load-Store Unit

`ibex_load_store_unit`: the access of the data memory, one word-aligned transaction for an
aligned access and two for an access that is split at a word boundary. The five states of the
source are `LsFsm`; the outputs of the machine are functions of its state and of the inputs of
the cycle, collected in `LsuStep`.

The source has one case distinction for everything, with the grant and the response of the bus
among its inputs, so that each output seems to depend on them. A bus that answers a request in
the same cycle would close a loop. `dataReqO` is the request as a function of the state and of
the request of ID alone; it is shown to be the one of the source, and the units around the LSU
are wired with it.

`BusStep` has the rules of the data bus: a grant only for a request that the PMP lets through,
an answer only for a grant, and a new access only when the one before it is answered.

## Main results

* `step_dataReq` and `step_addrIncrReq` — the request in each state;
* `step_dataReqO` — the request of the LSU is the one that does not look at the response;
* `bus_next` — one cycle keeps the count of the requests;
* `handleMisaligned_of_idle` — an idle LSU is not in the middle of a split access, in any run.
-/

namespace CocoIbex

/-- The states of the LSU, `ls_fsm_e`. -/
inductive LsFsm
  | idle | waitGntMis | waitRvalidMis | waitGnt | waitRvalidMisGntsDone
  deriving DecidableEq, Repr

/-- The registers of the LSU. `rdataQ` holds bits 31 to 8 of the first response. -/
structure Lsu where
  lsFsm : LsFsm
  handleMisalignedQ : Bool
  pmpErrQ : Bool
  lsuErrQ : Bool
  addrLastQ : BitVec 32
  rdataQ : BitVec 24
  rdataOffsetQ : BitVec 2
  dataTypeQ : BitVec 2
  dataSignExtQ : Bool
  dataWeQ : Bool
  deriving DecidableEq, Repr

/-- What the LSU sees in one cycle: the request of ID with the address of the adder, and
the responses of the bus. -/
structure LsuIn where
  lsuReq : Bool
  lsuWe : Bool
  lsuType : BitVec 2
  lsuSignExt : Bool
  lsuWdata : BitVec 32
  adderResultEx : BitVec 32
  dataGnt : Bool
  dataRvalid : Bool
  dataErr : Bool
  dataPmpErr : Bool
  dataRdata : BitVec 32
  deriving DecidableEq, Repr

namespace LsuIn

/-- `data_offset`. -/
def dataOffset (x : LsuIn) : BitVec 2 := x.adderResultEx.extractLsb 1 0

/-- `split_misaligned_access`: the access crosses a word boundary. -/
def splitMisalignedAccess (x : LsuIn) : Bool :=
  (x.lsuType == 0b00#2 && x.dataOffset != 0b00#2)
    || (x.lsuType == 0b01#2 && x.dataOffset == 0b11#2)

/-- `data_addr_o`, the word-aligned address. -/
def dataAddr (x : LsuIn) : BitVec 32 := x.adderResultEx.extractLsb 31 2 ++ 0b00#2

/-- `data_wdata_o`, the write data rotated to the byte lanes. -/
def dataWdata (x : LsuIn) : BitVec 32 :=
  match x.dataOffset with
  | 0b01#2 => x.lsuWdata.extractLsb 23 0 ++ x.lsuWdata.extractLsb 31 24
  | 0b10#2 => x.lsuWdata.extractLsb 15 0 ++ x.lsuWdata.extractLsb 31 16
  | 0b11#2 => x.lsuWdata.extractLsb 7 0 ++ x.lsuWdata.extractLsb 31 8
  | _ => x.lsuWdata

end LsuIn

/-- The combinational signals that the machine assigns in its state. -/
structure LsuStep where
  lsFsmNs : LsFsm
  dataReq : Bool := false
  addrIncrReq : Bool := false
  handleMisalignedD : Bool
  pmpErrD : Bool
  lsuErrD : Bool
  addrUpdate : Bool := false
  ctrlUpdate : Bool := false
  rdataUpdate : Bool := false
  perfLoad : Bool := false
  perfStore : Bool := false
  deriving DecidableEq, Repr

namespace Lsu

/-- The registers after a reset. -/
def reset : Lsu where
  lsFsm := .idle
  handleMisalignedQ := false
  pmpErrQ := false
  lsuErrQ := false
  addrLastQ := 0#32
  rdataQ := 0#24
  rdataOffsetQ := 0b00#2
  dataTypeQ := 0b00#2
  dataSignExtQ := false
  dataWeQ := false

/-- The combinational part of the machine. -/
def step (s : Lsu) (x : LsuIn) : LsuStep :=
  let hold : LsuStep :=
    { lsFsmNs := s.lsFsm, handleMisalignedD := s.handleMisalignedQ, pmpErrD := s.pmpErrQ
      lsuErrD := s.lsuErrQ }
  match s.lsFsm with
  | .idle =>
    if x.lsuReq then
      let req : LsuStep :=
        { hold with
          dataReq := true, pmpErrD := x.dataPmpErr, lsuErrD := false
          perfLoad := !x.lsuWe, perfStore := x.lsuWe }
      if x.dataGnt then
        { req with
          ctrlUpdate := true, addrUpdate := true
          handleMisalignedD := x.splitMisalignedAccess
          lsFsmNs := if x.splitMisalignedAccess then .waitRvalidMis else .idle }
      else
        { req with lsFsmNs := if x.splitMisalignedAccess then .waitGntMis else .waitGnt }
    else { hold with pmpErrD := false }
  | .waitGntMis =>
    if x.dataGnt || s.pmpErrQ then
      { hold with
        dataReq := true, addrUpdate := true, ctrlUpdate := true, handleMisalignedD := true
        lsFsmNs := .waitRvalidMis }
    else { hold with dataReq := true }
  | .waitRvalidMis =>
    -- push out the second request, at the incremented address
    if x.dataRvalid || s.pmpErrQ then
      { hold with
        dataReq := true, addrIncrReq := true
        pmpErrD := x.dataPmpErr
        lsuErrD := x.dataErr || s.pmpErrQ
        rdataUpdate := !s.dataWeQ
        lsFsmNs := if x.dataGnt then .idle else .waitGnt
        addrUpdate := x.dataGnt && !(x.dataErr || s.pmpErrQ)
        handleMisalignedD := !x.dataGnt }
    else if x.dataGnt then
      { hold with
        dataReq := true, addrIncrReq := true
        lsFsmNs := .waitRvalidMisGntsDone, handleMisalignedD := false }
    else { hold with dataReq := true, addrIncrReq := true }
  | .waitGnt =>
    if x.dataGnt || s.pmpErrQ then
      { hold with
        dataReq := true, addrIncrReq := s.handleMisalignedQ
        ctrlUpdate := true, addrUpdate := !s.lsuErrQ, lsFsmNs := .idle
        handleMisalignedD := false }
    else { hold with dataReq := true, addrIncrReq := s.handleMisalignedQ }
  | .waitRvalidMisGntsDone =>
    if x.dataRvalid then
      { hold with
        addrIncrReq := true, pmpErrD := x.dataPmpErr, lsuErrD := x.dataErr
        addrUpdate := !x.dataErr, rdataUpdate := !s.dataWeQ, lsFsmNs := .idle }
    else { hold with addrIncrReq := true }

/-- One clock edge. Without `rdata_update` the captured bytes are cleared. -/
def next (s : Lsu) (x : LsuIn) : Lsu :=
  let o := s.step x
  { lsFsm := o.lsFsmNs
    handleMisalignedQ := o.handleMisalignedD
    pmpErrQ := o.pmpErrD
    lsuErrQ := o.lsuErrD
    addrLastQ := if o.addrUpdate then x.adderResultEx else s.addrLastQ
    rdataQ := if o.rdataUpdate then x.dataRdata.extractLsb 31 8 else 0#24
    rdataOffsetQ := if o.ctrlUpdate then x.dataOffset else s.rdataOffsetQ
    dataTypeQ := if o.ctrlUpdate then x.lsuType else s.dataTypeQ
    dataSignExtQ := if o.ctrlUpdate then x.lsuSignExt else s.dataSignExtQ
    dataWeQ := if o.ctrlUpdate then x.lsuWe else s.dataWeQ }

/-- `addr_incr_req_o` in each state. -/
theorem step_addrIncrReq (s : Lsu) (x : LsuIn) :
    (s.step x).addrIncrReq = match s.lsFsm with
      | .waitRvalidMis | .waitRvalidMisGntsDone => true
      | .waitGnt => s.handleMisalignedQ
      | .idle | .waitGntMis => false := by
  cases h : s.lsFsm <;> simp only [step, h] <;> split_ifs <;> rfl

/-- `data_req_o` in each state. -/
theorem step_dataReq (s : Lsu) (x : LsuIn) :
    (s.step x).dataReq = match s.lsFsm with
      | .idle => x.lsuReq
      | .waitGntMis | .waitRvalidMis | .waitGnt => true
      | .waitRvalidMisGntsDone => false := by
  cases h : s.lsFsm <;> simp only [step, h] <;> split_ifs <;> simp_all

/-- `addr_incr_req_o` does not depend on the answers of the bus. -/
def addrIncr (s : Lsu) : Bool :=
  match s.lsFsm with
  | .waitRvalidMis | .waitRvalidMisGntsDone => true
  | .waitGnt => s.handleMisalignedQ
  | .idle | .waitGntMis => false

/-- Neither does `data_req_o`. -/
def dataReqO (s : Lsu) (lsuReq : Bool) : Bool :=
  match s.lsFsm with
  | .idle => lsuReq
  | .waitGntMis | .waitRvalidMis | .waitGnt => true
  | .waitRvalidMisGntsDone => false

/-- The request of the LSU is the one that does not look at the response. -/
theorem step_dataReqO (s : Lsu) (x : LsuIn) : (s.step x).dataReq = s.dataReqO x.lsuReq :=
  step_dataReq s x

/-! ### Outputs -/

/-- `data_be_o`, the byte enables. -/
def dataBe (s : Lsu) (x : LsuIn) : BitVec 4 :=
  match x.lsuType with
  | 0b00#2 =>
    if s.handleMisalignedQ then
      -- the second part of a split access
      match x.dataOffset with
      | 0b00#2 => 0b0000#4 | 0b01#2 => 0b0001#4 | 0b10#2 => 0b0011#4 | _ => 0b0111#4
    else
      match x.dataOffset with
      | 0b00#2 => 0b1111#4 | 0b01#2 => 0b1110#4 | 0b10#2 => 0b1100#4 | _ => 0b1000#4
  | 0b01#2 =>
    if s.handleMisalignedQ then 0b0001#4
    else
      match x.dataOffset with
      | 0b00#2 => 0b0011#4 | 0b01#2 => 0b0110#4 | 0b10#2 => 0b1100#4 | _ => 0b1000#4
  | _ =>
    match x.dataOffset with
    | 0b00#2 => 0b0001#4 | 0b01#2 => 0b0010#4 | 0b10#2 => 0b0100#4 | _ => 0b1000#4

/-- `rdata_w_ext`, the realigned word. -/
def rdataWExt (s : Lsu) (rdata : BitVec 32) : BitVec 32 :=
  match s.rdataOffsetQ with
  | 0b01#2 => rdata.extractLsb 7 0 ++ s.rdataQ
  | 0b10#2 => rdata.extractLsb 15 0 ++ s.rdataQ.extractLsb 23 8
  | 0b11#2 => rdata.extractLsb 23 0 ++ s.rdataQ.extractLsb 23 16
  | _ => rdata

/-- A half word extended to a word. -/
def extH (signExt : Bool) (h : BitVec 16) : BitVec 32 :=
  if !signExt then 0x0000#16 ++ h else Bits.fill 16 (h.getLsbD 15) ++ h

/-- A byte extended to a word. -/
def extB (signExt : Bool) (b : BitVec 8) : BitVec 32 :=
  if !signExt then 0x000000#24 ++ b else Bits.fill 24 (b.getLsbD 7) ++ b

/-- `rdata_h_ext`, the extended half word. -/
def rdataHExt (s : Lsu) (rdata : BitVec 32) : BitVec 32 :=
  match s.rdataOffsetQ with
  | 0b01#2 => extH s.dataSignExtQ (rdata.extractLsb 23 8)
  | 0b10#2 => extH s.dataSignExtQ (rdata.extractLsb 31 16)
  | 0b11#2 => extH s.dataSignExtQ (rdata.extractLsb 7 0 ++ s.rdataQ.extractLsb 23 16)
  | _ => extH s.dataSignExtQ (rdata.extractLsb 15 0)

/-- `rdata_b_ext`, the extended byte. -/
def rdataBExt (s : Lsu) (rdata : BitVec 32) : BitVec 32 :=
  match s.rdataOffsetQ with
  | 0b01#2 => extB s.dataSignExtQ (rdata.extractLsb 15 8)
  | 0b10#2 => extB s.dataSignExtQ (rdata.extractLsb 23 16)
  | 0b11#2 => extB s.dataSignExtQ (rdata.extractLsb 31 24)
  | _ => extB s.dataSignExtQ (rdata.extractLsb 7 0)

/-- `lsu_rdata_o`. -/
def lsuRdata (s : Lsu) (x : LsuIn) : BitVec 32 :=
  match s.dataTypeQ with
  | 0b00#2 => s.rdataWExt x.dataRdata
  | 0b01#2 => s.rdataHExt x.dataRdata
  | _ => s.rdataBExt x.dataRdata

/-- `data_or_pmp_err`. -/
def dataOrPmpErr (s : Lsu) (x : LsuIn) : Bool := s.lsuErrQ || x.dataErr || s.pmpErrQ

/-- `lsu_resp_valid_o`: the access is complete, with or without an error. -/
def lsuRespValid (s : Lsu) (x : LsuIn) : Bool :=
  (x.dataRvalid || s.pmpErrQ) && s.lsFsm == .idle

/-- `lsu_rdata_valid_o`: the data of a load is there. -/
def lsuRdataValid (s : Lsu) (x : LsuIn) : Bool :=
  s.lsFsm == .idle && x.dataRvalid && !s.dataOrPmpErr x && !s.dataWeQ

/-- `lsu_req_done_o`: the last transaction of the access is granted. -/
def lsuReqDone (s : Lsu) (x : LsuIn) : Bool :=
  (x.lsuReq || s.lsFsm != .idle) && (s.step x).lsFsmNs == .idle

/-- `load_err_o`. -/
def loadErr (s : Lsu) (x : LsuIn) : Bool := s.dataOrPmpErr x && !s.dataWeQ && s.lsuRespValid x

/-- `store_err_o`. -/
def storeErr (s : Lsu) (x : LsuIn) : Bool := s.dataOrPmpErr x && s.dataWeQ && s.lsuRespValid x

/-- `busy_o`. -/
def busy (s : Lsu) : Bool := s.lsFsm != .idle

/-- `handle_misaligned` is clear wherever no second request is to be sent. -/
def MisalignedClear (s : Lsu) : Prop :=
  s.lsFsm = .idle ∨ s.lsFsm = .waitRvalidMisGntsDone → s.handleMisalignedQ = false

/-- One cycle keeps `handle_misaligned` clear. -/
theorem misalignedClear_next {s : Lsu} (x : LsuIn) (h : MisalignedClear s) :
    MisalignedClear (s.next x) := by
  rw [MisalignedClear] at h ⊢
  cases hf : s.lsFsm <;> simp only [next, step, hf] at h ⊢ <;> split_ifs <;> simp_all

/-- An idle LSU is not in the middle of a split access, in every run. -/
theorem handleMisaligned_of_idle (ins : List LsuIn)
    (h : (Machine.run next reset ins).lsFsm = .idle) :
    (Machine.run next reset ins).handleMisalignedQ = false :=
  Machine.run_invariant MisalignedClear (fun _ x hs => misalignedClear_next x hs) ins
    (fun _ => rfl) (Or.inl h)

/-! ### The transactions on the bus -/

/-- How many granted requests are unanswered in each state of the LSU. -/
def Bus (s : Lsu) (n : ℕ) : Prop :=
  match s.lsFsm with
  | .idle => (s.pmpErrQ = true → n = 0) ∧ n ≤ 1
  | .waitGntMis | .waitGnt => n = 0
  | .waitRvalidMis => n = if s.pmpErrQ then 0 else 1
  | .waitRvalidMisGntsDone => n = 2 ∧ s.pmpErrQ = false

/-- The bus with `n` unanswered requests keeps to its protocol, and an access starts when
none is unanswered after the cycle. -/
structure BusStep (s : Lsu) (n : ℕ) (x : LsuIn) : Prop where
  gnt : x.dataGnt = true → (s.step x).dataReq = true ∧ x.dataPmpErr = false
  rvalid : x.dataRvalid = true → n ≠ 0
  pmpWait : s.lsFsm = .waitGnt ∨ s.lsFsm = .waitGntMis → x.dataPmpErr = s.pmpErrQ
  pmpGranted : s.lsFsm = .waitRvalidMisGntsDone → x.dataPmpErr = false
  start : s.lsFsm = .idle → x.lsuReq = true → n = x.dataRvalid.toNat

variable {s : Lsu} {n : ℕ} {x : LsuIn}

/-- An access that the PMP has stopped is not granted later. -/
theorem BusStep.not_dataGnt (hok : BusStep s n x)
    (hw : s.lsFsm = .waitGnt ∨ s.lsFsm = .waitGntMis) (hp : s.pmpErrQ = true) :
    x.dataGnt = false := by
  cases hg : x.dataGnt with
  | false => rfl
  | true => exact absurd ((hok.pmpWait hw).trans hp) (by simp [(hok.gnt hg).2])

/-- There is no response to an empty bus. -/
theorem BusStep.not_dataRvalid (hok : BusStep s n x) (h : n = 0) : x.dataRvalid = false := by
  cases hr : x.dataRvalid with
  | false => rfl
  | true => exact absurd h (hok.rvalid hr)

/-- One cycle keeps the count of the requests. -/
theorem bus_next (hb : Bus s n) (hok : BusStep s n x) :
    Bus (s.next x) (n + x.dataGnt.toNat - x.dataRvalid.toNat) := by
  have hgnt := hok.gnt
  simp only [step_dataReq] at hgnt
  cases hf : s.lsFsm with
  | idle =>
      simp only [Bus, hf] at hb
      simp only [hf] at hgnt
      cases hreq : x.lsuReq with
      | false =>
          have hg : x.dataGnt = false := by
            simpa [hreq] using hgnt
          simp [Bus, next, step, hf, hreq, hg]
          omega
      | true =>
          have hn := hok.start hf hreq
          cases hsplit : x.splitMisalignedAccess <;> cases hg : x.dataGnt with
          | false => simp [Bus, next, step, hf, hreq, hsplit, hg, hn]
          | true => simp [Bus, next, step, hf, hreq, hsplit, hg, hn, (hgnt hg).2]
  | waitGntMis =>
      simp only [Bus, hf] at hb
      have hr := hok.not_dataRvalid hb
      cases hp : s.pmpErrQ with
      | true =>
          have hg := hok.not_dataGnt (Or.inr hf) hp
          simp [Bus, next, step, hf, hg, hr, hp, hb]
      | false =>
          cases hg : x.dataGnt <;> simp [Bus, next, step, hf, hg, hr, hp, hb]
  | waitRvalidMis =>
      simp only [Bus, hf] at hb
      cases hp : s.pmpErrQ with
      | true =>
          simp only [hp, if_true] at hb
          have hr := hok.not_dataRvalid hb
          cases hg : x.dataGnt with
          | false => simp [Bus, next, step, hf, hg, hr, hp, hb]
          | true => simp [Bus, next, step, hf, hg, hr, hp, hb, (hgnt hg).2]
      | false =>
          simp only [hp] at hb
          cases hr : x.dataRvalid <;> cases hg : x.dataGnt with
          | false => simp [Bus, next, step, hf, hg, hr, hp, hb]
          | true => simp [Bus, next, step, hf, hg, hr, hp, hb, (hgnt hg).2]
  | waitGnt =>
      simp only [Bus, hf] at hb
      have hr := hok.not_dataRvalid hb
      cases hp : s.pmpErrQ with
      | true =>
          have hg := hok.not_dataGnt (Or.inl hf) hp
          simp [Bus, next, step, hf, hg, hr, hp, hb]
      | false =>
          cases hg : x.dataGnt <;> simp [Bus, next, step, hf, hg, hr, hp, hb]
  | waitRvalidMisGntsDone =>
      simp only [Bus, hf] at hb
      simp only [hf] at hgnt
      have hg : x.dataGnt = false := by
        simpa using hgnt
      cases hr : x.dataRvalid <;>
        simp [Bus, next, step, hf, hg, hr, hb, hok.pmpGranted hf]

end Lsu

end CocoIbex
