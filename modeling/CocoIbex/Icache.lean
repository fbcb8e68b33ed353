import CocoIbex.AgeMatrix
import CocoIbex.FetchStream
import CocoIbex.Secded

/-!
# The Instruction Cache

`ibex_icache` with its default sizes: 4 kB in two ways, lines of two words, and four fill
buffers. A granted lookup reads both ways and takes a fill buffer, in which it stays until its
line has been delivered to the core and, after a miss, written to the RAMs. All that is under
way is kept in the fill buffers; they are told apart by their age alone.

The RAMs may lose bits: `tagFlip` and `dataFlip` are the bits that change in this cycle, ahead
of the access of the cycle. Where the ECC is left out, the check bits of a tag are zero and
those of a line as well.

The signals have the names of the source and stand in the order of its stages: the lookup of the
cycle (IC0), the hit and the ECC check of the lookup before it (IC1), the fill buffers with
their three counters and their arbitration for the RAMs, the bus and the output, and the output
with its skid buffer. What the source writes for all fill buffers in a loop is a function of the
buffer's number. A parameter of the source that is a choice of the build (`BranchCache`,
`ICacheECC`) is a field of `IcacheParams`.

Registers without a reset hold anything at first, and so do the RAMs (`AtReset`).

## Main results

* `atReset_quiet` — ahead of the invalidation the cache has nothing under way. All other results
  are about runs, in the modules on the fill buffers, the handshakes and the memory.
-/

namespace CocoIbex

open OneHot

/-- `ICacheECC`, `SpecRequest` and `BranchCache`. -/
structure IcacheParams where
  icacheECC : Bool
  specRequest : Bool
  branchCache : Bool
  deriving DecidableEq

/-- The registers of a fill buffer. -/
@[ext]
structure FillBuf where
  busy : Bool
  older : Fin 4 → Bool
  stale : Bool
  cache : Bool
  hit : Bool
  extCnt : BitVec 2
  extHold : Bool
  rvdCnt : BitVec 2
  ramDone : Bool
  outCnt : BitVec 2
  /-- an error of each beat -/
  err : BitVec 1 → Bool
  addr : BitVec 32
  way : Fin 2 → Bool
  data : BitVec 64

/-- The registers of the cache, and its RAMs with their output registers. -/
@[ext]
structure Icache where
  prefetchAddr : BitVec 32
  lookupValidIc1 : Bool
  lookupAddrIc1 : BitVec 21
  lookupIndexIc1 : BitVec 8
  fillInIc1 : Fin 4 → Bool
  roundRobinWay : Fin 2 → Bool
  eccCorrectionWrite : Bool
  eccCorrectionWays : Fin 2 → Bool
  eccCorrectionIndex : BitVec 8
  cacheCnt : BitVec 2
  fb : Fin 4 → FillBuf
  skidValid : Bool
  skidData : BitVec 16
  skidErr : Bool
  outputAddr : BitVec 31
  resetInval : Bool
  invalProg : Bool
  invalIndex : BitVec 8
  tagRam : Fin 2 → BitVec 8 → BitVec 28
  tagRdataIc1 : Fin 2 → BitVec 28
  dataRam : Fin 2 → BitVec 8 → BitVec 72
  dataRdataIc1 : Fin 2 → BitVec 72

/-- What the cache sees in one cycle. -/
structure IcacheIn where
  req : Bool
  branch : Bool
  addr : BitVec 32
  ready : Bool
  instrGnt : Bool
  instrRdata : BitVec 32
  instrErr : Bool
  instrPmpErr : Bool
  instrRvalid : Bool
  icacheEnable : Bool
  icacheInval : Bool
  tagFlip : Fin 2 → BitVec 8 → BitVec 28
  dataFlip : Fin 2 → BitVec 8 → BitVec 72

/-- A cycle without any input. -/
def IcacheIn.idle : IcacheIn where
  req := false
  branch := false
  addr := 0#32
  ready := false
  instrGnt := false
  instrRdata := 0#32
  instrErr := false
  instrPmpErr := false
  instrRvalid := false
  icacheEnable := false
  icacheInval := false
  tagFlip := fun _ _ => 0#28
  dataFlip := fun _ _ => 0#72

/-- The way that is taken first after reset. -/
def firstWay (w : Fin 2) : Bool := decide (w = 0)

/-- The index of an address in the RAMs. -/
def indexOf (a : BitVec 32) : BitVec 8 := a.extractLsb' 3 8

/-- The bits of an address that the tag keeps. -/
def tagOf (a : BitVec 32) : BitVec 21 := a.extractLsb' 11 21

/-- The word of a line at an offset. -/
def beatOf (off : BitVec 1) (d : BitVec 64) : BitVec 32 := d.extractLsb' (32 * off.toNat) 32

namespace FillBuf

variable (b : FillBuf)

/-- The word of its line at which a fill buffer begins. -/
def firstOff : BitVec 1 := b.addr.extractLsb' 2 1

/-- `fill_rvd_beat`. -/
def rvdBeat : BitVec 2 := (0#1 ++ b.firstOff) + b.rvdCnt

/-- `fill_ext_off`. -/
def extOff : BitVec 1 := b.firstOff + b.extCnt.setWidth 1

/-- `fill_rvd_off`. -/
def rvdOff : BitVec 1 := b.rvdBeat.setWidth 1

/-- `fill_out_done`. -/
def outDone : Bool := b.outCnt.getLsbD 1

/-- An error of some beat. -/
def anyErr : Bool := b.err 0#1 || b.err 1#1

/-- `fill_ram_req`. -/
def ramReq : Bool :=
  b.busy && b.rvdCnt.getLsbD 1 && !b.hit && b.cache && !b.anyErr && !b.ramDone

/-- The address of the word that a fill buffer requests next. -/
def extReqAddr : BitVec 30 := b.addr.extractLsb' 3 29 ++ b.extOff

end FillBuf

namespace Icache

variable (p : IcacheParams) (s : Icache) (x : IcacheIn)

/-! ### The state of the fill buffers -/

/-- `fill_busy_q`. -/
def busy (i : Fin 4) : Bool := (s.fb i).busy

/-- `fill_older_q`. -/
def older (i j : Fin 4) : Bool := (s.fb i).older j

/-- Every fill buffer is busy. -/
def allBusy : Bool := !anyOf fun i => !s.busy i

/-- `fb_fill_level`. -/
def fillLevel : BitVec 2 :=
  (List.finRange 4).foldl
    (fun n i => if (s.fb i).busy && !(s.fb i).stale then n + 1#2 else n) 0#2

/-- `fill_alloc_sel`: the lowest buffer that is free. -/
def fillAllocSel (i : Fin 4) : Bool := !s.busy i && !anyOf fun j => decide (j < i) && !s.busy j

/-! ### Pipeline stage IC0 -/

/-- `lookup_throttle`. -/
def lookupThrottle : Bool := decide (2#2 < s.fillLevel)

/-- `ecc_write_req`. -/
def eccWriteReq : Bool := p.icacheECC && s.eccCorrectionWrite

/-- `lookup_req_ic0`, which is `lookup_grant_ic0` as well. -/
def lookupGrantIc0 : Bool :=
  x.req && !s.allBusy && (x.branch || !s.lookupThrottle) && !s.eccWriteReq p

/-- `lookup_addr_ic0`. -/
def lookupAddrIc0 : BitVec 32 := if x.branch then x.addr else s.prefetchAddr

/-- `prefetch_addr_d`. -/
def prefetchAddrD : BitVec 32 :=
  if s.lookupGrantIc0 p x then ((s.lookupAddrIc0 x).extractLsb' 3 29 ++ 0#3) + 8#32 else x.addr

/-- `fill_req_ic0`. -/
def fillReqIc0 : Bool := anyOf fun i => (s.fb i).ramReq

/-- `fill_grant_ic0`. -/
def fillGrantIc0 : Bool :=
  s.fillReqIc0 && !s.lookupGrantIc0 p x && !s.invalProg && !s.eccWriteReq p

/-- `lookup_actual_ic0`. -/
def lookupActualIc0 : Bool := s.lookupGrantIc0 p x && x.icacheEnable && !s.invalProg

/-- `fill_ram_arb`. -/
def fillRamArb (i : Fin 4) : Bool :=
  s.fillGrantIc0 p x && arb (fun j => (s.fb j).ramReq) s.older i

/-- `fill_ram_req_addr`. -/
def fillRamReqAddr : BitVec 32 := orOf (s.fillRamArb p x) fun i => (s.fb i).addr

/-- `fill_ram_req_way`. -/
def fillRamReqWay (w : Fin 2) : Bool := anyOf fun i => s.fillRamArb p x i && (s.fb i).way w

/-- `fill_ram_req_data`. -/
def fillRamReqData : BitVec 64 := orOf (s.fillRamArb p x) fun i => (s.fb i).data

/-- `fill_tag_ic0`. -/
def fillTagIc0 : BitVec 22 :=
  BitVec.ofBool (!s.invalProg && !s.eccWriteReq p) ++ tagOf (s.fillRamReqAddr p x)

/-- `tag_req_ic0`. -/
def tagReqIc0 : Bool := s.lookupGrantIc0 p x || s.fillReqIc0 || s.invalProg || s.eccWriteReq p

/-- `tag_index_ic0`, which is `data_index_ic0` as well. -/
def tagIndexIc0 : BitVec 8 :=
  if s.invalProg then s.invalIndex
  else if s.eccWriteReq p then s.eccCorrectionIndex
  else if s.fillGrantIc0 p x then indexOf (s.fillRamReqAddr p x)
  else indexOf (s.lookupAddrIc0 x)

/-- `tag_banks_ic0`, which is `data_banks_ic0` as well. -/
def tagBanksIc0 (w : Fin 2) : Bool :=
  if s.eccWriteReq p then s.eccCorrectionWays w
  else if s.fillGrantIc0 p x then s.fillRamReqWay p x w
  else true

/-- `tag_write_ic0`, which is `data_write_ic0` as well. -/
def tagWriteIc0 : Bool := s.fillGrantIc0 p x || s.invalProg || s.eccWriteReq p

/-- `data_req_ic0`. -/
def dataReqIc0 : Bool := s.lookupGrantIc0 p x || s.fillReqIc0

/-- `tag_wdata_ic0`. -/
def tagWdataIc0 : BitVec 28 :=
  if p.icacheECC then Secded.enc 6 secded2822 (s.fillTagIc0 p x) else 0#6 ++ s.fillTagIc0 p x

/-- `data_wdata_ic0`. -/
def dataWdataIc0 : BitVec 72 :=
  if p.icacheECC then Secded.enc 8 secded7264 (s.fillRamReqData p x)
  else 0#8 ++ s.fillRamReqData p x

/-- The tag RAM with the bits that change in this cycle. -/
def tagMem (w : Fin 2) (k : BitVec 8) : BitVec 28 := s.tagRam w k ^^^ x.tagFlip w k

/-- The data RAM with the bits that change in this cycle. -/
def dataMem (w : Fin 2) (k : BitVec 8) : BitVec 72 := s.dataRam w k ^^^ x.dataFlip w k

/-! ### Pipeline stage IC1 -/

/-- `tag_match_ic1`. -/
def tagMatchIc1 (w : Fin 2) : Bool :=
  (s.tagRdataIc1 w).extractLsb' 0 22 == 1#1 ++ s.lookupAddrIc1

/-- `tag_invalid_ic1`. -/
def tagInvalidIc1 (w : Fin 2) : Bool := !(s.tagRdataIc1 w).getLsbD 21

/-- `tag_hit_ic1`. -/
def tagHitIc1 : Bool := anyOf s.tagMatchIc1

/-- `hit_data_ic1`. -/
def hitDataIc1 : BitVec 72 := orOf s.tagMatchIc1 s.dataRdataIc1

/-- `lowest_invalid_way_ic1`. -/
def lowestInvalidWayIc1 (w : Fin 2) : Bool :=
  s.tagInvalidIc1 w && !anyOf fun v => decide (v < w) && s.tagInvalidIc1 v

/-- `round_robin_way_ic1`. -/
def roundRobinWayIc1 (w : Fin 2) : Bool := s.roundRobinWay (w - 1)

/-- `sel_way_ic1`. -/
def selWayIc1 (w : Fin 2) : Bool :=
  if anyOf s.tagInvalidIc1 then s.lowestInvalidWayIc1 w else s.roundRobinWay w

/-- `tag_err_ic1`. -/
def tagErrIc1 (w : Fin 2) : Bool := Secded.err 22 6 secded2822 (s.tagRdataIc1 w) != 0#2

/-- `data_err_ic1` is not zero. -/
def dataErrIc1 : Bool := Secded.err 64 8 secded7264 s.hitDataIc1 != 0#2

/-- `ecc_err_ic1`. -/
def eccErrIc1 : Bool :=
  p.icacheECC && s.lookupValidIc1 && (s.dataErrIc1 || anyOf s.tagErrIc1)

/-- `ecc_correction_ways_d`. -/
def eccCorrectionWaysD (w : Fin 2) : Bool := s.tagErrIc1 w || (s.tagMatchIc1 w && s.dataErrIc1)

/-- `fill_hit_ic1`. -/
def fillHitIc1 (i : Fin 4) : Bool := s.lookupValidIc1 && s.fillInIc1 i && s.tagHitIc1

/-! ### Allocation to the cache -/

/-- `cache_cnt_d`. -/
def cacheCntD : BitVec 2 :=
  if x.branch then 2#2
  else s.cacheCnt - if s.lookupGrantIc0 p x && s.cacheCnt != 0#2 then 1#2 else 0#2

/-- `fill_cache_new`. -/
def fillCacheNew : Bool :=
  (!p.branchCache || x.branch || s.cacheCnt != 0#2) && x.icacheEnable && !x.icacheInval
    && !s.invalProg

/-! ### External requests of the fill buffers -/

/-- `gnt_or_pmp_err`. -/
def gntOrPmpErr : Bool := x.instrGnt || x.instrPmpErr

/-- `gnt_not_pmp_err`. -/
def gntNotPmpErr : Bool := x.instrGnt && !x.instrPmpErr

/-- `fill_ext_done`. -/
def fillExtDone (i : Fin 4) : Bool :=
  ((s.fb i).extCnt.getLsbD 1 || (s.fillHitIc1 i && !s.eccErrIc1 p) || (s.fb i).hit
    || (s.fb i).err (s.fb i).extOff || (!(s.fb i).cache && (x.branch || (s.fb i).stale)))
    && !(s.fb i).extHold

/-- `fill_ext_req`. -/
def fillExtReq (i : Fin 4) : Bool := s.busy i && !s.fillExtDone p x i

/-- `fill_ext_arb`. -/
def fillExtArb : Fin 4 → Bool := arb (s.fillExtReq p x) s.older

/-- A lookup of this cycle may ask for its first word at once: no buffer has a request. -/
def specReq : Bool := (p.specRequest || x.branch) && !anyOf (s.fillExtReq p x)

/-- `fill_spec_done`. -/
def fillSpecDone : Bool := s.specReq p x && gntNotPmpErr x

/-- `fill_spec_hold`. -/
def fillSpecHold : Bool := s.specReq p x && !gntOrPmpErr x

/-- `fill_rvd_done`. -/
def fillRvdDone (i : Fin 4) : Bool := s.fillExtDone p x i && (s.fb i).rvdCnt == (s.fb i).extCnt

/-- `fill_rvd_exp`. -/
def fillRvdExp (i : Fin 4) : Bool := s.busy i && !s.fillRvdDone p x i

/-- `fill_rvd_arb`. -/
def fillRvdArb (i : Fin 4) : Bool := x.instrRvalid && arb (s.fillRvdExp p x) s.older i

/-- `instr_req_o`. -/
def instrReq : Bool :=
  ((p.specRequest || x.branch) && s.lookupGrantIc0 p x) || anyOf (s.fillExtReq p x)

/-- The word of `instr_addr_o`. -/
def instrAddr : BitVec 30 :=
  if anyOf (s.fillExtReq p x) then orOf (s.fillExtArb p x) fun i => (s.fb i).extReqAddr
  else wordOfAddr (s.lookupAddrIc0 x)

/-- `busy_o`. -/
def busyO : Bool := s.invalProg || anyOf fun i => s.busy i && !s.fillRvdDone p x i

/-! ### The data of the fill buffers -/

/-- `fill_out_req`. -/
def fillOutReq (i : Fin 4) : Bool :=
  s.busy i && !(s.fb i).stale && !(s.fb i).outDone
    && (s.fillHitIc1 i || (s.fb i).hit || (s.fb i).err ((s.fb i).outCnt.setWidth 1)
      || decide ((s.fb i).outCnt < (s.fb i).rvdBeat) || s.fillRvdArb p x i)

/-- A fill buffer has words to deliver. -/
def outWaits (i : Fin 4) : Bool := s.busy i && !(s.fb i).outDone && !(s.fb i).stale

/-- `fill_data_sel`. -/
def fillDataSel (i : Fin 4) : Bool := !anyOf fun j => s.outWaits j && s.older i j

/-- `fill_out_arb`. -/
def fillOutArb (i : Fin 4) : Bool := s.fillOutReq p x i && s.fillDataSel i

/-- `fill_data_reg`. -/
def fillDataReg (i : Fin 4) : Bool :=
  s.busy i && !(s.fb i).stale && !(s.fb i).outDone && s.fillDataSel i
    && (decide ((s.fb i).outCnt < (s.fb i).rvdBeat) || (s.fb i).hit || (s.fb i).anyErr)

/-- `fill_data_hit`. -/
def fillDataHit (i : Fin 4) : Bool := s.busy i && s.fillHitIc1 i && s.fillDataSel i

/-- `fill_data_rvd`. -/
def fillDataRvd (i : Fin 4) : Bool :=
  s.busy i && s.fillRvdArb p x i && !(s.fb i).hit && !(s.fb i).stale && !(s.fb i).outDone
    && (s.fb i).rvdBeat == (s.fb i).outCnt && s.fillDataSel i

/-- `fill_out_data`. -/
def fillOutData : BitVec 64 := orOf s.fillDataReg fun i => (s.fb i).data

/-- `fill_out_err`. -/
def fillOutErr (off : BitVec 1) : Bool := anyOf fun i => s.fillDataReg i && (s.fb i).err off

/-! ### The output -/

/-- `line_data`. -/
def lineData : BitVec 64 :=
  if anyOf s.fillDataHit then s.hitDataIc1.extractLsb' 0 64 else s.fillOutData

/-- `line_err`. -/
def lineErr (off : BitVec 1) : Bool := if anyOf s.fillDataHit then false else s.fillOutErr off

/-- The word of the line that is at the output. When data has been skidded, the output
address is behind by one. -/
def lineOff : BitVec 1 := s.outputAddr.extractLsb' 1 1 + BitVec.ofBool s.skidValid

/-- `output_data`. -/
def outputData : BitVec 32 :=
  if anyOf (s.fillDataRvd p x) then x.instrRdata else beatOf s.lineOff s.lineData

/-- `output_err`. -/
def outputErr : Bool :=
  if anyOf (s.fillDataRvd p x) then x.instrErr else s.lineErr s.lineOff

/-- `data_valid`. -/
def dataValid : Bool := anyOf (s.fillOutArb p x) && !s.eccErrIc1 p

/-- `skid_complete_instr`. -/
def skidCompleteInstr : Bool := s.skidValid && isCompressedHalf s.skidData

/-- `output_ready`. -/
def outputReady : Bool := x.ready && !s.skidCompleteInstr

/-- `output_data_lo`. -/
def outputDataLo : BitVec 16 := halfOf (unaligned s.outputAddr) (s.outputData p x)

/-- `output_data_hi`. -/
def outputDataHi : BitVec 16 := halfOf (!unaligned s.outputAddr) (s.outputData p x)

/-- The low half of `rdata_o`. -/
def rdataLo : BitVec 16 := if s.skidValid then s.skidData else s.outputDataLo p x

/-- `output_compressed`. -/
def outputCompressed : Bool := isCompressedHalf (s.rdataLo p x)

/-- `skid_valid_d`. -/
def skidValidD : Bool :=
  if x.branch then false
  else if s.skidValid then !(x.ready && isCompressedHalf s.skidData)
  else (unaligned s.outputAddr ^^ s.outputCompressed p x) && s.dataValid p x && x.ready

/-- `valid_o`. -/
def valid : Bool :=
  s.skidCompleteInstr
    || (s.dataValid p x && (!unaligned s.outputAddr || s.skidValid || s.outputErr p x
      || (s.outputData p x).extractLsb' 16 2 != 0b11#2))

/-- `rdata_o`, `addr_o`, `err_o` and `err_plus2_o`. -/
def out : FetchOut where
  rdata := s.outputDataHi p x ++ s.rdataLo p x
  addr := s.outputAddr ++ 0#1
  err := (s.skidValid && s.skidErr) || (!s.skidCompleteInstr && s.outputErr p x)
  errPlus2 := s.skidValid && !s.skidErr

/-- `output_addr_d`. -/
def outputAddrD : BitVec 31 :=
  if x.branch then x.addr.extractLsb' 1 31
  else s.outputAddr + if s.outputCompressed p x then 1#31 else 2#31

/-! ### Invalidations -/

/-- `start_inval`. -/
def startInval : Bool := (!s.resetInval || x.icacheInval) && !s.invalProg

/-- `inval_prog_d`. -/
def invalProgD : Bool := s.startInval x || (s.invalProg && s.invalIndex != 255#8)

/-- `inval_index_d`. -/
def invalIndexD : BitVec 8 := if s.startInval x then 0#8 else s.invalIndex + 1#8

/-! ### The next state of a fill buffer -/

/-- `fill_alloc`. -/
def fillAlloc (i : Fin 4) : Bool := s.fillAllocSel i && s.lookupGrantIc0 p x

/-- `fill_done`. -/
def fillDone (i : Fin 4) : Bool :=
  ((s.fb i).ramDone || (s.fb i).hit || !(s.fb i).cache || (s.fb i).anyErr)
    && ((s.fb i).outDone || (s.fb i).stale || x.branch) && s.fillRvdDone p x i

/-- `fill_out_grant`. -/
def fillOutGrant (i : Fin 4) : Bool := s.fillOutArb p x i && s.outputReady x && !s.eccErrIc1 p

/-- `fill_err_d`. -/
def fillErrD (i : Fin 4) (off : BitVec 1) : Bool :=
  (s.fillExtArb p x i && x.instrPmpErr && (s.fb i).extOff == off)
    || (s.fillRvdArb p x i && x.instrErr && (s.fb i).rvdOff == off)
    || (s.busy i && (s.fb i).err off)

/-- The registers behind `fill_entry_en`. -/
def fillEntryD (i : Fin 4) : FillBuf :=
  { s.fb i with
    busy := s.fillAlloc p x i || (s.busy i && !s.fillDone p x i)
    older := fun j =>
      (if s.fillAlloc p x i then s.busy j else s.older i j) && !s.fillDone p x j
    stale := s.busy i && (x.branch || (s.fb i).stale)
    cache := (s.fillAlloc p x i && s.fillCacheNew p x) || ((s.fb i).cache && s.busy i)
    hit := (s.fillHitIc1 i && !s.eccErrIc1 p) || ((s.fb i).hit && s.busy i)
    extCnt :=
      if s.fillAlloc p x i then 0#1 ++ BitVec.ofBool (s.fillSpecDone p x)
      else (s.fb i).extCnt + (0#1 ++ BitVec.ofBool (s.fillExtArb p x i && gntNotPmpErr x))
    extHold := (s.fillAlloc p x i && s.fillSpecHold p x)
      || (s.fillExtArb p x i && !gntOrPmpErr x)
    rvdCnt :=
      if s.fillAlloc p x i then 0#2
      else (s.fb i).rvdCnt + (0#1 ++ BitVec.ofBool (s.fillRvdArb p x i))
    ramDone := s.fillRamArb p x i || ((s.fb i).ramDone && s.busy i)
    outCnt :=
      if s.fillAlloc p x i then 0#1 ++ (s.lookupAddrIc0 x).extractLsb' 2 1
      else (s.fb i).outCnt + (0#1 ++ BitVec.ofBool (s.fillOutGrant p x i))
    err := s.fillErrD p x i }

/-- `fill_data_d`. -/
def fillDataD (i : Fin 4) : BitVec 64 :=
  if s.fillHitIc1 i && !s.eccErrIc1 p then s.hitDataIc1.extractLsb' 0 64
  else x.instrRdata ++ x.instrRdata

/-- `fill_data_en`. -/
def fillDataEn (i : Fin 4) (off : BitVec 1) : Bool :=
  s.fillHitIc1 i || (s.fillRvdArb p x i && (s.fb i).rvdOff == off)

/-- The next word at an offset of `fill_data_q`. -/
def fillDataBeat (i : Fin 4) (off : BitVec 1) : BitVec 32 :=
  if s.fillDataEn p x i off then beatOf off (s.fillDataD p x i) else beatOf off (s.fb i).data

/-- The next state of a fill buffer. -/
def fillNext (i : Fin 4) : FillBuf :=
  { (if s.fillAlloc p x i || s.busy i then s.fillEntryD p x i else s.fb i) with
    addr := if s.fillAlloc p x i then s.lookupAddrIc0 x else (s.fb i).addr
    way := fun w => if s.lookupValidIc1 && s.fillInIc1 i then s.selWayIc1 w else (s.fb i).way w
    data := s.fillDataBeat p x i 1#1 ++ s.fillDataBeat p x i 0#1 }

/-! ### The next state -/

/-- One clock cycle. -/
def next : Icache where
  prefetchAddr :=
    if x.branch || s.lookupGrantIc0 p x then s.prefetchAddrD p x else s.prefetchAddr
  lookupValidIc1 := s.lookupActualIc0 p x
  lookupAddrIc1 := if s.lookupGrantIc0 p x then tagOf (s.lookupAddrIc0 x) else s.lookupAddrIc1
  lookupIndexIc1 :=
    if s.lookupGrantIc0 p x then indexOf (s.lookupAddrIc0 x) else s.lookupIndexIc1
  fillInIc1 := fun i => if s.lookupGrantIc0 p x then s.fillAllocSel i else s.fillInIc1 i
  roundRobinWay := fun w => if s.lookupValidIc1 then s.roundRobinWayIc1 w else s.roundRobinWay w
  eccCorrectionWrite := s.eccErrIc1 p
  eccCorrectionWays := fun w =>
    if s.eccErrIc1 p then s.eccCorrectionWaysD w else s.eccCorrectionWays w
  eccCorrectionIndex := if s.eccErrIc1 p then s.lookupIndexIc1 else s.eccCorrectionIndex
  cacheCnt := s.cacheCntD p x
  fb := s.fillNext p x
  skidValid := s.skidValidD p x
  skidData :=
    if s.dataValid p x && x.ready then (s.outputData p x).extractLsb' 16 16 else s.skidData
  skidErr := if s.dataValid p x && x.ready then s.outputErr p x else s.skidErr
  outputAddr := if x.branch || (x.ready && s.valid p x) then s.outputAddrD p x else s.outputAddr
  resetInval := true
  invalProg := s.invalProgD x
  invalIndex := if s.invalProgD x then s.invalIndexD x else s.invalIndex
  tagRam := fun w k =>
    if s.tagReqIc0 p x && s.tagBanksIc0 p x w && s.tagWriteIc0 p x && k == s.tagIndexIc0 p x
    then s.tagWdataIc0 p x else s.tagMem x w k
  tagRdataIc1 := fun w =>
    if s.tagReqIc0 p x && s.tagBanksIc0 p x w && !s.tagWriteIc0 p x
    then s.tagMem x w (s.tagIndexIc0 p x) else s.tagRdataIc1 w
  dataRam := fun w k =>
    if s.dataReqIc0 p x && s.tagBanksIc0 p x w && s.tagWriteIc0 p x && k == s.tagIndexIc0 p x
    then s.dataWdataIc0 p x else s.dataMem x w k
  dataRdataIc1 := fun w =>
    if s.dataReqIc0 p x && s.tagBanksIc0 p x w && !s.tagWriteIc0 p x
    then s.dataMem x w (s.tagIndexIc0 p x) else s.dataRdataIc1 w

/-- The registers that have a reset, as it leaves them. -/
structure AtReset : Prop where
  lookupValidIc1 : s.lookupValidIc1 = false
  roundRobinWay : s.roundRobinWay = fun w => decide (w = 0)
  eccCorrectionWrite : s.eccCorrectionWrite = false
  cacheCnt : s.cacheCnt = 0#2
  busy : ∀ i, s.busy i = false
  older : ∀ i j, s.older i j = false
  stale : ∀ i, (s.fb i).stale = false
  cache : ∀ i, (s.fb i).cache = false
  hit : ∀ i, (s.fb i).hit = false
  extCnt : ∀ i, (s.fb i).extCnt = 0#2
  extHold : ∀ i, (s.fb i).extHold = false
  rvdCnt : ∀ i, (s.fb i).rvdCnt = 0#2
  ramDone : ∀ i, (s.fb i).ramDone = false
  outCnt : ∀ i, (s.fb i).outCnt = 0#2
  err : ∀ i off, (s.fb i).err off = false
  skidValid : s.skidValid = false
  invalProg : s.invalProg = false
  resetInval : s.resetInval = false

/-- The cache with the registers of its invalidation as given, and all its other registers and
its RAMs zero: whether the invalidation after the reset has begun, whether one is in progress,
and the index it has reached. -/
def quiet (done prog : Bool) (k : BitVec 8) : Icache where
  prefetchAddr := 0#32
  lookupValidIc1 := false
  lookupAddrIc1 := 0#21
  lookupIndexIc1 := 0#8
  fillInIc1 := fun _ => false
  roundRobinWay := firstWay
  eccCorrectionWrite := false
  eccCorrectionWays := fun _ => false
  eccCorrectionIndex := 0#8
  cacheCnt := 0#2
  fb := fun _ =>
    { busy := false, older := fun _ => false, stale := false, cache := false, hit := false,
      extCnt := 0#2, extHold := false, rvdCnt := 0#2, ramDone := false, outCnt := 0#2,
      err := fun _ => false, addr := 0#32, way := fun _ => false, data := 0#64 }
  skidValid := false
  skidData := 0#16
  skidErr := false
  outputAddr := 0#31
  resetInval := done
  invalProg := prog
  invalIndex := k
  tagRam := fun _ _ => 0#28
  tagRdataIc1 := fun _ => 0#28
  dataRam := fun _ _ => 0#72
  dataRdataIc1 := fun _ => 0#72

/-- Ahead of the invalidation that is the cache after its reset. -/
theorem atReset_quiet (k : BitVec 8) : AtReset (quiet false false k) := by
  constructor <;> intros <;> rfl

end Icache

end CocoIbex
