import Mathlib.Algebra.Group.Nat.Defs
import Mathlib.Tactic.SplitIfs
import CocoIbex.Machine
import CocoIbex.Pkg

/-!
# The Control and Status Registers

`ibex_cs_registers` but for the counters, whose read data are an input. A cycle writes a
register twice at most: first the CSR instruction, then the trap entry or return, which has
priority. `written` is the first write, `next` both.

A register is kept as the fields that the source stores, so `mstatus` is a record of its five
fields and not a word. For each such record there is the word that is read (`rdata`) and what a
written word leaves in it (`ofWdata`), where the WARL rules of the source are: an unsupported
privilege level becomes U, a region without R is not writable, and so on.

The PMP registers are vectors over the regions, with the write enables of the source, which look
at the locks and at the mode of the region above. The trigger is that of the source, one address
match.

## Main results

* `next_eq_self` — without a CSR write, a trap or a return the registers are as before;
* `trapsTo_next` — what the strobes of a trap do outside of debug mode;
* `trapped_pmp` — what no trap entry or return touches;
* `next_tmatch` — the trigger is written in debug mode only.
-/

namespace CocoIbex

/-! ### Addresses -/

namespace CsrNum

/-- `CSR_MHARTID`, the number of the hart; it is only read. -/
def mhartid : BitVec 12 := 0xF14#12
/-- `CSR_MSTATUS`, the interrupt enable and the privilege levels kept at a trap. -/
def mstatus : BitVec 12 := 0x300#12
/-- `CSR_MISA`, the instruction set; a write of it has no effect. -/
def misa : BitVec 12 := 0x301#12
/-- `CSR_MIE`, the enables of the single interrupts. -/
def mie : BitVec 12 := 0x304#12
/-- `CSR_MTVEC`, the base address of the trap vectors. -/
def mtvec : BitVec 12 := 0x305#12
/-- `CSR_MSCRATCH`, a word that software may use as it likes. -/
def mscratch : BitVec 12 := 0x340#12
/-- `CSR_MEPC`, the address to which MRET returns. -/
def mepc : BitVec 12 := 0x341#12
/-- `CSR_MCAUSE`, the cause of the last trap. -/
def mcause : BitVec 12 := 0x342#12
/-- `CSR_MTVAL`, the address or the word that has caused a trap. -/
def mtval : BitVec 12 := 0x343#12
/-- `CSR_MIP`, the interrupts that are pending; it is only read. -/
def mip : BitVec 12 := 0x344#12
/-- `CSR_TSELECT`, the selected trigger; there is one only. -/
def tselect : BitVec 12 := 0x7A0#12
/-- `CSR_TDATA1`, the settings of the trigger. -/
def tdata1 : BitVec 12 := 0x7A1#12
/-- `CSR_TDATA2`, the address at which the trigger matches. -/
def tdata2 : BitVec 12 := 0x7A2#12
/-- `CSR_TDATA3`, which is always zero. -/
def tdata3 : BitVec 12 := 0x7A3#12
/-- `CSR_MCONTEXT`, which is always zero. -/
def mcontext : BitVec 12 := 0x7A8#12
/-- `CSR_SCONTEXT`, which is always zero. -/
def scontext : BitVec 12 := 0x7AA#12
/-- `CSR_DCSR`, the settings and the cause of debug mode. -/
def dcsr : BitVec 12 := 0x7B0#12
/-- `CSR_DPC`, the address to which DRET returns. -/
def dpc : BitVec 12 := 0x7B1#12
/-- `CSR_DSCRATCH0`, a word for the debugger. -/
def dscratch0 : BitVec 12 := 0x7B2#12
/-- `CSR_DSCRATCH1`, a second word for the debugger. -/
def dscratch1 : BitVec 12 := 0x7B3#12
/-- `CSR_MCOUNTINHIBIT`, the counters that stand still. -/
def mcountinhibit : BitVec 12 := 0x320#12
/-- `CSR_MCYCLE`, the lower half of the cycle counter and the first of all counters. -/
def mcycle : BitVec 12 := 0xB00#12
/-- `CSR_MCYCLEH`, its upper half and the first of all upper halves. -/
def mcycleh : BitVec 12 := 0xB80#12
/-- `CSR_CPUCTRL`, the settings of Ibex itself. -/
def cpuctrl : BitVec 12 := 0x7C0#12

/-- `CSR_OFF_PMP_CFG`, the address of `pmpcfg0`. -/
def offPmpCfg : BitVec 12 := 0x3A0#12

/-- `CSR_OFF_PMP_ADDR`, the address of `pmpaddr0`. -/
def offPmpAddr : BitVec 12 := 0x3B0#12

/-- `CSR_MHPMEVENT3` to `CSR_MHPMEVENT31`. -/
def isMhpmevent (a : BitVec 12) : Bool := 0x323#12 ≤ a && a ≤ 0x33F#12

/-- `CSR_MCOUNTINHIBIT`, and the counters with both their words. -/
def isCounter (a : BitVec 12) : Bool :=
  a == mcountinhibit || a == mcycle || (0xB02#12 ≤ a && a ≤ 0xB1F#12) || a == mcycleh
    || (0xB82#12 ≤ a && a ≤ 0xB9F#12)

end CsrNum

/-! ### Registers -/

/-- `Status_t`, the implemented fields of `mstatus`. -/
structure Status where
  mie : Bool
  mpie : Bool
  mpp : PrivLvl
  mprv : Bool
  tw : Bool
  deriving DecidableEq, Repr

/-- `StatusStk_t`, the part of `mstatus` that an NMI saves. -/
structure StatusStk where
  mpie : Bool
  mpp : PrivLvl
  deriving DecidableEq, Repr

/-- `Dcsr_t`. -/
structure Dcsr where
  xdebugver : BitVec 4
  zero2 : BitVec 12
  ebreakm : Bool
  zero1 : Bool
  ebreaks : Bool
  ebreaku : Bool
  stepie : Bool
  stopcount : Bool
  stoptime : Bool
  cause : BitVec 3
  zero0 : Bool
  mprven : Bool
  nmip : Bool
  step : Bool
  prv : PrivLvl
  deriving DecidableEq, Repr

/-- `XDEBUGVER_STD`. -/
def xdebugverStd : BitVec 4 := 4#4

/-- The parameters of the register block. Here `rv32e` sets the bits of `misa` and nothing else:
the harts over these registers decode with `mainDecode`, which has no check of the registers that
RV32E leaves out, so that they are those of `RV32E = 0`. The check is `checkedDecode`. -/
structure CsrParams where
  dbgTriggerEn : Bool
  dataIndTiming : Bool
  icache : Bool
  mhpmCounterNum : ℕ
  pmpEnable : Bool
  pmpGranularity : ℕ
  rv32e : Bool
  rv32m : Bool
  deriving DecidableEq, Repr

/-- The registers, with `n` PMP regions. -/
structure CsRegs (n : ℕ) where
  privLvl : PrivLvl
  mstatus : Status
  mie : Irqs
  mscratch : BitVec 32
  mepc : BitVec 32
  mcause : BitVec 6
  mtval : BitVec 32
  mtvec : BitVec 32
  dcsr : Dcsr
  depc : BitVec 32
  dscratch0 : BitVec 32
  dscratch1 : BitVec 32
  mstack : StatusStk
  mstackEpc : BitVec 32
  mstackCause : BitVec 6
  pmpCfg : Fin n → PmpCfg
  pmpAddr : Fin n → BitVec 32
  tmatchControl : Bool
  tmatchValue : BitVec 32
  dataIndTimingQ : Bool
  icacheEnableQ : Bool

/-- What the registers see in one cycle. -/
structure CsRegsIn where
  hartId : BitVec 32
  csrMtvecInit : Bool
  bootAddr : BitVec 32
  -- the CSR instruction; `perfRdata` is the read data of a counter
  csrAccess : Bool
  csrAddr : BitVec 12
  csrWdata : BitVec 32
  csrOp : CsrOp
  csrOpEn : Bool
  perfRdata : BitVec 32
  -- the interrupt lines, and the modes of the controller
  irqSoftware : Bool
  irqTimer : Bool
  irqExternal : Bool
  irqFast : BitVec 15
  nmiMode : Bool
  debugMode : Bool
  -- the trap entries and returns
  debugCause : DbgCause
  debugCsrSave : Bool
  pcIf : BitVec 32
  pcId : BitVec 32
  pcWb : BitVec 32
  csrSaveIf : Bool
  csrSaveId : Bool
  csrSaveWb : Bool
  csrRestoreMret : Bool
  csrRestoreDret : Bool
  csrSaveCause : Bool
  csrMcause : ExcCause
  csrMtval : BitVec 32
  deriving DecidableEq

/-- A cycle in which nothing happens. -/
def CsRegsIn.idle : CsRegsIn where
  hartId := 0#32
  csrMtvecInit := false
  bootAddr := 0#32
  csrAccess := false
  csrAddr := 0#12
  csrWdata := 0#32
  csrOp := .read
  csrOpEn := false
  perfRdata := 0#32
  irqSoftware := false
  irqTimer := false
  irqExternal := false
  irqFast := 0#15
  nmiMode := false
  debugMode := false
  debugCause := .none
  debugCsrSave := false
  pcIf := 0#32
  pcId := 0#32
  pcWb := 0#32
  csrSaveIf := false
  csrSaveId := false
  csrSaveWb := false
  csrRestoreMret := false
  csrRestoreDret := false
  csrSaveCause := false
  csrMcause := .insnAddrMisa
  csrMtval := 0#32

/-- A cycle in which a CSR instruction writes `w` to the address `a`. -/
def CsRegsIn.write (a : BitVec 12) (w : BitVec 32) : CsRegsIn :=
  { CsRegsIn.idle with
    csrAccess := true
    csrAddr := a
    csrWdata := w
    csrOp := .write
    csrOpEn := true }

/-- The bit `b` of a word, as a word of width one. -/
def oneBit (b : Bool) : BitVec 1 := BitVec.ofBool b

/-- `mstatus` as it is read. -/
def Status.rdata (m : Status) : BitVec 32 :=
  0#10 ++ oneBit m.tw ++ 0#3 ++ oneBit m.mprv ++ 0#4 ++ m.mpp.bits ++ 0#3 ++ oneBit m.mpie
    ++ 0#3 ++ oneBit m.mie ++ 0#3

/-- `mie` or `mip` as it is read. -/
def Irqs.rdata (i : Irqs) : BitVec 32 :=
  0#1 ++ i.irqFast ++ 0#4 ++ oneBit i.irqExternal ++ 0#3 ++ oneBit i.irqTimer ++ 0#3
    ++ oneBit i.irqSoftware ++ 0#3

/-- `dcsr` as it is read. -/
def Dcsr.rdata (d : Dcsr) : BitVec 32 :=
  d.xdebugver ++ d.zero2 ++ oneBit d.ebreakm ++ oneBit d.zero1 ++ oneBit d.ebreaks
    ++ oneBit d.ebreaku ++ oneBit d.stepie ++ oneBit d.stopcount ++ oneBit d.stoptime ++ d.cause
    ++ oneBit d.zero0 ++ oneBit d.mprven ++ oneBit d.nmip ++ oneBit d.step ++ d.prv.bits

/-- `pmp_cfg_rdata` of an implemented region. -/
def PmpCfg.rdata (c : PmpCfg) : BitVec 8 :=
  oneBit c.lock ++ 0#2 ++ c.mode.bits ++ oneBit c.exec ++ oneBit c.write ++ oneBit c.read

/-- An unsupported privilege level is stored as M-mode. -/
def PrivLvl.legal (p : PrivLvl) : PrivLvl := if p ≠ .m ∧ p ≠ .u then .m else p

/-- What a write to `mstatus` stores. -/
def Status.ofWdata (w : BitVec 32) : Status where
  mie := w.getLsbD 3
  mpie := w.getLsbD 7
  mpp := (PrivLvl.ofBits (w.extractLsb' 11 2)).legal
  mprv := w.getLsbD 17
  tw := w.getLsbD 21

/-- What a write to `mie` stores. -/
def Irqs.ofWdata (w : BitVec 32) : Irqs where
  irqSoftware := w.getLsbD 3
  irqTimer := w.getLsbD 7
  irqExternal := w.getLsbD 11
  irqFast := w.extractLsb' 16 15

/-- What a write to `dcsr` stores. -/
def Dcsr.ofWdata (w : BitVec 32) : Dcsr where
  xdebugver := xdebugverStd
  zero2 := 0#12
  ebreakm := w.getLsbD 15
  zero1 := false
  ebreaks := w.getLsbD 13
  ebreaku := w.getLsbD 12
  stepie := w.getLsbD 11
  stopcount := false
  stoptime := false
  cause := w.extractLsb' 6 3
  zero0 := false
  mprven := false
  nmip := false
  step := w.getLsbD 2
  prv := (PrivLvl.ofBits (w.extractLsb' 0 2)).legal

/-- `pmp_cfg_wdata[i]`: the byte at bit `lo` of the written word. Write without read is
stored as neither, and NA4 as OFF where the granularity is coarser than a word. -/
def PmpCfg.ofWdata (G : ℕ) (w : BitVec 32) (lo : ℕ) : PmpCfg where
  lock := w.getLsbD (lo + 7)
  mode :=
    match w.getLsbD (lo + 4), w.getLsbD (lo + 3) with
    | false, false => .off
    | false, true => .tor
    | true, false => if G = 0 then .na4 else .off
    | true, true => .napot
  exec := w.getLsbD (lo + 2)
  write := w.getLsbD (lo + 1) && w.getLsbD lo
  read := w.getLsbD lo

namespace CsRegs

variable {n : ℕ}

/-- The registers after a reset. -/
def reset (n : ℕ) : CsRegs n where
  privLvl := .m
  mstatus := ⟨false, true, .u, false, false⟩
  mie := ⟨false, false, false, 0#15⟩
  mscratch := 0#32
  mepc := 0#32
  mcause := 0#6
  mtval := 0#32
  mtvec := 1#32
  dcsr := { Dcsr.ofWdata 0#32 with prv := .m }
  depc := 0#32
  dscratch0 := 0#32
  dscratch1 := 0#32
  mstack := ⟨true, .u⟩
  mstackEpc := 0#32
  mstackCause := 0#6
  pmpCfg := fun _ => ⟨false, .off, false, false, false⟩
  pmpAddr := fun _ => 0#32
  tmatchControl := false
  tmatchValue := 0#32
  dataIndTimingQ := false
  icacheEnableQ := false

variable (P : CsrParams) (s : CsRegs n) (x : CsRegsIn)

/-! ### The read port -/

/-- `mip`, the interrupt lines. -/
def mip : Irqs := ⟨x.irqSoftware, x.irqTimer, x.irqExternal, x.irqFast⟩

/-- `MISA_VALUE`. -/
def misaValue : BitVec 32 :=
  (1#32 <<< 2) ||| ((oneBit P.rv32e).setWidth 32 <<< 4) ||| ((oneBit !P.rv32e).setWidth 32 <<< 8)
    ||| ((oneBit P.rv32m).setWidth 32 <<< 12) ||| (1#32 <<< 20) ||| (1#32 <<< 30)

/-- `mhpmevent[i]`, the hardwired event of counter `i`. -/
def mhpmevent (i : ℕ) : BitVec 32 := if i < 3 + P.mhpmCounterNum then 1#32 <<< i else 0#32

/-- `pmp_cfg_rdata[i]`. -/
def pmpCfgRdata (i : ℕ) : BitVec 8 :=
  if h : P.pmpEnable ∧ i < n then (s.pmpCfg ⟨i, h.2⟩).rdata else 0#8

/-- `pmp_addr_rdata[i]`: the low bits read as zero or one, by mode and granularity. -/
def pmpAddrRdata (i : ℕ) : BitVec 32 :=
  if h : P.pmpEnable ∧ i < n then
    let mode := (s.pmpCfg ⟨i, h.2⟩).mode
    let addr := s.pmpAddr ⟨i, h.2⟩
    let low (k : ℕ) : BitVec 32 := BitVec.ofNat 32 (2 ^ k - 1)
    if P.pmpGranularity = 0 then addr
    else if mode = .off ∨ mode = .tor then addr &&& ~~~low P.pmpGranularity
    else if mode = .napot ∧ 2 ≤ P.pmpGranularity then addr ||| low (P.pmpGranularity - 1)
    else addr
  else 0#32

/-- The word `pmpcfg<k>`. -/
def pmpCfgWord (k : ℕ) : BitVec 32 :=
  s.pmpCfgRdata P (4 * k + 3) ++ s.pmpCfgRdata P (4 * k + 2) ++ s.pmpCfgRdata P (4 * k + 1)
    ++ s.pmpCfgRdata P (4 * k)

/-- `tmatch_control_rdata`: all fields but `execute` are hardwired. -/
def tmatchControlRdata : BitVec 32 :=
  if P.dbgTriggerEn then
    2#4 ++ 1#1 ++ 0#6 ++ 0#1 ++ 0#1 ++ 0#1 ++ 0#2 ++ 1#4 ++ 0#1 ++ 0#4 ++ 1#1 ++ 0#1
      ++ 0#1 ++ 1#1 ++ oneBit s.tmatchControl ++ 0#1 ++ 0#1
  else 0#32

/-- `tmatch_value_rdata`. -/
def tmatchValueRdata : BitVec 32 := if P.dbgTriggerEn then s.tmatchValue else 0#32

/-- `data_ind_timing_o`. -/
def dataIndTiming : Bool := P.dataIndTiming && s.dataIndTimingQ

/-- `icache_enable_o`. -/
def icacheEnable : Bool := P.icache && s.icacheEnableQ

/-- The address is that of a trigger register. -/
def isTrigger (a : BitVec 12) : Bool :=
  a == CsrNum.tselect || a == CsrNum.tdata1 || a == CsrNum.tdata2 || a == CsrNum.tdata3
    || a == CsrNum.mcontext || a == CsrNum.scontext

/-- The address is that of a register of debug mode. -/
def isDebug (a : BitVec 12) : Bool :=
  a == CsrNum.dcsr || a == CsrNum.dpc || a == CsrNum.dscratch0 || a == CsrNum.dscratch1

/-- The address is that of a PMP register, whether or not its region is there. -/
def isPmp (a : BitVec 12) : Bool :=
  (CsrNum.offPmpCfg ≤ a && a ≤ 0x3A3#12) || (CsrNum.offPmpAddr ≤ a && a ≤ 0x3BF#12)

/-- The address is that of a machine register that is always there. -/
def isMachine (a : BitVec 12) : Bool :=
  [CsrNum.mhartid, CsrNum.mstatus, CsrNum.misa, CsrNum.mie, CsrNum.mtvec, CsrNum.mscratch,
    CsrNum.mepc, CsrNum.mcause, CsrNum.mtval, CsrNum.mip, CsrNum.cpuctrl].contains a

/-- `csr_rdata_o`. -/
def csrRdata : BitVec 32 :=
  let a := x.csrAddr
  if a = CsrNum.mhartid then x.hartId
  else if a = CsrNum.mstatus then s.mstatus.rdata
  else if a = CsrNum.misa then misaValue P
  else if a = CsrNum.mie then s.mie.rdata
  else if a = CsrNum.mscratch then s.mscratch
  else if a = CsrNum.mtvec then s.mtvec
  else if a = CsrNum.mepc then s.mepc
  else if a = CsrNum.mcause then
    s.mcause.extractLsb' 5 1 ++ 0#26 ++ s.mcause.extractLsb' 0 5
  else if a = CsrNum.mtval then s.mtval
  else if a = CsrNum.mip then (mip x).rdata
  else if CsrNum.offPmpCfg ≤ a ∧ a ≤ 0x3A3#12 then s.pmpCfgWord P (a - CsrNum.offPmpCfg).toNat
  else if CsrNum.offPmpAddr ≤ a ∧ a ≤ 0x3BF#12 then
    s.pmpAddrRdata P (a - CsrNum.offPmpAddr).toNat
  else if a = CsrNum.dcsr then s.dcsr.rdata
  else if a = CsrNum.dpc then s.depc
  else if a = CsrNum.dscratch0 then s.dscratch0
  else if a = CsrNum.dscratch1 then s.dscratch1
  else if CsrNum.isMhpmevent a then mhpmevent P (a.extractLsb' 0 5).toNat
  else if CsrNum.isCounter a then x.perfRdata
  else if a = CsrNum.tdata1 then s.tmatchControlRdata P
  else if a = CsrNum.tdata2 then s.tmatchValueRdata P
  else if a = CsrNum.cpuctrl then 0#30 ++ oneBit (s.dataIndTiming P) ++ oneBit (s.icacheEnable P)
  else 0#32

/-- `illegal_csr`: no such register, or not in this mode. -/
def illegalCsr : Bool :=
  if isDebug x.csrAddr then !x.debugMode
  else if isTrigger x.csrAddr then !P.dbgTriggerEn
  else !(isMachine x.csrAddr || isPmp x.csrAddr || CsrNum.isMhpmevent x.csrAddr
    || CsrNum.isCounter x.csrAddr)

/-- `illegal_csr_priv`. -/
def illegalCsrPriv : Bool := s.privLvl.bits < x.csrAddr.extractLsb' 8 2

/-- `csr_wreq`. -/
def csrWreq : Bool := x.csrOpEn && (x.csrOp == .write || x.csrOp == .set || x.csrOp == .clear)

/-- `illegal_csr_write`. -/
def illegalCsrWrite : Bool := x.csrAddr.extractLsb' 10 2 == 0b11#2 && csrWreq x

/-- `illegal_csr_insn_o`. -/
def illegalCsrInsn : Bool :=
  x.csrAccess && (illegalCsr P x || illegalCsrWrite x || s.illegalCsrPriv x)

/-! ### The write port -/

/-- `csr_wdata_int`. -/
def csrWdataInt : BitVec 32 :=
  match x.csrOp with
  | .write | .read => x.csrWdata
  | .set => x.csrWdata ||| s.csrRdata P x
  | .clear => ~~~x.csrWdata &&& s.csrRdata P x

/-- `csr_we_int`. -/
def csrWeInt : Bool := csrWreq x && !s.illegalCsrInsn P x

/-- A CSR instruction writes the register at the address `a`. -/
def csrWe (a : BitVec 12) : Bool := s.csrWeInt P x && x.csrAddr == a

/-- `pmp_cfg_we[i]`. -/
def pmpCfgWe (i : Fin n) : Bool :=
  P.pmpEnable && s.csrWe P x (CsrNum.offPmpCfg + BitVec.ofNat 12 i >>> 2)
    && !(s.pmpCfg i).lock

/-- `pmp_addr_we[i]`: locked by the region itself, and by the next one in TOR mode. -/
def pmpAddrWe (i : Fin n) : Bool :=
  P.pmpEnable && s.csrWe P x (CsrNum.offPmpAddr + BitVec.ofNat 12 i) && !(s.pmpCfg i).lock
    && (if h : i.val < n - 1 then (s.pmpCfg ⟨i + 1, by omega⟩).mode != .tor else true)

/-- `tmatch_control_we`, and likewise `tmatch_value_we`. -/
def tmatchWe (a : BitVec 12) : Bool := P.dbgTriggerEn && x.debugMode && s.csrWe P x a

/-- The registers after the write of the CSR instruction. -/
def written : CsRegs n :=
  let w := s.csrWdataInt P x
  let write {α : Type} (a : BitVec 12) (new old : α) : α := if s.csrWe P x a then new else old
  { privLvl := s.privLvl
    mstatus := write CsrNum.mstatus (Status.ofWdata w) s.mstatus
    mie := write CsrNum.mie (Irqs.ofWdata w) s.mie
    mscratch := write CsrNum.mscratch w s.mscratch
    mepc := write CsrNum.mepc (w.extractLsb' 1 31 ++ 0#1) s.mepc
    mcause := write CsrNum.mcause (w.extractLsb' 31 1 ++ w.extractLsb' 0 5) s.mcause
    mtval := write CsrNum.mtval w s.mtval
    mtvec :=
      write CsrNum.mtvec (w.extractLsb' 8 24 ++ 0#6 ++ 0b01#2)
        (if x.csrMtvecInit then x.bootAddr.extractLsb' 8 24 ++ 0#6 ++ 0b01#2 else s.mtvec)
    dcsr := write CsrNum.dcsr (Dcsr.ofWdata w) s.dcsr
    depc := write CsrNum.dpc (w.extractLsb' 1 31 ++ 0#1) s.depc
    dscratch0 := write CsrNum.dscratch0 w s.dscratch0
    dscratch1 := write CsrNum.dscratch1 w s.dscratch1
    mstack := s.mstack
    mstackEpc := s.mstackEpc
    mstackCause := s.mstackCause
    pmpCfg := fun i =>
      if s.pmpCfgWe P x i then PmpCfg.ofWdata P.pmpGranularity w (i % 4 * 8) else s.pmpCfg i
    pmpAddr := fun i => if s.pmpAddrWe P x i then w else s.pmpAddr i
    tmatchControl := if s.tmatchWe P x CsrNum.tdata1 then w.getLsbD 2 else s.tmatchControl
    tmatchValue := if s.tmatchWe P x CsrNum.tdata2 then w else s.tmatchValue
    dataIndTimingQ :=
      if P.dataIndTiming then write CsrNum.cpuctrl (w.getLsbD 1) s.dataIndTimingQ
      else s.dataIndTimingQ
    icacheEnableQ :=
      if P.icache then write CsrNum.cpuctrl (w.getLsbD 0) s.icacheEnableQ
      else s.icacheEnableQ }

/-! ### Trap entry and return -/

/-- `exception_pc`. -/
def exceptionPc : BitVec 32 :=
  if x.csrSaveCause then
    if x.csrSaveIf then x.pcIf
    else if x.csrSaveId then x.pcId
    else if x.csrSaveWb then x.pcWb
    else x.pcId
  else x.pcId

/-- The registers after the cycle, `w` being those after the write of the CSR
instruction. -/
def trapped (w : CsRegs n) : CsRegs n :=
  if x.csrSaveCause then
    if x.debugCsrSave then
      { w with
        privLvl := .m
        dcsr := { w.dcsr with prv := s.privLvl, cause := x.debugCause.bits }
        depc := exceptionPc x }
    else if !x.debugMode then
      { w with
        privLvl := .m
        mtval := x.csrMtval
        mstatus := { w.mstatus with mie := false, mpie := s.mstatus.mie, mpp := s.privLvl }
        mepc := exceptionPc x
        mcause := x.csrMcause.bits
        mstack := ⟨s.mstatus.mpie, s.mstatus.mpp⟩
        mstackEpc := s.mepc
        mstackCause := s.mcause }
    else { w with privLvl := .m }
  else if x.csrRestoreDret then { w with privLvl := s.dcsr.prv }
  else if x.csrRestoreMret then
    if x.nmiMode then
      { w with
        privLvl := s.mstatus.mpp
        mstatus :=
          { w.mstatus with mie := s.mstatus.mpie, mpie := s.mstack.mpie, mpp := s.mstack.mpp }
        mepc := s.mstackEpc
        mcause := s.mstackCause }
    else
      { w with
        privLvl := s.mstatus.mpp
        mstatus := { w.mstatus with mie := s.mstatus.mpie, mpie := true, mpp := .u } }
  else w

/-- One clock edge. -/
def next : CsRegs n := trapped s x (s.written P x)

/-! ### The outputs -/

/-- `irqs_o`: the pending interrupts that are enabled. -/
def irqs : Irqs where
  irqSoftware := x.irqSoftware && s.mie.irqSoftware
  irqTimer := x.irqTimer && s.mie.irqTimer
  irqExternal := x.irqExternal && s.mie.irqExternal
  irqFast := x.irqFast &&& s.mie.irqFast

/-- `irq_pending_o`. -/
def irqPending : Bool :=
  let i := s.irqs x
  i.irqSoftware || i.irqTimer || i.irqExternal || i.irqFast != 0#15

/-- `trigger_match_o`. -/
def triggerMatch : Bool := P.dbgTriggerEn && s.tmatchControl && x.pcIf == s.tmatchValue

/-- `priv_mode_lsu_o`. -/
def privModeLsu : PrivLvl := if s.mstatus.mprv then s.mstatus.mpp else s.privLvl

/-- The part of the next registers that no trap entry or return touches. -/
theorem trapped_pmp (w : CsRegs n) :
    (trapped s x w).pmpCfg = w.pmpCfg ∧ (trapped s x w).pmpAddr = w.pmpAddr := by
  unfold trapped
  split_ifs <;> exact ⟨rfl, rfl⟩

/-- The trigger registers are written in debug mode only. -/
theorem next_tmatch (hd : x.debugMode = false) :
    (s.next P x).tmatchControl = s.tmatchControl ∧ (s.next P x).tmatchValue = s.tmatchValue := by
  have hwe : ∀ a, s.tmatchWe P x a = false := fun a => by simp [tmatchWe, hd]
  simp only [next, trapped]
  split_ifs <;> simp [written, hwe]

variable {P s x}

/-- Without a CSR write no register is written. -/
theorem written_of_not_csrWeInt (hw : s.csrWeInt P x = false) (hb : x.csrMtvecInit = false) :
    s.written P x = s := by
  have hwe : ∀ a, s.csrWe P x a = false := fun a => by rw [csrWe, hw, Bool.false_and]
  simp [written, hwe, hb, pmpCfgWe, pmpAddrWe, tmatchWe]

/-- Without a CSR write, a trap or a return the registers are as before. -/
theorem next_eq_self (hw : s.csrWeInt P x = false) (hb : x.csrMtvecInit = false)
    (hc : x.csrSaveCause = false) (hd : x.csrRestoreDret = false)
    (hm : x.csrRestoreMret = false) : s.next P x = s := by
  rw [next, written_of_not_csrWeInt hw hb]
  simp [trapped, hc, hd, hm]

/-- `s'` is `s` after a trap from the address `pc` with the cause `c` and the `mtval` `v`. -/
structure TrapsTo (s s' : CsRegs n) (c : ExcCause) (v pc : BitVec 32) : Prop where
  mcause : s'.mcause = c.bits
  mepc : s'.mepc = pc
  mtval : s'.mtval = v
  mpie : s'.mstatus.mpie = s.mstatus.mie
  mpp : s'.mstatus.mpp = s.privLvl
  mie : s'.mstatus.mie = false
  privLvl : s'.privLvl = .m

/-- The strobes of a trap outside of debug mode. -/
theorem trapsTo_next (hc : x.csrSaveCause = true) (hs : x.debugCsrSave = false)
    (hd : x.debugMode = false) :
    TrapsTo s (s.next P x) x.csrMcause x.csrMtval (exceptionPc x) := by
  constructor <;> simp [next, trapped, hc, hs, hd]

end CsRegs

end CocoIbex
