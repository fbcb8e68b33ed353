import CocoIbex.CompleteMasks
import CocoIbex.Refinement
import CocoIbex.TopMemory

/-!
# An Instruction on the Top Level

`ibex_top` with an instruction of its ROM in ID: what keeps the instruction there, what its
cycle writes and where the hart goes on behind it. Between two steps of the machine of RV32IMC
the hart is in one of the stages of `Stage`: it starts, ID waits for a word, or an instruction
is in its first cycle or in a later one.

`Keeps` is what every cycle keeps: the program in the ROM, the fetch on it, the CSRs that allow
no trap, and the accesses as those of the memory of bytes. `Sim` adds the stage and the
registers. In a first cycle the registers and the memory are those of the machine before the
instruction; in a later one too, but for what has been computed on the way, and the address of
the next instruction is known.

The instruction in ID is the one that the ROM has at its address, in both lengths, so that its
decode is that of the instruction set from here on.

## Main results

* `next` — the step lemma on what a run keeps;
* `executing` and `csrOpEn` — the instruction executes, and accesses no CSR;
* `read_next` — ID writes the registers as the datapath does;
* `retires_eq` — the instruction leaves when it does not stall.
-/

namespace CocoIbex

open Rv32

namespace IbexTop

variable {n : ℕ} {m : Multiplier} {a b : ℕ} {P : WholeParams} {t : IbexTop n m a b} {x : TopIn}
  {rom : FetchMem} {pc : BitVec 31} {i : ImInsn} {c : Bool}

/-! ### The instruction in ID -/

/-- The instruction at `pc` is in ID. -/
structure InId (rom : FetchMem) (t : IbexTop n m a b) (pc : BitVec 31) : Prop where
  valid : t.hart.core.ifId.instrValidId = true
  fetchErr : t.hart.core.instrFetchErrId = false
  ctrlFsm : t.hart.core.ctrl.ctrlFsm = .decode
  pcId : t.hart.core.pcId = pc ++ 0#1
  word : WordAt rom pc t.hart.arch.obs.word
  ended : t.hart.arch.obs.ended = false

namespace InId

/-- The instruction in ID executes. -/
theorem executing (hin : InId rom t pc) : Core.Executing t.hart.core :=
  ⟨hin.valid, hin.fetchErr, hin.ctrlFsm⟩

variable (hin : InId rom t pc) (hi : HartObs.Inv P.toHartParams t.hart.arch.obs)
  (hf : HasInsn rom pc i c)

include hin hi hf

/-- It is decoded. -/
theorem decoded : t.hart.core.ifId.instrRdataId = i.encode ∧
    t.hart.core.ifId.instrIsCompressedId = c ∧ t.hart.core.ifId.illegalCInsnId = false := by
  have hreg : t.hart.core.ifId = IfIdReg.ofWord t.hart.arch.obs.word := (hi.ifId hin.valid).1
  obtain ⟨hlen, hinstr, hlegal⟩ := hin.word.decoded hf
  rw [hreg]
  exact ⟨hinstr, hlen, hlegal⟩

omit hi in
/-- The length of it in half words. -/
theorem halves : HartObs.halves t.hart.arch.obs.word = if c then 1#31 else 2#31 := by
  rw [HartObs.halves, (hin.word.decoded hf).1]

/-- The instruction as the datapath sees it. -/
theorem idInsn : t.hart.idInsn = ⟨i.encode, c, pc ++ 0#1, t.hart.arch.rf.read⟩ := by
  obtain ⟨hinstr, hlen, -⟩ := hin.decoded hi hf
  rw [WholeHart.idInsn, hinstr, hlen, hin.pcId]

/-- The word in ID is one that the instruction decodes from. -/
theorem decodes : WholeHart.Decodes t.hart t.hart.arch.obs.word i where
  executing := hin.executing
  ifId := (hi.ifId hin.valid).1
  instr := (hin.word.decoded hf).2.1
  legalC := (hin.word.decoded hf).2.2

/-- The instruction runs in the hart. -/
theorem runs : WholeHart.Runs t.hart := (hin.decodes hi hf).runs

/-- The main decode of it. -/
theorem main : Core.main P.cfg t.hart.core
    = mainDecode P.cfg (t.hart.core.idFsm == .firstCycle) false i.encode := by
  obtain ⟨hinstr, -, hlegal⟩ := hin.decoded hi hf
  rw [Core.main, hinstr, hlegal, hin.valid, Bool.true_and]

/-- A legal instruction of full length asks for memory as its word says. -/
theorem memInsn :
    Core.memInsn P.cfg t.hart.core = (mainDecode P.cfg true false i.encode).dataReq := by
  obtain ⟨hinstr, -, hlegal⟩ := hin.decoded hi hf
  rw [Core.memInsn, hinstr, hlegal]

/-- Unless it traps it is plain. -/
theorem plain (hM : P.rv32m = true) (hn : NoTrap i) : (Core.main P.cfg t.hart.core).Plain := by
  rw [hin.main hi hf]
  exact plain_encode hM _ hn

/-- Then it accesses no CSR. -/
theorem csrOpEn (hM : P.rv32m = true) (hn : NoTrap i) :
    Core.csrOpEn P.cfg t.hart.core (t.hart.coreIn P (t.coreIn P x)) = false := by
  have hplain := hin.plain hi hf hM hn
  rw [Core.csrOpEn, IdStage.csrOpEn, Core.idStage_main, hplain.csrAccess, Bool.false_and,
    Bool.false_and]

/-- And it asks for nothing special. -/
theorem special (hM : P.rv32m = true) (hn : NoTrap i) {v₀ v : BitVec (a + b + 2) → BitVec 8}
    {op : Option MemOp} (hs : Stores P v₀ t op v) :
    t.hart.core.ctrl.specialReqAll
      (Core.ctrlIn P.cfg t.hart.core (t.hart.coreIn P (t.coreIn P x))) = false := by
  have herr : t.hart.core.lsu.dataOrPmpErr (Core.lsuIn P.cfg t.hart.core
      (t.hart.coreIn P (t.coreIn P x)) false) = false := by
    obtain ⟨hlsu, hpmp⟩ := hs.no_error
    simp only [Lsu.dataOrPmpErr, hlsu, hpmp]
    rfl
  rw [Core.special_of_plain hin.executing (hin.plain hi hf hM hn)]
  simp [Ctrl.excReqLsu, Core.ctrlDec, Lsu.loadErr, Lsu.storeErr, herr]

end InId

/-! ### What every cycle keeps -/

/-- The invariants of the parts. -/
structure Keeps (P : WholeParams) (rom : FetchMem) (t : IbexTop n m a b) : Prop where
  hart : WholeHart.AssertInv P t.hart
  owes : Owes t
  fetching : Fetching rom t
  calm : HartObs.Calm t.hart.arch.obs
  ordinary : t.hart.core.ctrl.ctrlFsm.Ordinary

namespace Keeps

variable (hk : Keeps P rom t)

include hk

/-- The bus protocol of the observed hart. -/
theorem busOk (x : TopIn) :
    HartObs.BusOk P.toHartParams t.hart.arch.obs (t.hart.wired P (t.coreIn P x)) :=
  (WholeHart.promised hk.hart.base (IbexTop.busOk (x := x) hk.owes)).bus

/-- **Step lemma.** What a run keeps, in a cycle without a CSR access or a trap. -/
theorem next (hx : x.instrWe = false)
    (hen : Core.csrOpEn P.cfg t.hart.core (t.hart.coreIn P (t.coreIn P x)) = false)
    (hf : (t.next P x).hart.core.ctrl.ctrlFsm.Ordinary) : Keeps P rom (t.next P x) where
  hart := WholeHart.assertInv_next hk.hart (IbexTop.busOk hk.owes)
  owes := owes_next hk.owes
  fetching := hk.fetching.next hx
  calm := hk.calm.next hk.ordinary hen
  ordinary := hf

/-- The ROM has no errors. -/
theorem pmpErr (w : BitVec 30) : (rom w).pmpErr = false := by
  rw [← hk.fetching.mem]
  rfl

/-- A word that is handed over is the instruction at the address of the fetch, and it finds all
machines at rest. -/
theorem load (hb : t.fetch.branched = true)
    (hd : t.hart.arch.obs.deliver P.toHartParams (t.hart.wired P (t.coreIn P x)) = true) :
    InId rom (t.next P x) t.hart.arch.obs.hart.fetchAddrQ ∧ WholeHart.AtRest (t.next P x).hart ∧
      (t.next P x).hart.arch.obs.target = none := by
  have hl := HartObs.loaded_of_deliver hd
  obtain ⟨hset, hready, hvalid, -⟩ := HartObs.of_deliver hd
  have hdel := hk.fetching.delivers (P := P) (x := x) hb hvalid
  have herr : (t.fetch.out (t.fetchIn P x)).err = false :=
    hdel.err.trans (hk.fetching.instrErr _)
  have hloads : t.hart.loads P (t.coreIn P x) = true := by
    have hvalid' : (t.coreIn P x).fetchValid = true := hvalid
    rw [WholeHart.loads, hset, hready, hvalid']
    rfl
  refine ⟨?_, WholeHart.atRest_of_loads hk.hart.base (IbexTop.busOk hk.owes) hloads, hl.target⟩
  exact
    { valid := hl.valid
      fetchErr := hl.fetchErr.trans herr
      ctrlFsm := hl.ctrlFsm
      pcId := hl.pcId
      word := by
        have hword : (t.next P x).hart.arch.obs.word
            = (t.fetch.out (t.fetchIn P x)).rdata := hl.word
        rw [hword]
        exact WordAt.of_delivers hdel hk.pmpErr
      ended := hl.ended }

end Keeps

/-- ID is empty and waits for the word at `pc`. -/
structure Waits (t : IbexTop n m a b) (pc : BitVec 31) : Prop where
  ctrlFsm : t.hart.core.ctrl.ctrlFsm = .firstFetch ∨ t.hart.core.ctrl.ctrlFsm = .decode
  valid : t.hart.core.ifId.instrValidId = false
  fetchAddrQ : t.hart.arch.obs.hart.fetchAddrQ = pc

/-- The instruction at `pc` is in its first cycle in ID. -/
structure Starts (rom : FetchMem) (t : IbexTop n m a b) (pc : BitVec 31) : Prop where
  inId : InId rom t pc
  atRest : WholeHart.AtRest t.hart
  target : t.hart.arch.obs.target = none

/-- The instruction in ID goes on. -/
theorem InId.stay (hin : InId rom t pc) (hk : Keeps P rom t)
    (hs : Core.stallId P.cfg t.hart.core (t.hart.coreIn P (t.coreIn P x)) = true) :
    InId rom (t.next P x) pc ∧ (t.next P x).hart.core.idFsm = .multiCycle ∧
      (t.next P x).hart.core.ifId = t.hart.core.ifId ∧
      (t.next P x).hart.arch.obs.target
        = (t.hart.arch.obs.redirect P.toHartParams (t.hart.wired P (t.coreIn P x))).or
          t.hart.arch.obs.target := by
  obtain ⟨hends, hx, hword, hreg, hmulti⟩ :=
    HartObs.next_of_stall hk.hart.base.obs (hk.busOk x) hin.executing hs
  have hd : t.hart.arch.obs.deliver P.toHartParams (t.hart.wired P (t.coreIn P x)) = false := by
    have hs' : Core.stallId P.cfg t.hart.arch.obs.core
        (t.hart.arch.obs.coreIn P.toHartParams (t.hart.wired P (t.coreIn P x))) = true := hs
    simp [HartObs.deliver, Core.deliver, IfIdIn.instrNewId, IfIdIn.idInReady, Core.ifIdIn, hs']
  have hpc := (HartObs.kept_next hd hx.1).2.1
  refine ⟨⟨hx.1, hx.2.1, hx.2.2, hpc.trans hin.pcId, ?_, ?_⟩, hmulti, hreg, ?_⟩
  · have hword' : (t.next P x).hart.arch.obs.word = t.hart.arch.obs.word := hword
    rw [hword']
    exact hin.word
  · change (t.hart.arch.obs.next P.toHartParams (t.hart.wired P (t.coreIn P x))).ended = false
    simp [HartObs.next, hd, hin.ended, hends]
  · change (t.hart.arch.obs.next P.toHartParams (t.hart.wired P (t.coreIn P x))).target = _
    simp [HartObs.next, hd]

/-- Where the hart goes on behind the instruction at `pc` in ID. -/
def nextPc (P : WholeParams) (t : IbexTop n m a b) (x : TopIn) (pc len : BitVec 31) : BitVec 31 :=
  ((t.hart.arch.obs.redirect P.toHartParams (t.hart.wired P (t.coreIn P x))).or
    t.hart.arch.obs.target).getD (pc + len)

/-- The instruction in ID leaves it, and the next one comes or is waited for. -/
theorem InId.leave (hin : InId rom t pc) (hk : Keeps P rom t) (hf : HasInsn rom pc i c)
    (hsp : t.hart.core.ctrl.specialReqAll
      (Core.ctrlIn P.cfg t.hart.core (t.hart.coreIn P (t.coreIn P x))) = false)
    (hs : Core.stallId P.cfg t.hart.core (t.hart.coreIn P (t.coreIn P x)) = false) :
    Starts rom (t.next P x) (nextPc P t x pc (if c then 1#31 else 2#31)) ∨
      Waits (t.next P x) (nextPc P t x pc (if c then 1#31 else 2#31)) := by
  obtain ⟨hready, hfsm⟩ := HartObs.of_ordinary hk.calm undisturbed hin.executing hsp
  obtain ⟨-, haddr⟩ := hk.hart.base.obs.running hin.valid hin.ended
  have hpc : t.hart.arch.obs.core.pcId.extractLsb' 1 31 = pc := by
    have hpcId : t.hart.arch.obs.core.pcId = pc ++ 0#1 := hin.pcId
    rw [hpcId]
    exact BitVec.extractLsb'_append_eq_left
  rw [hpc, hin.halves hf] at haddr
  rw [nextPc]
  cases hd : t.hart.arch.obs.deliver P.toHartParams (t.hart.wired P (t.coreIn P x)) with
  | true =>
      obtain ⟨hset, -⟩ := HartObs.of_deliver hd
      have hb : t.fetch.branched = true := hk.fetching.branched (by
        rw [hin.ctrlFsm]
        rintro ⟨⟩)
      obtain ⟨hin', hrest, htarget⟩ := hk.load hb hd
      have hno : t.hart.arch.obs.redirect P.toHartParams (t.hart.wired P (t.coreIn P x))
          = none := by
        rw [HartObs.redirect, hset]
        rfl
      rw [hno, Option.none_or, ← haddr]
      exact Or.inl ⟨hin', hrest, htarget⟩
  | false =>
      refine Or.inr ⟨Or.inr hfsm, ?_, ?_⟩
      · have hhalt : (Core.ctrlOut P.cfg t.hart.core (t.hart.coreIn P (t.coreIn P x))).haltIf
            = false := by
          have hst : Core.stallId P.cfg t.hart.arch.obs.core (t.hart.arch.obs.coreIn P.toHartParams
              (t.hart.wired P (t.coreIn P x))) = false := hs
          rw [hst] at hready
          have hready' : (!(Core.ctrlIn P.cfg t.hart.core
              (t.hart.coreIn P (t.coreIn P x))).stall
              && !(Core.ctrlOut P.cfg t.hart.core (t.hart.coreIn P (t.coreIn P x))).haltIf)
              = true := hready
          simp only [Bool.and_eq_true, Bool.not_eq_true'] at hready'
          exact hready'.2
        have hvalid := @Core.instrValidId_next P.cfg t.hart.core
          (t.hart.coreIn P (t.coreIn P x)) hd
        rw [hs, hhalt, Bool.or_self, Bool.and_false, Bool.false_and] at hvalid
        exact hvalid
      · have hnext := HartObs.fetchAddrQ_next hd
        rw [haddr] at hnext
        refine hnext.trans ?_
        cases t.hart.arch.obs.redirect P.toHartParams (t.hart.wired P (t.coreIn P x)) <;> rfl

/-- ID waits on, or the instruction comes. -/
theorem Waits.next (hw : Waits t pc) (hk : Keeps P rom t) :
    Starts rom (t.next P x) pc ∨ Waits (t.next P x) pc := by
  obtain ⟨hset, hready, hfsm⟩ := HartObs.of_waiting hk.hart.base.obs (hk.busOk x) hk.calm
    undisturbed hw.ctrlFsm hw.valid
  cases hd : t.hart.arch.obs.deliver P.toHartParams (t.hart.wired P (t.coreIn P x)) with
  | true =>
      have hb : t.fetch.branched = true := hk.fetching.branched (by
        obtain h | h := hw.ctrlFsm <;> rw [h] <;> rintro ⟨⟩)
      obtain ⟨hin', hrest, htarget⟩ := hk.load hb hd
      rw [hw.fetchAddrQ] at hin'
      exact Or.inl ⟨hin', hrest, htarget⟩
  | false =>
      refine Or.inr ⟨Or.inr hfsm, HartObs.gone_next hd hw.valid, ?_⟩
      refine (HartObs.fetchAddrQ_next hd).trans ?_
      rw [HartObs.redirect, hset]
      exact hw.fetchAddrQ

/-! ### The datapath -/

/-- A write of the register file as the machine has it. -/
theorem read_write (rf : RegisterFile) (we : Bool) (rd : BitVec 5) (v : BitVec 32) :
    (rf.write we rd v).read = if we then setReg rf.read rd v else rf.read := by
  funext r
  cases we with
  | false => simp [RegisterFile.read, RegisterFile.write, RegisterFile.weADec]
  | true =>
      by_cases h0 : r = 0#5
      · simp [RegisterFile.read, setReg, h0, RegisterFile.rfReg_zero]
      · by_cases hr : r = rd
        · subst hr
          simp [RegisterFile.read, RegisterFile.write, RegisterFile.weADec, setReg, h0]
        · have hr' : rd ≠ r := fun h => hr h.symm
          simp [RegisterFile.read, RegisterFile.write, RegisterFile.weADec, setReg, h0, hr, hr']

/-- The registers after a write. -/
def written (reg : BitVec 5 → BitVec 32) (w : Option (BitVec 5 × BitVec 32)) :
    BitVec 5 → BitVec 32 :=
  w.elim reg fun w => setReg reg w.1 w.2

/-- The instruction in ID takes from EX what the datapath takes, and writes what a register
file without masks stores. -/
structure Unmasked (P : WholeParams) (t : IbexTop n m a b) (x : TopIn) : Prop where
  runs : WholeHart.Runs t.hart
  served : WholeHart.Served P t.hart (t.coreIn P x)
  rf : (t.next P x).hart.arch.rf
    = t.hart.arch.rf.write (t.hart.arch.rfWeWb P.toArchParams (t.hart.archIn P (t.coreIn P x)))
      (rfWaddr t.hart.core.ifId.instrRdataId)
      (t.hart.arch.rfWdataWb P.toArchParams (t.hart.archIn P (t.coreIn P x)))

namespace Unmasked

variable (hu : Unmasked P t x)

include hu

/-- ID writes the registers as the datapath does. -/
theorem read_next (hl : t.hart.rfWeLsu P (t.coreIn P x) = false) :
    (t.next P x).hart.arch.rf.read
      = written t.hart.arch.rf.read (t.hart.datapathOut P (t.coreIn P x)).rfWrite := by
  have hl' : t.hart.arch.rfWeLsu P.toArchParams (t.hart.archIn P (t.coreIn P x)) = false := hl
  have hid : t.hart.arch.rfWeId P.toArchParams (t.hart.archIn P (t.coreIn P x))
      = t.hart.rfWeId P (t.coreIn P x) := rfl
  rw [hu.rf, WholeHart.rfWrite_eq hu.runs hu.served, ArchHart.rfWeWb, hl', ArchHart.rfWdataWb, hid]
  simp only [Bool.or_false, read_write]
  cases t.hart.rfWeId P (t.coreIn P x) <;> rfl

/-- The LSU writes the register of a load. -/
theorem read_next_of_mem (hm : Core.memInsn P.cfg t.hart.core = true) :
    (t.next P x).hart.arch.rf.read
      = if t.hart.core.lsu.lsuRdataValid (t.lsuIn P) then
          setReg t.hart.arch.rf.read (rfWaddr t.hart.core.ifId.instrRdataId)
            (t.hart.core.lsu.lsuRdata (t.lsuIn P))
        else t.hart.arch.rf.read := by
  have hid : t.hart.arch.rfWeId P.toArchParams (t.hart.archIn P (t.coreIn P x)) = false :=
    WholeHart.rfWeId_of_mem hm
  rw [hu.rf, ArchHart.rfWeWb, hid, ArchHart.rfWdataWb, hid]
  simp only [Bool.false_eq_true, if_false, Bool.false_or, read_write]
  rfl

/-- The fetch is redirected as by the datapath. -/
theorem redirect_eq (hk : Keeps P rom t) :
    t.hart.arch.obs.redirect P.toHartParams (t.hart.wired P (t.coreIn P x))
      = (t.hart.datapathOut P (t.coreIn P x)).pcSet.map fun w => w.extractLsb' 1 31 := by
  rw [WholeHart.pcSet_eq hu.runs hu.served hk.hart.branch, HartObs.redirect]
  split_ifs
  · rw [Option.map_some, half_fetchAddr]
  · rfl

/-- The instruction leaves when it does not stall. -/
theorem retires_eq : t.retires P x = (t.hart.datapathOut P (t.coreIn P x)).done ∧
    Core.stallId P.cfg t.hart.core (t.hart.coreIn P (t.coreIn P x)) = !t.retires P x := by
  have hd := WholeHart.instrIdDone_eq hu.runs hu.served
  have hst := WholeHart.stallId_eq hu.runs hu.served
  refine ⟨hd, ?_⟩
  rw [IbexTop.retires, hd]
  exact hst

/-- The registers of the datapath. -/
theorem datapath_next : (t.next P x).hart.datapath
    = { Datapath.next P.cfg t.hart.idInsn t.hart.datapath (t.hart.datapathIn P (t.coreIn P x)) with
        branchTakenQ := (t.next P x).hart.branchTakenQ } :=
  WholeHart.datapath_next hu.runs hu.served

/-- The register of a taken branch steps as in the datapath. -/
theorem branchSetQ_next : (t.next P x).hart.core.branchSetQ
    = (Datapath.next P.cfg t.hart.idInsn t.hart.datapath
      (t.hart.datapathIn P (t.coreIn P x))).branchSetQ :=
  congrArg Datapath.branchSetQ hu.datapath_next

end Unmasked

/-- Without a load or store under way the LSU rests. -/
theorem Keeps.rest (hk : Keeps P rom t) (hn : ¬ Core.MemActive P.cfg t.hart.core) :
    (t.hart.datapathIn P (t.coreIn P x)).lsuBusy = false ∧
      (t.hart.datapathIn P (t.coreIn P x)).lsuAddrIncrReq = false ∧
      Core.lsuValid P.cfg t.hart.core (t.hart.coreIn P (t.coreIn P x)) = false ∧
      t.hart.rfWeLsu P (t.coreIn P x) = false := by
  have hbusy : t.hart.core.lsu.busy = false := (hk.hart.base.obs.core.rest hn).1
  have hidle : t.hart.core.lsu.lsFsm = .idle := by simpa [Lsu.busy] using hbusy
  refine ⟨hbusy, ?_, ?_, ?_⟩
  · change t.hart.core.lsu.addrIncr = false
    rw [Lsu.addrIncr, hidle]
  · by_contra hne
    exact hn (hk.hart.base.obs.core.of_lsuValid (hk.busOk x) ((Bool.not_eq_false _).mp hne)).1
  · by_contra hne
    exact hn (WholeHart.of_rfWeLsu hk.hart (IbexTop.busOk hk.owes) ((Bool.not_eq_false _).mp hne)).1

/-- What the instruction in ID sees. -/
theorem Keeps.dataIndTiming (hk : Keeps P rom t) :
    (t.hart.datapathIn P (t.coreIn P x)).dataIndTiming = false :=
  hk.calm.dataIndTiming

/-- With complete masks the masks do not show. -/
theorem InId.unmasked (hin : InId rom t pc) (hk : Keeps P rom t) (hf : HasInsn rom pc i c)
    (hM : P.rv32m = true) (hn : NoTrap i) (hc : CompleteAt P m rom pc) : Unmasked P t x := by
  have hi := hk.hart.base.obs
  have hd := hin.decodes hi hf
  have hw := hc _ hin.word
  refine ⟨hin.runs hi hf, hd.served hM hn hk.dataIndTiming hw, hd.rfNext hM hn hw fun hl => ?_⟩
  obtain ⟨hact, hwe⟩ := WholeHart.of_rfWeLsu hk.hart (IbexTop.busOk hk.owes) hl
  exact ⟨Core.main_dataReq.trans hact.2.2, hwe⟩

/-! ### The stages -/

/-- The machine performs the instruction `i`, with the effect `e`. -/
structure Performing (rom : FetchMem) {k : ℕ} (s : Arch k) (i : ImInsn) (c : Bool) (e : Effect) :
    Prop where
  fetches : HasInsn rom s.pc i c
  effect : i.effect (s.pc ++ 0#1) (bytes c) s.reg = some e

/-- The instruction `i`, a jump or a taken branch, is in its second cycle: what it has done in
the first one, and where it has sent the fetch. -/
structure Second (P : WholeParams) (t : IbexTop n m a b) (h : IdInstr) (d : Datapath m)
    (y : DatapathIn) : Prop where
  starts : Datapath.Starts d
  dataIndTiming : y.dataIndTiming = false
  lsuBusy : y.lsuBusy = false
  lsuAddrIncrReq : y.lsuAddrIncrReq = false
  datapath : t.hart.datapath
    = { Datapath.next P.cfg h d y with branchTakenQ := t.hart.branchTakenQ }
  done : (Datapath.out P.cfg h d y).done = false
  target : t.hart.arch.obs.target
    = (Datapath.out P.cfg h d y).pcSet.map fun w => w.extractLsb' 1 31

/-- Where the hart is between two steps of the machine. -/
inductive Stage (P : WholeParams) (rom : FetchMem) (v₀ : BitVec (a + b + 2) → BitVec 8)
    (t : IbexTop n m a b) (s : Arch (a + b)) : Prop
  /-- the controller starts -/
  | booting
      (hf : t.hart.core.ctrl.ctrlFsm = .reset ∨ t.hart.core.ctrl.ctrlFsm = .bootSet)
      (hv : t.hart.core.ifId.instrValidId = false) (hpc : s.pc = 0x40#31)
      (hm : Stores P v₀ t none s.mem) : Stage P rom v₀ t s
  /-- ID waits for the next instruction -/
  | waiting (hw : Waits t s.pc) (hm : Stores P v₀ t none s.mem) : Stage P rom v₀ t s
  /-- the next instruction is in its first cycle -/
  | first (hs : Starts rom t s.pc) (hm : Stores P v₀ t none s.mem) : Stage P rom v₀ t s
  /-- it jumps or branches in a second cycle -/
  | second {i : Base} {c : Bool} {e : Effect} {d : Datapath m} {y : DatapathIn}
      (hp : Performing rom s (.base i) c e) (hin : InId rom t s.pc)
      (hi : accessesMemory i = false)
      (hd : Second P t (idInstr i c (s.pc ++ 0#1) s.reg) d y)
      (hm : Stores P v₀ t none s.mem) : Stage P rom v₀ t s
  /-- it loads or stores -/
  | access {i : Base} {c : Bool} {e : Effect} {o : MemOp}
      (hp : Performing rom s (.base i) c e) (hin : InId rom t s.pc)
      (hi : accessesMemory i = true) (ht : t.hart.arch.obs.target = none)
      (hq : t.hart.core.branchSetQ = false) (hm : Stores P v₀ t (some o) s.mem) :
      Stage P rom v₀ t s
  /-- it multiplies or divides -/
  | mulDiv {op : MulDiv} {rs2 rs1 rd : BitVec 5} {c : Bool} {e : Effect}
      (hp : Performing rom s (.mulDiv op rs2 rs1 rd) c e) (hin : InId rom t s.pc)
      (ht : t.hart.arch.obs.target = none) (hq : t.hart.core.branchSetQ = false)
      (hc : ExBlock.Computes P.cfg t.hart.ex ⟨op, s.reg rs1, s.reg rs2⟩
        (op.exec (s.reg rs1) (s.reg rs2)))
      (hm : Stores P v₀ t none s.mem) : Stage P rom v₀ t s

/-- The hart has the registers and the memory of the machine, and is in one of the stages. -/
structure Sim (P : WholeParams) (rom : FetchMem) (v₀ : BitVec (a + b + 2) → BitVec 8)
    (t : IbexTop n m a b) (s : Arch (a + b)) : Prop where
  keeps : Keeps P rom t
  reg : t.hart.arch.rf.read = s.reg
  stage : Stage P rom v₀ t s

end IbexTop

end CocoIbex
