import CocoIbex.IbexTop

/-!
# The Data Memory of the Top Level

The LSU of the core and the RAM are the memory of bytes that has been verified, with the load or
store in ID as its access: it starts in the first cycle of the instruction, holds while the
instruction waits, and is over when the instruction leaves.

The machine `LsuRam` issues its accesses from an input, one after the other, and the core from
its instructions. `memIn` is the input that the core amounts to, and with it each cycle of the
top level is a cycle of that machine (`mem`), so that its results are used as they stand. What
has to be shown is that ID presents the access as long as it is held: the base register and the
data are not written meanwhile, and the address of the second part comes from the last one.

## Main results

* `lsuReq_eq` — ID asks for an access when none is held;
* `Holds` and `Stores` are what the later modules use: the access in ID is the one that is held,
  and what has been completed is what the memory has stored.
-/

namespace CocoIbex

/-! ### The decode of an access -/

/-- Size and sign mode of an access do not depend on its cycle. -/
theorem mainDecode_access (cfg : Config) (first first' illegalC : Bool) (i : BitVec 32) :
    (mainDecode cfg first illegalC i).dataType = (mainDecode cfg first' illegalC i).dataType ∧
      (mainDecode cfg first illegalC i).dataSignExtension
        = (mainDecode cfg first' illegalC i).dataSignExtension := by
  have hraw : (mainDecodeRaw cfg first i).dataType = (mainDecodeRaw cfg first' i).dataType ∧
      (mainDecodeRaw cfg first i).dataSignExtension
        = (mainDecodeRaw cfg first' i).dataSignExtension ∧
      (mainDecodeRaw cfg first i).illegalInsn = (mainDecodeRaw cfg first' i).illegalInsn := by
    simp only [mainDecodeRaw]
    split <;> (try split) <;> exact ⟨rfl, rfl, rfl⟩
  obtain ⟨ht, hs, hl⟩ := hraw
  simp only [mainDecode, MainOut.squash, hl]
  split_ifs
  · exact ⟨ht, hs⟩
  · exact ⟨ht, hs⟩

namespace WholeHart

variable {n : ℕ} {m : Multiplier} (P : WholeParams) (h : WholeHart n m)

/-- The access of the load or store in ID. -/
def access : MemOp where
  we := (Core.main P.cfg h.core).dataWe
  type := (Core.main P.cfg h.core).dataType
  signExt := (Core.main P.cfg h.core).dataSignExtension
  base := h.memBase P + h.memOffset
  imm := 0#32
  wdata := h.rfRdataB P

variable {P h}

/-- It only depends on the instruction and the register file. -/
theorem access_congr {h' : WholeHart n m} (hreg : h'.core.ifId = h.core.ifId)
    (hrf : h'.arch.rf = h.arch.rf) : h'.access P = h.access P := by
  have hmain : ∀ g : WholeHart n m, Core.main P.cfg g.core
      = mainDecode P.cfg (g.core.ifId.instrValidId && g.core.idFsm == .firstCycle)
        g.core.ifId.illegalCInsnId g.core.ifId.instrRdataId := fun _ => rfl
  obtain ⟨htype, hsign⟩ := mainDecode_access P.cfg
    (h.core.ifId.instrValidId && h'.core.idFsm == .firstCycle)
    (h.core.ifId.instrValidId && h.core.idFsm == .firstCycle)
    h.core.ifId.illegalCInsnId h.core.ifId.instrRdataId
  have hwe : (Core.main P.cfg h'.core).dataWe = (Core.main P.cfg h.core).dataWe := by
    rw [hmain, hmain, hreg, mainDecode_dataWe]
    exact (mainDecode_dataWe _ _ _ _).symm
  rw [← hreg, ← hmain] at htype hsign
  rw [hreg, ← hmain] at htype hsign
  simp only [access, memBase, memOffset, rfRdataB, hwe, htype, hsign, hreg, hrf]

end WholeHart

/-- Without errors on the bus the LSU sees none. -/
theorem LsuRam.no_error {a b : ℕ} {v : BitVec (a + b + 2) → BitVec 8} {s : LsuRam a b}
    (h : Inv v s) : s.lsu.lsuErrQ = false ∧ s.lsu.pmpErrQ = false := by
  cases h with
  | idle hl => exact ⟨hl.lsuErrQ, hl.pmpErrQ⟩
  | single1 _ hl => exact ⟨hl.lsuErrQ, hl.pmpErrQ⟩
  | single2 _ hl => exact ⟨hl.lsuErrQ, hl.pmpErrQ⟩
  | split1 _ hl => exact ⟨hl.lsuErrQ, hl.pmpErrQ⟩
  | split2 _ hl => exact ⟨hl.lsuErrQ, hl.pmpErrQ⟩
  | split3 _ hl => exact ⟨hl.lsuErrQ, hl.pmpErrQ⟩

namespace IbexTop

variable {n : ℕ} {m : Multiplier} {a b : ℕ} {P : WholeParams} {t : IbexTop n m a b} {x : TopIn}

/-! ### The LSU and the RAM -/

/-- The LSU and the RAM, holding the access `op`. -/
def mem (t : IbexTop n m a b) (op : Option MemOp) (age : ℕ) (ops : List MemOp) : LsuRam a b :=
  ⟨t.hart.core.lsu, t.ram, op, age, ops⟩

/-- What ID asks of them, with the address of the adder. -/
def memIn (P : WholeParams) (t : IbexTop n m a b) : MemIn :=
  ⟨t.hart.lsuReq P t.lines, { t.hart.access P with base := (t.hart.exOut P).aluAdderResultEx }⟩

/-- The access that is held is that of the load or store under way. -/
structure Holds (P : WholeParams) (t : IbexTop n m a b) (op : Option MemOp) : Prop where
  none : op = none → ¬ Core.MemActive P.cfg t.hart.core
  some : ∀ o, op = some o → Core.MemActive P.cfg t.hart.core ∧ o = t.hart.access P

section

variable {op : Option MemOp} (age : ℕ) (ops : List MemOp)
  (hpmp : P.pmpEnable = false) (hi : HartObs.Inv P.toHartParams t.hart.arch.obs)
  (hh : Holds P t op)

include hpmp

/-- Without the PMP no request is denied. -/
theorem dataPmpErr_eq : t.hart.dataPmpErr P = false := by
  simp [WholeHart.dataPmpErr, hpmp]

include hi hh

omit hpmp hi in
/-- ID asks for an access when none is held. -/
theorem lsuReq_eq : (t.mem op age ops).lsuReq (memIn P t) = t.hart.lsuReq P t.lines := by
  cases hop : op with
  | none => rfl
  | some o =>
      have hact := (hh.some o hop).1
      change false = t.hart.lsuReq P t.lines
      cases hr : t.hart.lsuReq P t.lines with
      | false => rfl
      | true => exact absurd hact (Core.not_memActive_of_lsuReq hr)

omit hi in
/-- The request reaches the bus. -/
theorem dataReq_eq : (t.mem op age ops).dataReq (memIn P t) = t.dataReq P := by
  have hreq : t.dataReq P
      = (t.hart.core.lsu.dataReqO (t.hart.lsuReq P t.lines) && !t.hart.dataPmpErr P) := by
    rw [dataReq, Core.dataReq, Core.lsuStep, Lsu.step_dataReqO]
    rfl
  rw [hreq, dataPmpErr_eq hpmp, LsuRam.dataReq, lsuReq_eq age ops hh]
  exact (Bool.and_true _).symm

omit hpmp in
/-- The address is that of the adder. -/
theorem adderResultEx_eq : (t.mem op age ops).adderResultEx (memIn P t)
    = (t.lsuIn P).adderResultEx := by
  have hwire : (t.lsuIn P).adderResultEx = (t.hart.exOut P).aluAdderResultEx :=
    WholeHart.coreIn_adderResultEx (x := t.lines) hi
  rw [hwire]
  cases hop : op with
  | none =>
      have hbusy := (hi.core.rest (hh.none hop)).1
      have hidle : t.hart.core.lsu.lsFsm = .idle := by
        simpa [Lsu.busy] using (show t.hart.core.lsu.busy = false from hbusy)
      simp [LsuRam.adderResultEx, mem, Lsu.addrIncr, hidle, LsuRam.opNow, memIn, WholeHart.access]
  | some o =>
      obtain ⟨hact, rfl⟩ := hh.some o hop
      rw [WholeHart.adder_of_mem hi hact.1.1 hact.2.2, WholeHart.memAddr]
      cases hinc : t.hart.core.lsu.addrIncr <;>
        simp [LsuRam.adderResultEx, mem, hinc, LsuRam.opNow, WholeHart.access]

/-- The LSU sees the same. -/
theorem lsuIn_eq : (t.mem op age ops).lsuIn (memIn P t) = t.lsuIn P := by
  have hreq := lsuReq_eq age ops hh
  have hgnt := dataReq_eq age ops hpmp hh
  have hadd := adderResultEx_eq age ops hi hh
  have herr := dataPmpErr_eq (t := t) hpmp
  have hop : (t.mem op age ops).opNow (memIn P t)
      = { t.hart.access P with base := ((t.mem op age ops).opNow (memIn P t)).base } := by
    cases hop : op with
    | none => rfl
    | some o =>
        obtain ⟨-, rfl⟩ := hh.some o hop
        rfl
  simp only [LsuRam.lsuIn, hreq, hgnt, hadd]
  rw [hop]
  simp only [WholeHart.access]
  have htop : t.lsuIn P =
      { lsuReq := t.hart.lsuReq P t.lines
        lsuWe := (Core.main P.cfg t.hart.core).dataWe
        lsuType := (Core.main P.cfg t.hart.core).dataType
        lsuSignExt := (Core.main P.cfg t.hart.core).dataSignExtension
        lsuWdata := t.hart.rfRdataB P
        adderResultEx := (t.lsuIn P).adderResultEx
        dataGnt := t.dataReq P
        dataRvalid := t.ram.rvalid
        dataErr := false
        dataPmpErr := t.hart.dataPmpErr P
        dataRdata := t.ram.rdataO } := rfl
  rw [htop, herr]
  rfl

/-- So does the RAM. -/
theorem ramIn_eq : (t.mem op age ops).ramIn (memIn P t) = t.ramIn P := by
  have hreq := dataReq_eq age ops hpmp hh
  have hlsu := lsuIn_eq age ops hpmp hi hh
  have hwe : ((t.mem op age ops).opNow (memIn P t)).we = (Core.main P.cfg t.hart.core).dataWe := by
    cases hop : op with
    | none => rfl
    | some o =>
        obtain ⟨-, rfl⟩ := hh.some o hop
        rfl
  rw [LsuRam.ramIn, hreq, hlsu, hwe]
  rfl

/-- The LSU and the RAM step as the memory does. -/
theorem mem_next (x : TopIn) : ∃ age', (t.mem op age ops).next (memIn P t)
    = (t.next P x).mem
      (if op.isSome then (if (t.mem op age ops).respValid (memIn P t) then none else op)
        else if t.hart.lsuReq P t.lines then some (memIn P t).op else none) age'
      (if op.isSome && (t.mem op age ops).respValid (memIn P t) then ops ++ op.toList
        else ops) := by
  have hlsu := lsuIn_eq age ops hpmp hi hh
  have hram := ramIn_eq age ops hpmp hi hh
  refine ⟨if op.isSome then age + 1 else 1, ?_⟩
  rw [LsuRam.next, hlsu, hram]
  rfl

/-- An access is complete when the LSU tells ID so. -/
theorem respValid_eq (x : TopIn) : (t.mem op age ops).respValid (memIn P t)
    = Core.lsuValid P.cfg t.hart.core (t.hart.coreIn P (t.coreIn P x)) := by
  rw [LsuRam.respValid, lsuIn_eq age ops hpmp hi hh]
  rfl

end

/-! ### The bytes -/

/-- The RAM has the bytes `v`, but for the access that is held. -/
structure Stores (P : WholeParams) (v₀ : BitVec (a + b + 2) → BitVec 8) (t : IbexTop n m a b)
    (op : Option MemOp) (v : BitVec (a + b + 2) → BitVec 8) : Prop where
  holds : Holds P t op
  inv : ∃ age ops, LsuRam.Inv v₀ (t.mem op age ops) ∧ MemOp.memAfter v₀ ops = v

/-- The LSU has seen no error. -/
theorem Stores.no_error {v₀ v : BitVec (a + b + 2) → BitVec 8} {op : Option MemOp}
    (hs : Stores P v₀ t op v) :
    t.hart.core.lsu.lsuErrQ = false ∧ t.hart.core.lsu.pmpErrQ = false := by
  obtain ⟨age, ops, hinv, -⟩ := hs.inv
  exact LsuRam.no_error hinv

section

variable {v₀ v : BitVec (a + b + 2) → BitVec 8} {op : Option MemOp}
  (hpmp : P.pmpEnable = false) (hi : WholeHart.AssertInv P t.hart) (ho : Owes t)

include hpmp hi ho

/-- Without a load or store nothing changes. -/
theorem Stores.next_none (hs : Stores P v₀ t none v) (hq : t.hart.lsuReq P t.lines = false) :
    Stores P v₀ (t.next P x) none v := by
  obtain ⟨age, ops, hinv, hv⟩ := hs.inv
  obtain ⟨age', hnext⟩ := mem_next age ops hpmp hi.base.obs hs.holds x
  have hinv' := LsuRam.inv_next hinv (memIn P t)
  rw [hnext] at hinv'
  simp only [Option.isSome_none, Bool.false_eq_true, if_false, hq, Bool.false_and] at hinv'
  refine ⟨⟨fun _ hact => ?_, fun _ => by rintro ⟨⟩⟩, age', ops, hinv', hv⟩
  obtain ⟨hx, hm, -, -⟩ := HartObs.of_memActive_next hi.base.obs hi.base.later
    (WholeHart.promised hi.base (busOk (x := x) ho)) hact
  have hno := hs.holds.none rfl
  have hfirst : t.hart.core.idFsm = .firstCycle := by
    cases hf : t.hart.core.idFsm with
    | firstCycle => rfl
    | multiCycle => exact absurd ⟨hx, hf, hm⟩ hno
  have hstart : t.hart.lsuReq P t.lines = true := by
    have hxe := (@Core.instrExecuting_iff P.cfg _ (t.hart.coreIn P t.lines)).mpr hx
    have hd : (Core.main P.cfg t.hart.core).dataReq = true := Core.main_dataReq.trans hm
    refine Eq.trans (if_pos hxe) ?_
    change (t.hart.core.ifId.instrValidId && t.hart.core.idFsm == .firstCycle
      && (Core.main P.cfg t.hart.core).dataReq) = true
    have hv : t.hart.core.ifId.instrValidId = true := hx.1
    rw [hv, hfirst, hd]
    rfl
  rw [hq] at hstart
  cases hstart

/-- A load or store in its first cycle is held from the next one on. -/
theorem Stores.next_start (hs : Stores P v₀ t none v) (hq : t.hart.lsuReq P t.lines = true) :
    Stores P v₀ (t.next P x) (some (t.hart.access P)) v := by
  obtain ⟨age, ops, hinv, hv⟩ := hs.inv
  obtain ⟨age', hnext⟩ := mem_next age ops hpmp hi.base.obs hs.holds x
  obtain ⟨hx, -, hm⟩ := Core.of_lsuReq hq
  obtain ⟨hbusy, hout, hpmpQ⟩ := hi.base.obs.core.rest (hs.holds.none rfl)
  have hok := busOk (P := P) (x := x) ho
  have hp := WholeHart.promised hi.base hok
  have hl : Core.lsuValid P.cfg t.hart.core (t.hart.coreIn P (t.coreIn P x)) = false := by
    by_contra hne
    exact hs.holds.none rfl (hi.base.obs.core.of_lsuValid hp.bus ((Bool.not_eq_false _).mp hne)).1
  have hidle : t.hart.core.lsu.lsFsm = .idle := by
    simpa [Lsu.busy] using (show t.hart.core.lsu.busy = false from hbusy)
  -- the address of the adder is that of the access
  have hop : (memIn P t).op = t.hart.access P := by
    have hadd := WholeHart.adder_of_mem hi.base.obs hx.1 hm
    simp only [WholeHart.memAddr, Lsu.addrIncr, hidle, Bool.false_eq_true, if_false] at hadd
    simp only [memIn, hadd]
    rfl
  have hinv' := LsuRam.inv_next hinv (memIn P t)
  rw [hnext] at hinv'
  simp only [Option.isSome_none, Bool.false_eq_true, if_false, hq, if_true, Bool.false_and, hop]
    at hinv'
  have hstall : Core.stallId P.cfg t.hart.core (t.hart.coreIn P (t.coreIn P x)) = true := by
    have hv : t.hart.core.ifId.instrValidId = true := hx.1
    simp [Core.stallId, IdStage.stallId, IdStage.stallMem, hv, hm, hl]
  have hreg : (t.next P x).hart.core.ifId = t.hart.core.ifId :=
    (HartObs.next_of_stall hi.base.obs hp.bus hx hstall).2.2.2.1
  have hacc := WholeHart.access_congr (P := P) hreg
    (WholeHart.rf_next_of_mem (x := t.coreIn P x) hm hl)
  refine ⟨⟨by rintro ⟨⟩, fun o h => ?_⟩, age', ops, hinv', hv⟩
  obtain rfl := Option.some.inj h
  exact ⟨Core.mem_stays hx hm hl, hacc.symm⟩

variable {o : MemOp}

/-- It is held until the answer comes. -/
theorem Stores.next_wait (hs : Stores P v₀ t (some o) v)
    (hl : Core.lsuValid P.cfg t.hart.core (t.hart.coreIn P (t.coreIn P x)) = false) :
    Stores P v₀ (t.next P x) (some o) v := by
  obtain ⟨age, ops, hinv, hv⟩ := hs.inv
  obtain ⟨age', hnext⟩ := mem_next age ops hpmp hi.base.obs hs.holds x
  obtain ⟨hact, rfl⟩ := hs.holds.some o rfl
  have hresp := respValid_eq age ops hpmp hi.base.obs hs.holds x
  have hp := WholeHart.promised hi.base (busOk (x := x) ho)
  have hinv' := LsuRam.inv_next hinv (memIn P t)
  rw [hnext, hresp, hl] at hinv'
  simp only [Option.isSome_some, if_true, Bool.false_eq_true, if_false, Bool.and_false] at hinv'
  have hstall : Core.stallId P.cfg t.hart.core (t.hart.coreIn P (t.coreIn P x)) = true := by
    have hv : t.hart.core.ifId.instrValidId = true := hact.1.1
    simp [Core.stallId, IdStage.stallId, IdStage.stallMem, hv, hact.2.2, hl]
  have hreg : (t.next P x).hart.core.ifId = t.hart.core.ifId :=
    (HartObs.next_of_stall hi.base.obs hp.bus hact.1 hstall).2.2.2.1
  have hacc := WholeHart.access_congr (P := P) hreg
    (WholeHart.rf_next_of_mem (x := t.coreIn P x) hact.2.2 hl)
  refine ⟨⟨by rintro ⟨⟩, fun o h => ?_⟩, age', ops, hinv', hv⟩
  obtain rfl := Option.some.inj h
  exact ⟨Core.mem_stays hact.1 hact.2.2 hl, hacc.symm⟩

/-- With the answer the bytes are stored, and a load gets the value of its bytes. -/
theorem Stores.next_done (hs : Stores P v₀ t (some o) v)
    (hl : Core.lsuValid P.cfg t.hart.core (t.hart.coreIn P (t.coreIn P x)) = true) :
    Stores P v₀ (t.next P x) none (o.store v) ∧
      t.hart.core.lsu.lsuRdataValid (t.lsuIn P) = !o.we ∧
      (o.we = false → t.hart.core.lsu.lsuRdata (t.lsuIn P) = o.value v) := by
  obtain ⟨age, ops, hinv, rfl⟩ := hs.inv
  obtain ⟨age', hnext⟩ := mem_next age ops hpmp hi.base.obs hs.holds x
  have hresp := respValid_eq age ops hpmp hi.base.obs hs.holds x
  have hlsu := lsuIn_eq age ops hpmp hi.base.obs hs.holds
  obtain ⟨-, -, -, hwe, hval⟩ := @LsuRam.answer_of_inv a b _ _ hinv (memIn P t) o rfl
  have hinv' := LsuRam.inv_next hinv (memIn P t)
  rw [hnext, hresp, hl] at hinv'
  simp only [Option.isSome_some, if_true, Bool.and_self, Option.toList_some] at hinv'
  have hrv := hwe (hresp.trans hl)
  rw [LsuRam.rdataValid, hlsu] at hrv
  rw [LsuRam.rdataValid, LsuRam.rdata, hlsu] at hval
  refine ⟨⟨⟨fun _ hact => ?_, fun _ => by rintro ⟨⟩⟩, age', _, hinv',
    MemOp.memAfter_concat _ _ _⟩, hrv, fun hwe => ?_⟩
  · obtain ⟨-, -, -, hno⟩ := HartObs.of_memActive_next hi.base.obs hi.base.later
      (WholeHart.promised hi.base (busOk (x := x) ho)) hact
    have hno' : Core.lsuValid P.cfg t.hart.core (t.hart.coreIn P (t.coreIn P x)) = false := hno
    rw [hl] at hno'
    cases hno'
  · exact (hval (hrv.trans (by rw [hwe]; rfl))).2

end

end IbexTop

end CocoIbex
