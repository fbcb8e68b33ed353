import CocoIbex.Encodings
import CocoIbex.TopExec

/-!
# Executing Programs on the Top Level

`ibex_top` runs the program in its ROM as the instruction set says: in every run from a reset,
the registers, the memory and the next address are those of the machine of RV32IMC after as many
steps as instructions have left ID. This holds in every build, as long as the program has no
instruction that a mask of the build gets in the way of. One lemma for each stage of an
instruction shows that the relation `Sim` is kept, whether it leaves in the cycle or stays.

The theorem is an instance of the refinement rule. A cycle fires when an instruction leaves ID,
and the state of the machine of RV32IMC that it is related to goes one step on; in all other
cycles the related state stays. The rule asks that the program does not get stuck, that is, that
it does not trap, and for a secure build that the masks are complete for each of its
instructions (`CompleteStep`).

All parts come together here: the fetch path, the expansion of compressed instructions, the
decoders, EX with the units of the M extension, the sequencing, and the memory.

## Main results

* `sim_next` — the step lemma: each cycle keeps the relation, and is a step of the machine when
  an instruction leaves;
* `executes_program` — the execution of programs, in every run from a reset.
-/

namespace CocoIbex

open Rv32

/-! ### The outputs of an instruction and its effect -/

/-- What is written and where the hart goes on, after an instruction of two cycles of which the
first one writes nothing. -/
theorem Performs.of_two {o o' : DatapathOut} {pc len : BitVec 32} {e : Effect}
    (h : Performs [o, o'] pc len (some e)) (hw : o.rfWrite = none) :
    o'.rfWrite = e.write ∧ (o'.pcSet.or o.pcSet).getD (pc + len) = e.nextPc := by
  have hwrites := h.writes
  simp only [List.filterMap_cons, hw, List.filterMap_nil, Option.bind_some] at hwrites
  refine ⟨?_, ?_⟩
  · cases hw' : o'.rfWrite <;> cases he : e.write <;> simp_all
  · obtain ⟨hnone, hnext⟩ | ⟨f, hf, hsome⟩ := h.nextPc
    · simp only [List.filterMap_cons, List.filterMap_nil] at hnone
      rw [hnext e rfl]
      cases hp : o.pcSet <;> cases hp' : o'.pcSet <;> simp_all
    · obtain rfl := Option.some.inj hf
      simp only [List.filterMap_cons, List.filterMap_nil] at hsome
      cases hp : o.pcSet <;> cases hp' : o'.pcSet <;> simp_all

/-- The same after an instruction of one cycle. -/
theorem Performs.of_one {o : DatapathOut} {pc len : BitVec 32} {e : Effect}
    (h : Performs [o] pc len (some e)) :
    o.rfWrite = e.write ∧ o.pcSet.getD (pc + len) = e.nextPc := by
  have hwrites := h.writes
  simp only [List.filterMap_cons, List.filterMap_nil, Option.bind_some] at hwrites
  refine ⟨?_, ?_⟩
  · cases hw' : o.rfWrite <;> cases he : e.write <;> simp_all
  · obtain ⟨hnone, hnext⟩ | ⟨f, hf, hsome⟩ := h.nextPc
    · simp only [List.filterMap_cons, List.filterMap_nil] at hnone
      rw [hnext e rfl]
      cases hp : o.pcSet <;> simp_all
    · obtain rfl := Option.some.inj hf
      simp only [List.filterMap_cons, List.filterMap_nil] at hsome
      cases hp : o.pcSet <;> simp_all

/-- The next half word behind an instruction. -/
theorem half_add_bytes (pc : BitVec 31) (c : Bool) :
    (pc ++ 0#1 + bytes c).extractLsb' 1 31 = pc + if c then 1#31 else 2#31 := by
  have hpc : (pc ++ 0#1).toNat = 2 * pc.toNat := by
    rw [BitVec.toNat_append]
    simp [Nat.shiftLeft_eq, Nat.mul_comm]
  refine BitVec.eq_of_toNat_eq ?_
  rw [BitVec.extractLsb'_toNat, BitVec.toNat_add, hpc, Nat.shiftRight_eq_div_pow, BitVec.toNat_add]
  cases c <;> simp only [bytes, Bool.false_eq_true, if_true, if_false, BitVec.toNat_ofNat] <;> omega

namespace Datapath

variable {cfg : Config} {m : Multiplier} {i : Base} (compressed : Bool) (pc : BitVec 32)
  (reg : BitVec 5 → BitVec 32) {s : Datapath m} {x : DatapathIn}

/-- With the fixed timing of branches off, the last decision is not looked at. -/
theorem out_branchTakenQ (h : IdInstr) (d : Bool) (hx : x.dataIndTiming = false) :
    out cfg h { s with branchTakenQ := d } x = out cfg h s x := by
  have hid : ∀ v b, idIn cfg h { s with branchTakenQ := d } x v b = idIn cfg h s x v b := by
    intro v b
    simp only [idIn, branchTaken, hx]
    rfl
  have hops : operands cfg h { s with branchTakenQ := d } x = operands cfg h s x := by
    simp only [operands, branchTaken, hx]
    rfl
  have hex : exIn cfg h { s with branchTakenQ := d } x = exIn cfg h s x := by
    simp only [exIn, alu, hid, hops]
  simp only [out, branchSet, fsmOut, idSees, exOut, hid, hops, hex]
  rfl

/-- A load or store behind its first cycle leaves with the answer of the LSU. -/
theorem out_access (hm : IsAccess cfg i) (hx : x.dataIndTiming = false)
    (hmulti : s.idFsm = .multiCycle) (hq : s.branchSetQ = false)
    (hb : x.lsuValid = true → x.lsuBusy = false) :
    out cfg (idInstr i compressed pc reg) s x =
      { rfWrite := none
        lsuRequest := none
        pcSet := none
        branchSet := false
        call := false
        done := x.lsuValid } ∧
      (next cfg (idInstr i compressed pc reg) s x).branchSetQ = false := by
  have hf := fsmOut_later cfg i compressed pc reg hx hmulti
  refine ⟨?_, ?_⟩
  · rw [out_base cfg i compressed pc reg s hx, hf]
    cases hv : x.lsuValid with
    | false => simp [hmulti, hq, hm.dataReq, hm.rfWe, hm.call]
    | true => simp [hmulti, hq, hb hv, hm.dataReq, hm.rfWe, hm.call]
  · change (fsmOut cfg (idInstr i compressed pc reg) s x).branchSetD = false
    rw [hf]
    cases x.lsuValid <;> simp [hm.dataReq]

end Datapath

/-- The loads and stores. -/
theorem isAccess_of_memory (cfg : Config) {i : Base} (h : accessesMemory i = true) :
    Datapath.IsAccess cfg i := by
  cases i with
  | load | store =>
      exact ⟨fun _ => rfl, fun _ => rfl, fun _ => ⟨rfl, rfl⟩, rfl⟩
  | _ => cases h

/-- With no access held the words of the RAM are up to date. -/
theorem LsuRam.settled_of_inv {a b : ℕ} {v : BitVec (a + b + 2) → BitVec 8} {s : LsuRam a b}
    (h : Inv v s) (hop : s.op = none) : Settled (MemOp.memAfter v s.completed) s.ram := by
  cases h with
  | idle _ _ hr => exact hr
  | _ => cases hop

/-- The other instructions access no memory. -/
theorem access_of_effect {i : Base} (h : accessesMemory i = false) {pc len : BitVec 32}
    {reg : BitVec 5 → BitVec 32} {e : Effect} (he : i.effect pc len reg = some e) :
    e.access = none := by
  cases i with
  | load | store => cases h
  | ecall | ebreak => cases he
  | _ =>
      obtain rfl := Option.some.inj he
      rfl

namespace IbexTop

variable {n : ℕ} {m : Multiplier} {a b : ℕ} {P : WholeParams} {t : IbexTop n m a b} {x : TopIn}
  {rom : FetchMem} {v₀ v : BitVec (a + b + 2) → BitVec 8} {op : Option MemOp} {s : Arch (a + b)}
  {i : ImInsn} {c : Bool} {e : Effect}

/-- What a cycle has to do: an instruction that leaves is a step of the machine, and the
relation is kept. -/
def Simulates (P : WholeParams) (rom : FetchMem) (v₀ : BitVec (a + b + 2) → BitVec 8)
    (t : IbexTop n m a b) (x : TopIn) (s : Arch (a + b)) : Prop :=
  if t.retires P x then ∃ s', Step rom s s' ∧ Sim P rom v₀ (t.next P x) s'
  else Sim P rom v₀ (t.next P x) s

/-! ### Nothing executes -/

/-- A hart in which nothing executes neither retires nor asks for anything. -/
theorem Keeps.idle (hk : Keeps P rom t) (hn : ¬ Core.Executing t.hart.core) :
    t.retires P x = false ∧
      Core.csrOpEn P.cfg t.hart.core (t.hart.coreIn P (t.coreIn P x)) = false ∧
      t.hart.lsuReq P t.lines = false ∧ (t.next P x).hart.arch.rf = t.hart.arch.rf := by
  have hx : IdStage.instrExecuting
      (Core.idIn P.cfg t.hart.core (t.hart.coreIn P (t.coreIn P x))) = false :=
    Core.instrExecuting_eq_false hn
  refine ⟨?_, ?_, ?_, ?_⟩
  · rw [retires, Core.instrIdDone, IdStage.instrDone, hx, Bool.and_false]
  · rw [Core.csrOpEn, IdStage.csrOpEn, hx, Bool.and_false, Bool.false_and]
  · by_contra hne
    exact hn (Core.of_lsuReq ((Bool.not_eq_false _).mp hne)).1
  · have hlsu : t.hart.arch.rfWeLsu P.toArchParams (t.hart.archIn P (t.coreIn P x)) = false :=
      (hk.rest fun h => hn h.1).2.2.2
    have hid : t.hart.arch.rfWeId P.toArchParams (t.hart.archIn P (t.coreIn P x)) = false := by
      change (_ && IdStage.instrExecuting
        (Core.idIn P.cfg t.hart.core (t.hart.coreIn P (t.coreIn P x))) && _) = false
      rw [hx, Bool.and_false, Bool.false_and]
    change t.hart.arch.rfNext P.toArchParams (t.hart.archIn P (t.coreIn P x)) = t.hart.arch.rf
    simp only [ArchHart.rfNext, ArchHart.rfWeWb, hid, hlsu]
    split_ifs
    · refine RegisterFile.ext fun r => ?_
      simp [RegisterFile.writeSecure, RegisterFile.weADec]
    · exact RegisterFile.write_of_not_we _ _ _

/-! ### The instruction stays or leaves -/

section

variable (hc : CompleteAt P m rom s.pc) (hM : P.rv32m = true) (hk : Keeps P rom t)
  (hx : x.instrWe = false) (hin : InId rom t s.pc) (hp : Performing rom s i c e)

include hc hM hk hx hin hp

/-- The instruction stays in ID. -/
theorem InId.of_not_done (hd : (t.hart.datapathOut P (t.coreIn P x)).done = false) :
    t.retires P x = false ∧ Keeps P rom (t.next P x) ∧ InId rom (t.next P x) s.pc ∧
      (t.next P x).hart.core.idFsm = .multiCycle ∧
      (t.next P x).hart.arch.obs.target
        = ((t.hart.datapathOut P (t.coreIn P x)).pcSet.map fun w => w.extractLsb' 1 31).or
          t.hart.arch.obs.target := by
  have hi := hk.hart.base.obs
  have hn := noTrap_of_effect hp.effect
  have hu := hin.unmasked hk hp.fetches hM hn hc (x := x)
  obtain ⟨hret, hstall⟩ := hu.retires_eq
  rw [hd] at hret
  rw [hret] at hstall
  obtain ⟨hin', hmulti, -, htarget⟩ := hin.stay hk hstall
  have hen := hin.csrOpEn hi hp.fetches hM hn (x := x)
  rw [hu.redirect_eq hk] at htarget
  exact ⟨hret, hk.next hx hen (Or.inr (Or.inr (Or.inr hin'.ctrlFsm))), hin', hmulti, htarget⟩

/-- The instruction leaves ID, and is a step of the machine. -/
theorem InId.of_done (hs : Stores P v₀ t op v)
    (hd : (t.hart.datapathOut P (t.coreIn P x)).done = true)
    (hpc : (((t.hart.datapathOut P (t.coreIn P x)).pcSet.map fun w => w.extractLsb' 1 31).or
      t.hart.arch.obs.target).getD (s.pc + if c then 1#31 else 2#31) = e.nextPc.extractLsb' 1 31)
    (hreg : (t.next P x).hart.arch.rf.read = (e.apply s).reg)
    (hm : Stores P v₀ (t.next P x) none (e.apply s).mem) : Simulates P rom v₀ t x s := by
  have hi := hk.hart.base.obs
  have hn := noTrap_of_effect hp.effect
  have hu := hin.unmasked hk hp.fetches hM hn hc (x := x)
  obtain ⟨hret, hstall⟩ := hu.retires_eq
  rw [hd] at hret
  rw [hret] at hstall
  have hsp := hin.special hi hp.fetches hM hn hs (x := x)
  have hen := hin.csrOpEn hi hp.fetches hM hn (x := x)
  have hleave := hin.leave hk hp.fetches hsp hstall
  rw [nextPc, hu.redirect_eq hk, hpc] at hleave
  have hfsm := (HartObs.of_ordinary hk.calm (undisturbed (x := x)) hin.executing hsp).2
  have hk' := hk.next hx hen (Or.inr (Or.inr (Or.inr hfsm)))
  rw [Simulates, if_pos hret]
  refine ⟨e.apply s, ⟨i, c, e, hp.fetches, hp.effect, rfl⟩, hk', hreg, ?_⟩
  obtain hstarts | hwaits := hleave
  · exact .first hstarts hm
  · exact .waiting hwaits hm

end

/-! ### Loads and stores -/

/-- The access of the load or store in ID is that of its effect. -/
theorem InId.access_effect {pc : BitVec 31} (hin : InId rom t pc)
    (hi : HartObs.Inv P.toHartParams t.hart.arch.obs) (hM : P.rv32m = true) {i : Base}
    (hf : HasInsn rom pc (.base i) c) (hn : NoTrap (.base i)) (hmem : accessesMemory i = true)
    (len : BitVec 32) :
    ∃ acc, i.effect (pc ++ 0#1) len t.hart.arch.rf.read
        = some { access := some acc, nextPc := pc ++ 0#1 + len } ∧
      (t.hart.access P).load = acc.memOp.load ∧
      (∀ mem : BitVec (a + b + 2) → BitVec 8, (t.hart.access P).store mem = acc.memOp.store mem) ∧
      acc.load = if (t.hart.access P).we then none
        else some (rfWaddr i.encode, acc.memOp.signExt) := by
  have hword : t.hart.core.ifId.instrRdataId = baseWord i := by
    rw [(hin.decoded hi hf).1]
    exact encode_base i
  have hmain : Core.main P.cfg t.hart.core = mainOf P.cfg (t.hart.core.idFsm == .firstCycle) i := by
    rw [hin.main hi hf, ← mainDecode_base, ← encode_base]
    rfl
  have hd := hin.decodes hi hf
  have hbase : t.hart.memBase P = t.hart.arch.rf.read (regS1 (baseWord i)) := by
    rw [hd.memBase hM hn, ← encode_base]
    · rfl
    · rw [hmain]
      cases i <;> first | rfl | cases hmem
  have haddr : (t.hart.access P).addr = t.hart.arch.rf.read (regS1 (baseWord i))
      + if memImmSel (baseWord i) = .s then immSType (baseWord i) else immIType (baseWord i) := by
    simp only [MemOp.addr, WholeHart.access, hbase, WholeHart.memOffset, hword, BitVec.add_zero]
  have hdata : (mainOf P.cfg (t.hart.core.idFsm == .firstCycle) i).rfRenB = true →
      (t.hart.access P).wdata = t.hart.arch.rf.read (regS2 (baseWord i)) := fun hren => by
    rw [← hmain] at hren
    have hport := (hd.rfRdata hM hn (x := .idle)).2 hren
    refine hport.trans ?_
    simp only [Datapath.operands, WholeHart.idInsn, hword]
    rfl
  have hwe : (t.hart.access P).we = (mainOf P.cfg (t.hart.core.idFsm == .firstCycle) i).dataWe :=
    congrArg MainOut.dataWe hmain
  have htype : (t.hart.access P).type
      = (mainOf P.cfg (t.hart.core.idFsm == .firstCycle) i).dataType :=
    congrArg MainOut.dataType hmain
  have hsign : (t.hart.access P).signExt
      = (mainOf P.cfg (t.hart.core.idFsm == .firstCycle) i).dataSignExtension :=
    congrArg MainOut.dataSignExtension hmain
  rw [encode_base]
  cases i with
  | load kind imm rs1 rd =>
      have haddr' : (t.hart.access P).addr = t.hart.arch.rf.read rs1 + imm.signExtend 32 := by
        rw [haddr]
        simp [memImmSel, baseWord, immIType_encI]
      refine ⟨_, rfl, ?_, fun mem => ?_, ?_⟩
      · simp only [MemOp.load, haddr', htype, hsign]
        simp [Access.memOp, MemOp.addr, mainOf]
      · rw [MemOp.store_of_load _ _ hwe, MemOp.store_of_load]
        rfl
      · rw [hwe]
        simp [mainOf, rfWaddr, baseWord, Access.memOp]
  | store size imm rs2 rs1 =>
      have haddr' : (t.hart.access P).addr = t.hart.arch.rf.read rs1 + imm.signExtend 32 := by
        rw [haddr]
        simp [memImmSel, baseWord, immSType_encR]
      have hdata' : (t.hart.access P).wdata = t.hart.arch.rf.read rs2 := by
        rw [hdata rfl]
        simp [baseWord]
      refine ⟨_, rfl, ?_, fun mem => ?_, ?_⟩
      · simp only [MemOp.load, haddr', htype, hsign]
        simp [Access.memOp, MemOp.addr, mainOf]
      · funext j
        simp only [MemOp.store, MemOp.storedByte, MemOp.size, MemOp.place, hwe, htype, haddr',
          hdata']
        simp [Access.memOp, MemOp.addr, mainOf]
      · rw [hwe]
        rfl
  | _ => cases hmem

/-! ### The stages -/

section

variable (hmask : CompleteAt P m rom s.pc) (hM : P.rv32m = true) (hpmp : P.pmpEnable = false)
  (hx : x.instrWe = false) (hk : Keeps P rom t) (hreg : t.hart.arch.rf.read = s.reg)

include hmask hM hpmp hx hk hreg

/-- A multiplication or division stays until EX has its result. -/
theorem simulates_mulDiv {op : MulDiv} {rs2 rs1 rd : BitVec 5}
    (hp : Performing rom s (.mulDiv op rs2 rs1 rd) c e) (hin : InId rom t s.pc)
    (ht : t.hart.arch.obs.target = none) (hq : t.hart.core.branchSetQ = false)
    (hc : ExBlock.Computes P.cfg t.hart.ex ⟨op, s.reg rs1, s.reg rs2⟩
      (op.exec (s.reg rs1) (s.reg rs2)))
    (hm : Stores P v₀ t none s.mem) : Simulates P rom v₀ t x s := by
  have hi := hk.hart.base.obs
  have hu := hin.unmasked hk hp.fetches hM (noTrap_of_effect hp.effect) hmask (x := x)
  obtain ⟨hbusy, -, -, hlsu⟩ := hk.rest (hm.holds.none rfl) (x := x)
  have hinsn := hin.idInsn hi hp.fetches
  rw [hreg] at hinsn
  have hword : t.hart.idInsn.instr = mulDivWord op rs2 rs1 rd := congrArg IdInstr.instr hinsn
  have hM' : P.cfg.rv32m = true := hM
  have hout := Datapath.out_mulDiv hM' op rs2 rs1 rd hword (s := t.hart.datapath) hq hbusy
  have hholds := Datapath.holds_mulDiv hM' op rs2 rs1 rd hword (s := t.hart.datapath)
    (x := t.hart.datapathIn P (t.coreIn P x))
  have hregs : t.hart.idInsn.reg = s.reg := congrArg IdInstr.reg hinsn
  rw [hregs] at hholds
  have hreq : t.hart.lsuReq P t.lines = false := by
    by_contra hne
    have hmem := (Core.of_lsuReq ((Bool.not_eq_false _).mp hne)).2.2
    rw [hin.memInsn hi hp.fetches, dataReq_mulDiv hM'] at hmem
    cases hmem
  have hm' := hm.next_none hpmp hk.hart hk.owes hreq (x := x)
  have he : e = { write := some (rd, op.exec (s.reg rs1) (s.reg rs2))
                  nextPc := s.pc ++ 0#1 + bytes c } := (Option.some.inj hp.effect).symm
  cases hv : (Datapath.exOut P.cfg t.hart.idInsn t.hart.datapath
      (t.hart.datapathIn P (t.coreIn P x))).exValid with
  | true =>
      rw [hv, if_pos rfl] at hout
      have hres := hc.result hholds hv
      have hdone : (t.hart.datapathOut P (t.coreIn P x)).done = true := congrArg _ hout
      have hset : (t.hart.datapathOut P (t.coreIn P x)).pcSet = none := congrArg _ hout
      have hwrite : (t.hart.datapathOut P (t.coreIn P x)).rfWrite
          = some (rd, op.exec (s.reg rs1) (s.reg rs2)) := by
        rw [← hres]
        exact congrArg DatapathOut.rfWrite hout
      subst he
      refine hin.of_done hmask hM hk hx hp hm hdone ?_ ?_ hm'
      · rw [hset, ht]
        exact (half_add_bytes s.pc c).symm
      · rw [hu.read_next hlsu, hwrite, hreg]
        rfl
  | false =>
      rw [hv] at hout
      have hdone : (t.hart.datapathOut P (t.coreIn P x)).done = false := congrArg _ hout
      have hset : (t.hart.datapathOut P (t.coreIn P x)).pcSet = none := congrArg _ hout
      have hwrite : (t.hart.datapathOut P (t.coreIn P x)).rfWrite = none := congrArg _ hout
      obtain ⟨hret, hk', hin', -, htarget⟩ := hin.of_not_done hmask hM hk hx hp hdone
      rw [hset, ht] at htarget
      have hnext := hu.datapath_next
      have hfsm := Datapath.fsmOut_mulDiv hM' op rs2 rs1 rd hword (s := t.hart.datapath)
        (x := t.hart.datapathIn P (t.coreIn P x))
      rw [hv] at hfsm
      have hex : (t.next P x).hart.ex = ExBlock.next P.cfg m t.hart.ex
          (Datapath.exIn P.cfg t.hart.idInsn t.hart.datapath
            (t.hart.datapathIn P (t.coreIn P x))) := congrArg Datapath.ex hnext
      have hq' : (t.next P x).hart.core.branchSetQ = false :=
        (congrArg Datapath.branchSetQ hnext).trans (congrArg IdFsmOut.branchSetD hfsm)
      have hreg' : (t.next P x).hart.arch.rf.read = s.reg := by
        rw [hu.read_next hlsu, hwrite, hreg]
        rfl
      rw [Simulates, hret]
      refine ⟨hk', hreg', .mulDiv hp hin' htarget hq' ?_ hm'⟩
      rw [hex]
      exact hc.next hholds hv

/-- A load or store behind its first cycle stays until the memory answers. -/
theorem simulates_access {i : Base} {o : MemOp} (hp : Performing rom s (.base i) c e)
    (hin : InId rom t s.pc) (hmem : accessesMemory i = true)
    (ht : t.hart.arch.obs.target = none) (hq : t.hart.core.branchSetQ = false)
    (hm : Stores P v₀ t (some o) s.mem) : Simulates P rom v₀ t x s := by
  have hi := hk.hart.base.obs
  have hu := hin.unmasked hk hp.fetches hM (noTrap_of_effect hp.effect) hmask (x := x)
  obtain ⟨⟨-, hmulti, hload⟩, rfl⟩ := hm.holds.some o rfl
  have hinsn : t.hart.idInsn = idInstr i c (s.pc ++ 0#1) s.reg := by
    rw [hin.idInsn hi hp.fetches, hreg]
    rfl
  have hbusy : Core.lsuValid P.cfg t.hart.core (t.hart.coreIn P (t.coreIn P x)) = true →
      t.hart.core.lsu.busy = false := fun hl => by
    have hidle : t.hart.core.lsu.lsFsm = .idle := (hi.core.of_lsuValid (hk.busOk x) hl).2
    simp [Lsu.busy, hidle]
  obtain ⟨hout, hq'⟩ := Datapath.out_access c (s.pc ++ 0#1) s.reg (isAccess_of_memory P.cfg hmem)
    (s := t.hart.datapath) (x := t.hart.datapathIn P (t.coreIn P x)) hk.dataIndTiming hmulti hq
    hbusy
  rw [← hinsn] at hout hq'
  have hset : (t.hart.datapathOut P (t.coreIn P x)).pcSet = none := congrArg _ hout
  have hdone : (t.hart.datapathOut P (t.coreIn P x)).done
      = Core.lsuValid P.cfg t.hart.core (t.hart.coreIn P (t.coreIn P x)) := congrArg _ hout
  cases hl : Core.lsuValid P.cfg t.hart.core (t.hart.coreIn P (t.coreIn P x)) with
  | false =>
      rw [hl] at hdone
      obtain ⟨hret, hk', hin', -, htarget⟩ := hin.of_not_done hmask hM hk hx hp hdone
      rw [hset, ht] at htarget
      have hrf : (t.next P x).hart.arch.rf = t.hart.arch.rf := WholeHart.rf_next_of_mem hload hl
      have hq'' : (t.next P x).hart.core.branchSetQ = false :=
        hu.branchSetQ_next.trans hq'
      have hreg' : (t.next P x).hart.arch.rf.read = s.reg := by rw [hrf, hreg]
      rw [Simulates, hret]
      exact ⟨hk', hreg', .access hp hin' hmem htarget hq''
        (hm.next_wait hpmp hk.hart hk.owes hl)⟩
  | true =>
      rw [hl] at hdone
      obtain ⟨hm', hvalid, hvalue⟩ := hm.next_done hpmp hk.hart hk.owes hl (x := x)
      obtain ⟨acc, heff, hloads, hstore, hrd⟩ :=
        hin.access_effect hi hM hp.fetches (noTrap_of_effect hp.effect) hmem (bytes c)
      rw [hreg] at heff
      have heff' : i.effect (s.pc ++ 0#1) (bytes c) s.reg = some e := hp.effect
      rw [heff] at heff'
      obtain rfl := Option.some.inj heff'
      have hval : ∀ mem : BitVec (a + b + 2) → BitVec 8,
          (t.hart.access P).value mem = acc.memOp.value mem := fun mem => by
        rw [MemOp.value, hloads]
        rfl
      refine hin.of_done hmask hM hk hx hp hm hdone ?_ ?_ ?_
      · rw [hset, ht]
        exact (half_add_bytes s.pc c).symm
      · rw [hu.read_next_of_mem hload, hvalid, hreg, (hin.decoded hi hp.fetches).1]
        simp only [Effect.apply, Effect.result, Option.none_or, Option.bind_some, hrd]
        cases hwe : (t.hart.access P).we with
        | false =>
            rw [hvalue hwe, hval]
            rfl
        | true => rfl
      · have hmem' : (Effect.apply { access := some acc, nextPc := s.pc ++ 0#1 + bytes c } s).mem
            = (t.hart.access P).store s.mem := (hstore s.mem).symm
        rw [hmem']
        exact hm'

omit hmask hM hpmp hx hreg in
/-- An instruction that neither loads nor stores does not ask the LSU. -/
theorem lsuReq_of_not_mem {i : Base} (hf : HasInsn rom s.pc (.base i) c) (hin : InId rom t s.pc)
    (hmem : accessesMemory i = false) : t.hart.lsuReq P t.lines = false := by
  by_contra hne
  have hload := (Core.of_lsuReq ((Bool.not_eq_false _).mp hne)).2.2
  rw [hin.memInsn hk.hart.base.obs hf] at hload
  have hreq : (mainDecode P.cfg true false i.encode).dataReq = accessesMemory i :=
    dataReq_base true i
  rw [hmem] at hreq
  cases hreq.symm.trans hload

/-- The second cycle of a jump or of a taken branch. -/
theorem simulates_second {i : Base} {d : Datapath m} {y : DatapathIn}
    (hp : Performing rom s (.base i) c e) (hin : InId rom t s.pc)
    (hmem : accessesMemory i = false) (hd : Second P t (idInstr i c (s.pc ++ 0#1) s.reg) d y)
    (hm : Stores P v₀ t none s.mem) : Simulates P rom v₀ t x s := by
  have hi := hk.hart.base.obs
  have hu := hin.unmasked hk hp.fetches hM (noTrap_of_effect hp.effect) hmask (x := x)
  obtain ⟨hbusy, hincr, -, hlsu⟩ := hk.rest (hm.holds.none rfl) (x := x)
  have hinsn : t.hart.idInsn = idInstr i c (s.pc ++ 0#1) s.reg := by
    rw [hin.idInsn hi hp.fetches, hreg]
    rfl
  have hpc : (s.pc ++ 0#1).getLsbD 0 = false := by
    rw [BitVec.getLsbD_append]
    rfl
  -- the two cycles of the instruction
  let ins : ℕ → DatapathIn := fun k =>
    if k = 0 then y else t.hart.datapathIn P (t.coreIn P x)
  have hdit : ∀ k, (ins k).dataIndTiming = false := fun k => by
    cases k with
    | zero => exact hd.dataIndTiming
    | succ k => exact hk.dataIndTiming
  have hrest : ∀ k, (ins k).lsuBusy = false ∧ (ins k).lsuAddrIncrReq = false := fun k => by
    cases k with
    | zero => exact ⟨hd.lsuBusy, hd.lsuAddrIncrReq⟩
    | succ k => exact ⟨hbusy, hincr⟩
  have hans : LsuAnswers i ins :=
    ⟨fun k _ => hrest k, fun k _ => (hrest k).1, fun h => by cases hmem.symm.trans h⟩
  obtain ⟨k, hk1, ⟨hdone, hbefore⟩, hperf⟩ :=
    Datapath.performs_base P.cfg d ins i c (s.pc ++ 0#1) s.reg hpc hd.starts hdit hans
  obtain rfl : k = 1 := by
    have hle := hk1 hmem
    cases k with
    | zero => cases hdone.symm.trans hd.done
    | succ k => omega
  have hout : Datapath.out P.cfg (idInstr i c (s.pc ++ 0#1) s.reg)
      (Datapath.after P.cfg (idInstr i c (s.pc ++ 0#1) s.reg) d ins 1) (ins 1)
      = t.hart.datapathOut P (t.coreIn P x) := by
    rw [WholeHart.datapathOut, hinsn, hd.datapath, Datapath.out_branchTakenQ _ _ hk.dataIndTiming]
    rfl
  rw [hout] at hdone
  have houts : Datapath.outs P.cfg (idInstr i c (s.pc ++ 0#1) s.reg) d ins (1 + 1)
      = [Datapath.out P.cfg (idInstr i c (s.pc ++ 0#1) s.reg) d y,
        t.hart.datapathOut P (t.coreIn P x)] := by
    rw [← hout]
    rfl
  have heff : i.effect (s.pc ++ 0#1) (bytes c) s.reg = some e := hp.effect
  rw [houts, heff] at hperf
  obtain ⟨hwrite, hnext⟩ := hperf.of_two
    (Datapath.rfWrite_of_not_done hd.starts hd.dataIndTiming hd.lsuBusy hmem hd.done)
  have hacc := access_of_effect hmem heff
  have hm' := hm.next_none hpmp hk.hart hk.owes (lsuReq_of_not_mem hk hp.fetches hin hmem)
    (x := x)
  refine hin.of_done hmask hM hk hx hp hm hdone ?_ ?_ ?_
  · rw [hd.target, ← hnext, ← half_add_bytes]
    cases (t.hart.datapathOut P (t.coreIn P x)).pcSet <;>
      cases (Datapath.out P.cfg (idInstr i c (s.pc ++ 0#1) s.reg) d y).pcSet <;> rfl
  · rw [hu.read_next hlsu, hwrite, hreg, Effect.apply, Effect.result, hacc]
    cases e.write <;> rfl
  · rw [Effect.apply, hacc]
    exact hm'

/-- The first cycle of an instruction that neither loads nor stores. -/
theorem simulates_plain {i : Base} (hp : Performing rom s (.base i) c e)
    (hs : Starts rom t s.pc) (hmem : accessesMemory i = false) (hm : Stores P v₀ t none s.mem) :
    Simulates P rom v₀ t x s := by
  have hi := hk.hart.base.obs
  have hin := hs.inId
  have hu := hin.unmasked hk hp.fetches hM (noTrap_of_effect hp.effect) hmask (x := x)
  obtain ⟨hbusy, hincr, -, hlsu⟩ := hk.rest (hm.holds.none rfl) (x := x)
  have hinsn : t.hart.idInsn = idInstr i c (s.pc ++ 0#1) s.reg := by
    rw [hin.idInsn hi hp.fetches, hreg]
    rfl
  have hpc : (s.pc ++ 0#1).getLsbD 0 = false := by
    rw [BitVec.getLsbD_append]
    rfl
  have hstarts : Datapath.Starts t.hart.datapath := ⟨hs.atRest.idFsm, hs.atRest.branchSetQ⟩
  have hout : Datapath.out P.cfg (idInstr i c (s.pc ++ 0#1) s.reg) t.hart.datapath
      (t.hart.datapathIn P (t.coreIn P x)) = t.hart.datapathOut P (t.coreIn P x) := by
    rw [← hinsn]
    rfl
  have hm' := hm.next_none hpmp hk.hart hk.owes (lsuReq_of_not_mem hk hp.fetches hin hmem)
    (x := x)
  cases hd : (t.hart.datapathOut P (t.coreIn P x)).done with
  | true =>
      obtain ⟨k, -, ⟨-, hbefore⟩, hperf⟩ := Datapath.performs_base P.cfg t.hart.datapath
        (fun _ => t.hart.datapathIn P (t.coreIn P x)) i c (s.pc ++ 0#1) s.reg hpc hstarts
        (fun _ => hk.dataIndTiming)
        ⟨fun _ _ => ⟨hbusy, hincr⟩, fun _ _ => hbusy, fun h => by cases hmem.symm.trans h⟩
      obtain rfl : k = 0 := by
        by_contra hne
        have hno := hbefore 0 (Nat.pos_of_ne_zero hne)
        cases hd.symm.trans ((congrArg DatapathOut.done hout.symm).trans hno)
      have heff : i.effect (s.pc ++ 0#1) (bytes c) s.reg = some e := hp.effect
      have houts : Datapath.outs P.cfg (idInstr i c (s.pc ++ 0#1) s.reg) t.hart.datapath
          (fun _ => t.hart.datapathIn P (t.coreIn P x)) (0 + 1)
          = [t.hart.datapathOut P (t.coreIn P x)] := by
        rw [← hout]
        rfl
      rw [houts, heff] at hperf
      obtain ⟨hwrite, hnext⟩ := hperf.of_one
      have hacc := access_of_effect hmem heff
      refine hin.of_done hmask hM hk hx hp hm hd ?_ ?_ ?_
      · rw [hs.target, ← hnext, ← half_add_bytes]
        cases (t.hart.datapathOut P (t.coreIn P x)).pcSet <;> rfl
      · rw [hu.read_next hlsu, hwrite, hreg, Effect.apply, Effect.result, hacc]
        cases e.write <;> rfl
      · rw [Effect.apply, hacc]
        exact hm'
  | false =>
      obtain ⟨hret, hk', hin', -, htarget⟩ := hin.of_not_done hmask hM hk hx hp hd
      have hdone := congrArg DatapathOut.done hout
      rw [hd] at hdone
      have hwrite := Datapath.rfWrite_of_not_done hstarts hk.dataIndTiming hbusy hmem hdone
      rw [hout] at hwrite
      have hreg' : (t.next P x).hart.arch.rf.read = s.reg := by
        rw [hu.read_next hlsu, hwrite, hreg]
        rfl
      rw [hs.target, Option.or_none, ← hout] at htarget
      rw [Simulates, hret]
      refine ⟨hk', hreg', .second hp hin' hmem ⟨hstarts, hk.dataIndTiming, hbusy, hincr, ?_, hdone,
        htarget⟩ hm'⟩
      rw [← hinsn]
      exact hu.datapath_next

/-- The first cycle of a load or store. -/
theorem simulates_request {i : Base} (hp : Performing rom s (.base i) c e)
    (hs : Starts rom t s.pc) (hmem : accessesMemory i = true) (hm : Stores P v₀ t none s.mem) :
    Simulates P rom v₀ t x s := by
  have hi := hk.hart.base.obs
  have hin := hs.inId
  have hu := hin.unmasked hk hp.fetches hM (noTrap_of_effect hp.effect) hmask (x := x)
  obtain ⟨-, -, hvalid, -⟩ := hk.rest (hm.holds.none rfl) (x := x)
  have hinsn : t.hart.idInsn = idInstr i c (s.pc ++ 0#1) s.reg := by
    rw [hin.idInsn hi hp.fetches, hreg]
    rfl
  have hacc := isAccess_of_memory P.cfg hmem
  have hstarts : Datapath.Starts t.hart.datapath := ⟨hs.atRest.idFsm, hs.atRest.branchSetQ⟩
  have hdit : ∀ _ : ℕ, (t.hart.datapathIn P (t.coreIn P x)).dataIndTiming = false := fun _ =>
    hk.dataIndTiming
  have hout := Datapath.access_first P.cfg i c (s.pc ++ 0#1) s.reg hstarts hdit hacc
  have hfsm := Datapath.fsmOut_first P.cfg i c (s.pc ++ 0#1) s.reg (hdit 0) hstarts.idFsm
  rw [← hinsn] at hout hfsm
  simp only [hacc.dataReq, if_true] at hfsm
  have hset : (t.hart.datapathOut P (t.coreIn P x)).pcSet = none := congrArg _ hout
  have hdone : (t.hart.datapathOut P (t.coreIn P x)).done = false := congrArg _ hout
  have hload : Core.memInsn P.cfg t.hart.core = true := by
    rw [hin.memInsn hi hp.fetches]
    exact (dataReq_base true i).trans hmem
  have hreq : t.hart.lsuReq P t.lines = true := by
    have hxe := (@Core.instrExecuting_iff P.cfg _ (t.hart.coreIn P t.lines)).mpr hin.executing
    refine Eq.trans (if_pos hxe) ?_
    change (t.hart.core.ifId.instrValidId && t.hart.core.idFsm == .firstCycle
      && (Core.main P.cfg t.hart.core).dataReq) = true
    rw [hin.valid, hs.atRest.idFsm, Core.main_dataReq, hload]
    rfl
  obtain ⟨hret, hk', hin', -, htarget⟩ := hin.of_not_done hmask hM hk hx hp hdone
  rw [hset, hs.target] at htarget
  have hrf : (t.next P x).hart.arch.rf = t.hart.arch.rf := WholeHart.rf_next_of_mem hload hvalid
  have hreg' : (t.next P x).hart.arch.rf.read = s.reg := by rw [hrf, hreg]
  have hq : (t.next P x).hart.core.branchSetQ = false :=
    hu.branchSetQ_next.trans
      (congrArg IdFsmOut.branchSetD hfsm)
  rw [Simulates, hret]
  exact ⟨hk', hreg', .access hp hin' hmem htarget hq
    (hm.next_start hpmp hk.hart hk.owes hreq)⟩

/-- The first cycle of an instruction. -/
theorem simulates_first (hp : Performing rom s i c e) (hs : Starts rom t s.pc)
    (hm : Stores P v₀ t none s.mem) : Simulates P rom v₀ t x s := by
  cases i with
  | mulDiv op rs2 rs1 rd =>
      exact simulates_mulDiv hmask hM hpmp hx hk hreg hp hs.inId hs.target hs.atRest.branchSetQ
        (ExBlock.computes_exec hM ⟨op, s.reg rs1, s.reg rs2⟩ hs.atRest.multdiv) hm
  | base i =>
      cases hmem : accessesMemory i with
      | true => exact simulates_request hmask hM hpmp hx hk hreg hp hs hmem hm
      | false => exact simulates_plain hmask hM hpmp hx hk hreg hp hs hmem hm

omit hmask hM in
/-- ID waits for the next instruction. -/
theorem simulates_waiting (hw : Waits t s.pc) (hm : Stores P v₀ t none s.mem) :
    Simulates P rom v₀ t x s := by
  have hn : ¬ Core.Executing t.hart.core := fun h => by cases hw.valid.symm.trans h.1
  obtain ⟨hret, hen, hreq, hrf⟩ := hk.idle hn (x := x)
  have hfsm := (HartObs.of_waiting hk.hart.base.obs (hk.busOk x) hk.calm undisturbed hw.ctrlFsm
    hw.valid).2.2
  have hm' := hm.next_none hpmp hk.hart hk.owes hreq (x := x)
  have hreg' : (t.next P x).hart.arch.rf.read = s.reg := by rw [hrf, hreg]
  rw [Simulates, hret]
  refine ⟨hk.next hx hen (Or.inr (Or.inr (Or.inr hfsm))), hreg', ?_⟩
  obtain hstarts | hwaits := hw.next hk (x := x)
  · exact .first hstarts hm'
  · exact .waiting hwaits hm'

omit hmask hM in
/-- The controller starts. -/
theorem simulates_booting
    (hf : t.hart.core.ctrl.ctrlFsm = .reset ∨ t.hart.core.ctrl.ctrlFsm = .bootSet)
    (hv : t.hart.core.ifId.instrValidId = false) (hpc : s.pc = 0x40#31)
    (hm : Stores P v₀ t none s.mem) : Simulates P rom v₀ t x s := by
  have hn : ¬ Core.Executing t.hart.core := fun h => by cases hv.symm.trans h.1
  obtain ⟨hret, hen, hreq, hrf⟩ := hk.idle hn (x := x)
  obtain ⟨hredirect, hd, hfsm⟩ := HartObs.of_booting (o := t.hart.arch.obs) hf
    (undisturbed (P := P) (t := t) (x := x))
  have hm' := hm.next_none hpmp hk.hart hk.owes hreq (x := x)
  have hv' : (t.next P x).hart.core.ifId.instrValidId = false := HartObs.gone_next hd hv
  have haddr : (t.next P x).hart.arch.obs.hart.fetchAddrQ = s.pc := by
    refine (HartObs.fetchAddrQ_next hd).trans ?_
    have hboot : (t.hart.wired P (t.coreIn P x)).bootPc = 0x40#31 := by
      change (((0#32).extractLsb' 8 24 ++ 0x80#8).extractLsb' 1 31) = 0x40#31
      decide
    rw [hredirect, hpc, ← hboot]
    rfl
  have hreg' : (t.next P x).hart.arch.rf.read = s.reg := by rw [hrf, hreg]
  have hfsm' : (t.next P x).hart.core.ctrl.ctrlFsm
      = if t.hart.core.ctrl.ctrlFsm = .reset then .bootSet else .firstFetch := hfsm
  rw [Simulates, hret]
  obtain hf | hf := hf
  · rw [hf] at hfsm'
    exact ⟨hk.next hx hen (Or.inr (Or.inl hfsm')), hreg', .booting (Or.inr hfsm') hv' hpc hm'⟩
  · rw [hf] at hfsm'
    exact ⟨hk.next hx hen (Or.inr (Or.inr (Or.inl hfsm'))), hreg',
      .waiting ⟨Or.inl hfsm', hv', haddr⟩ hm'⟩

end

/-! ### Whole runs -/

/-- **Step lemma.** Every cycle keeps the relation, and makes a step of the machine when an
instruction leaves. -/
theorem sim_next {s' : Arch (a + b)} (hmask : CompleteAt P m rom s.pc) (hM : P.rv32m = true)
    (hpmp : P.pmpEnable = false) (hx : x.instrWe = false) (hs : Sim P rom v₀ t s)
    (hstep : Step rom s s') : Simulates P rom v₀ t x s := by
  obtain ⟨hk, hreg, hstage⟩ := hs
  cases hstage with
  | booting hf hv hpc hm => exact simulates_booting hpmp hx hk hreg hf hv hpc hm
  | waiting hw hm => exact simulates_waiting hpmp hx hk hreg hw hm
  | first hs hm =>
      obtain ⟨i, c, e, hf, he, -⟩ := hstep
      exact simulates_first hmask hM hpmp hx hk hreg ⟨hf, he⟩ hs hm
  | second hp hin hi hd hm => exact simulates_second hmask hM hpmp hx hk hreg hp hin hi hd hm
  | access hp hin hi ht hq hm => exact simulates_access hmask hM hpmp hx hk hreg hp hin hi ht hq hm
  | mulDiv hp hin ht hq hc hm => exact simulates_mulDiv hmask hM hpmp hx hk hreg hp hin ht hq hc hm

/-- A step of the machine from an instruction with complete masks. -/
def CompleteStep (P : WholeParams) (m : Multiplier) (rom : FetchMem) {k : ℕ} (s s' : Arch k) :
    Prop := Step rom s s' ∧ CompleteAt P m rom s.pc

/-- So does it for the steps from instructions with complete masks. -/
theorem complete_next {s' : Arch (a + b)} (hM : P.rv32m = true) (hpmp : P.pmpEnable = false)
    (hx : x.instrWe = false) (hs : Sim P rom v₀ t s) (hstep : CompleteStep P m rom s s') :
    if t.retires P x then ∃ s', CompleteStep P m rom s s' ∧ Sim P rom v₀ (t.next P x) s'
    else Sim P rom v₀ (t.next P x) s := by
  obtain ⟨hstep, hmask⟩ := hstep
  have hsim := sim_next hmask hM hpmp hx hs hstep
  rw [Simulates] at hsim
  split_ifs at hsim ⊢
  · obtain ⟨s', h, hs'⟩ := hsim
    exact ⟨s', ⟨h, hmask⟩, hs'⟩
  · exact hsim

variable (n m) in
/-- After a reset, with `w` in the fetch unit, the words of `f` in the ROM and those of `r` in the
RAM. -/
def start (w : BitVec 31) (f : FetchTop) (r : Ram1pSecure a b) : IbexTop n m a b :=
  ⟨WholeHart.reset n m w, f, r.reset⟩

/-- The machine at the boot address, with the bytes of the RAM. -/
def boot (r : Ram1pSecure a b) : Arch (a + b) := ⟨0x40#31, fun _ => 0#32, bytesOf r.words⟩

/-- The relation holds after a reset. -/
theorem sim_start (w : BitVec 31) {f : FetchTop} (hf : FetchTop.Start f) (r : Ram1pSecure a b) :
    Sim P f.rom.fetchMem (bytesOf r.words) (start n m w f r) (boot r) where
  keeps :=
    { hart := WholeHart.assertInv_reset P w
      owes := by
        have hidle : OneHot.anyOf (start n m w f r).ram.ohInReg = false :=
          OneHot.anyOf_const_false
        rw [Owes, hidle]
        rfl
      fetching :=
        { inv := ⟨_, _, FetchTop.inv_start hf⟩
          mem := rfl
          branched := fun h => absurd rfl h
          parsed := fun h => by cases hf.branched.symm.trans h }
      calm := HartObs.calm_reset w
      ordinary := Or.inl rfl }
  reg := rfl
  stage := by
    refine .booting (Or.inl rfl) rfl rfl ⟨⟨fun _ h => ?_, fun _ => by rintro ⟨⟩⟩, 0, [],
      LsuRam.inv_start r, rfl⟩
    cases h.1.1

/-- The ROM is not written. -/
def RomKept (_ : IbexTop n m a b) (x : TopIn) : Prop := x.instrWe = false

/-- What software sees of the hart is the state `s`: the registers, the address of an instruction
in ID, and the bytes of the RAM when no load or store is under way. -/
structure Shows (P : WholeParams) (t : IbexTop n m a b) (s : Arch (a + b)) : Prop where
  reg : t.hart.arch.rf.read = s.reg
  pc : t.hart.core.ifId.instrValidId = true → t.hart.core.pcId = s.pc ++ 0#1
  mem : ¬ Core.MemActive P.cfg t.hart.core → bytesOf t.ram.words = s.mem

/-- Between two accesses the bytes are in the words of the RAM. -/
theorem Stores.words (hs : Stores P v₀ t none v) : bytesOf t.ram.words = v := by
  obtain ⟨age, ops, hinv, hv⟩ := hs.inv
  exact (LsuRam.settled_of_inv hinv rfl).words.trans hv

/-- What a simulation shows to the outside. -/
theorem Sim.shows (h : Sim P rom v₀ t s) : Shows P t s := by
  obtain ⟨-, hreg, hstage⟩ := h
  cases hstage with
  | booting _ hv _ hm => exact ⟨hreg, fun h => (by cases hv.symm.trans h), fun _ => hm.words⟩
  | waiting hw hm => exact ⟨hreg, fun h => (by cases hw.valid.symm.trans h), fun _ => hm.words⟩
  | first hs hm => exact ⟨hreg, fun _ => hs.inId.pcId, fun _ => hm.words⟩
  | second _ hin _ _ hm => exact ⟨hreg, fun _ => hin.pcId, fun _ => hm.words⟩
  | access _ hin _ _ _ hm =>
      exact ⟨hreg, fun _ => hin.pcId, fun h => absurd (hm.holds.some _ rfl).1 h⟩
  | mulDiv _ hin _ _ _ hm => exact ⟨hreg, fun _ => hin.pcId, fun _ => hm.words⟩

/-- **Execution of programs.** As long as the machine of RV32IMC does not get stuck on the program
in the ROM, nor comes to an instruction whose masks are not complete, the hart shows in every run
from a reset the one state of the machine after as many steps as instructions have left ID. -/
theorem executes_program (hM : P.rv32m = true) (hpmp : P.pmpEnable = false) (w : BitVec 31)
    {f : FetchTop} (hf : FetchTop.Start f) (r : Ram1pSecure a b)
    (hrun : Machine.NeverStuck (CompleteStep P m f.rom.fetchMem) (boot r)) (ins : List TopIn)
    (hins : Machine.Along (next P) RomKept (start n m w f r) ins) :
    ∃ s, (∀ s', Machine.Steps (Step f.rom.fetchMem) (boot r)
        (Machine.fired (next P) (retires P) (start n m w f r) ins) s' ↔ s' = s) ∧
      Shows P (Machine.run (next P) (start n m w f r) ins) s := by
  obtain ⟨s, hsteps, hsim⟩ := Machine.refines (Sim P f.rom.fetchMem (bytesOf r.words))
    (fun t x s s' hs hstep hx => complete_next hM hpmp hx hs hstep) (sim_start w hf r) hrun ins hins
  have hsteps := hsteps.mono fun _ _ h => h.1
  refine ⟨s, fun s' => ⟨fun h => h.unique Step.unique hsteps, ?_⟩, hsim.shows⟩
  rintro rfl
  exact hsteps

/-! ### A program -/

/-- A ROM with `c.addi x1, 1` and `c.swsp x1, 0` in every word. -/
def counting : FetchTop :=
  { FetchTop.boot with rom := ⟨fun _ => 0xc0060085#32, 0#32, false⟩ }

/-- A RAM of zeros. -/
def zeroRam : Ram1pSecure 1 1 where
  mem _ _ := 0#32
  ohInReg _ := false
  interBlockAddrStage1 := 0#1
  interBlockAddrReg := 0#1
  gnt := false
  we := false
  wdata := 0#32
  be := 0#4
  rdataOr _ := 0#32
  rvalid := false

/-- The small hart with all masks. -/
def secure : WholeParams :=
  { WholeParams.small with
    regwriteSecure := true
    regreadSecure := true
    mdSecure := true
    shiftSecure := true
    adderSecure := true }

/-- The halves of the program. -/
theorem half_counting (pc : BitVec 31) : counting.rom.fetchMem.half pc
    = if unaligned pc then Rvc.ciType 0b110#3 0#1 0#5 1#5 0b10#2
      else Rvc.ciType 0b000#3 0#1 1#5 1#5 0b01#2 := by
  have hword : (counting.rom.fetchMem (wordOf pc)).rdata = 0xc0060085#32 := rfl
  rw [FetchMem.half, hword]
  cases unaligned pc <;> decide

/-- The program does not get stuck, and its masks are complete. -/
theorem neverStuck_counting (P : WholeParams) (m : Multiplier) (s : Arch (1 + 1)) :
    Machine.NeverStuck (CompleteStep P m counting.rom.fetchMem) s := by
  intro _ s' _
  have hhalf := half_counting s'.pc
  have hswsp : (Rvc.Insn.swsp 1#5 0#6).encode = Rvc.ciType 0b110#3 0#1 0#5 1#5 0b10#2 := by decide
  have haddi : (Rvc.Insn.addi 1#5 1#6).encode = Rvc.ciType 0b000#3 0#1 1#5 1#5 0b01#2 := by decide
  cases hu : unaligned s'.pc with
  | true =>
      rw [hu, if_pos rfl] at hhalf
      have hf : HasInsn counting.rom.fetchMem s'.pc (.base (Rvc.Insn.swsp 1#5 0#6).expand) true :=
        .compressed (hswsp.trans hhalf.symm)
      refine ⟨_, ⟨_, _, _, hf, rfl, rfl⟩, fun w hw => ?_⟩
      have hfields := hasFields_of_low (hw.low.trans hhalf)
      exact ⟨fun _ => by simp [WriteMaskMissing, hfields.quadrant, hfields.funct3C],
        fun _ => by simp [AdderMaskMissing, hfields.quadrant]⟩
  | false =>
      rw [hu, if_neg Bool.false_ne_true] at hhalf
      have hf : HasInsn counting.rom.fetchMem s'.pc (.base (Rvc.Insn.addi 1#5 1#6).expand) true :=
        .compressed (haddi.trans hhalf.symm)
      refine ⟨_, ⟨_, _, _, hf, rfl, rfl⟩, fun w hw => ?_⟩
      have hfields := hasFields_of_low (hw.low.trans hhalf)
      exact ⟨fun _ => by simp [WriteMaskMissing, hfields.quadrant, hfields.funct3C],
        fun _ => by simp [AdderMaskMissing, hfields.quadrant]⟩

/-- It counts and stores: two instructions leave in the first eight cycles. -/
theorem executes_program_counting :
    let ins := List.replicate 8 TopIn.idle
    let t := Machine.run (next secure) (start 4 .fast 0#31 counting zeroRam) ins
    ∃ s, (∀ s', Machine.Steps (Step counting.rom.fetchMem) (boot zeroRam) 2 s' ↔ s' = s) ∧
      Shows secure t s := by
  have hfired : Machine.fired (next secure) (retires secure) (start 4 .fast 0#31 counting zeroRam)
      (List.replicate 8 TopIn.idle) = 2 := by decide +kernel
  have h := executes_program (P := secure) (n := 4) (m := .fast) rfl rfl 0#31 (f := counting)
    ⟨rfl, rfl, rfl, rfl, rfl, rfl, rfl, rfl, rfl, rfl⟩ zeroRam (neverStuck_counting _ _ _)
    (List.replicate 8 TopIn.idle) (by repeat' constructor)
  rw [hfired] at h
  exact h

end IbexTop

end CocoIbex
