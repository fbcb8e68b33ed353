import CocoIbex.ExactlyOnce
import CocoIbex.Legality
import CocoIbex.ReadGating
import CocoIbex.WbCore

/-!
# What the Read Ports Show

The masked ports of the register file depend on the registers that the read enables name and on
no others. The enables follow the fetch port whenever ID is ready, with or without an
instruction on it. This module compares what they name with the sources of the instruction that
is in ID, over all runs of both cores and for all contents of the register file.

That a port shows nothing of a register is said of two register files: if they agree on the
sources of the instruction in ID, the ports show the same (`NoLeak`). Without an instruction in
ID there are no sources, and the ports have to be closed. The enables in ID are those of the
word that the fetch port had in the cycle in which they were loaded (`EnablesOf`), so the
condition on a run is one on that word in each cycle (`PortsQuiet`).

Both cores have the same pipeline registers, and one argument serves both (`noLeak_iff_along`).

## Main results

* `sourcesOf_eq` — the sources of an instruction by its major opcode;
* `portsFit_iff` — for which accepted words the ports name sources only;
* `read_ports_noLeak_iff` — nothing else is shown, throughout a run, if and only if each cycle
  meets the condition on the word at the fetch port.
-/

namespace CocoIbex

open Rv32

/-! ### Sources -/

/-- The sources of a word with a major opcode. -/
def sourcesBy (w : BitVec 32) : Opcode → List (BitVec 5)
  | .jalr | .load | .opImm => [regS1 w]
  | .branch | .store | .op => [regS1 w, regS2 w]
  | .system =>
    if funct3 w = 0b001#3 ∨ funct3 w = 0b010#3 ∨ funct3 w = 0b011#3 then [regS1 w] else []
  | _ => []

/-- The sources in the format of a word are those by its major opcode. -/
theorem sourcesOf_eq {w : BitVec 32} {o : Opcode} (h : opcodeBits w = o.bits) :
    sourcesOf w = sourcesBy w o := by
  have hop : w.extractLsb' 0 7 = o.bits := h
  have hf3 : w.extractLsb' 12 3 = funct3 w := rfl
  have hs1 : w.extractLsb' 15 5 = regS1 w := rfl
  have hs2 : w.extractLsb' 20 5 = regS2 w := rfl
  simp only [sourcesOf, hop, hf3, hs1, hs2]
  cases o <;> simp [sourcesBy, Opcode.bits]

/-- The sources of the instruction in ID: none without an instruction that the decoders
accept. -/
def idSources (cfg : Config) (s : IfIdReg) : List (BitVec 5) :=
  if s.instrValidId && !(mainDecode cfg true s.illegalCInsnId s.instrRdataId).illegalInsn then
    sourcesOf s.instrRdataId
  else []

/-- Register files that agree on the sources of the instruction in ID show the same values at
the read ports. -/
def NoLeak (cfg : Config) (s : IfIdReg) : Prop :=
  ∀ rf rf' : RegisterFile, (∀ r ∈ idSources cfg s, rf.read r = rf'.read r) →
    rf.readSecure s.rfReadEnableA = rf'.readSecure s.rfReadEnableA ∧
      rf.readSecure s.rfReadEnableB = rf'.readSecure s.rfReadEnableB

/-! ### The ports of a word -/

/-- The port shows x0 or one of the registers. -/
def PortFits (port : BitVec 5) (sources : List (BitVec 5)) : Prop :=
  port = 0#5 ∨ port ∈ sources

/-- A port fits or not by a look at a short list. -/
instance (port : BitVec 5) (sources : List (BitVec 5)) : Decidable (PortFits port sources) :=
  inferInstanceAs (Decidable (_ ∨ _))

/-- A register is the same in all register files that agree on the sources just when it fits
them. -/
theorem portFits_iff (port : BitVec 5) (sources : List (BitVec 5)) :
    (∀ rf rf' : RegisterFile, (∀ r ∈ sources, rf.read r = rf'.read r) →
      rf.read port = rf'.read port) ↔ PortFits port sources := by
  constructor
  · intro h
    by_contra hfit
    rw [PortFits, not_or] at hfit
    -- two register files that differ in this register only
    let zero : RegisterFile := ⟨fun _ => 0#32, rfl⟩
    have heq := h zero (zero.write true port 1#32) fun r hr =>
      (zero.write_of_ne true 1#32 fun hp : r = port => hfit.2 (hp ▸ hr)).symm
    have hone : (zero.write true port 1#32).read port = 1#32 := by
      simp [RegisterFile.read, RegisterFile.write, RegisterFile.weADec, hfit.1]
    rw [hone] at heq
    cases heq
  · rintro (rfl | hmem) rf rf' h
    · exact rf.rfReg_zero.trans rf'.rfReg_zero.symm
    · exact h port hmem

/-- Under the enables of the word `p`, nothing leaks just when its ports fit the sources. -/
theorem noLeak_iff {cfg : Config} {s : IfIdReg} {p : BitVec 32}
    (ha : s.rfReadEnableA = (compressedDecoder p).rfReadEnableA)
    (hb : s.rfReadEnableB = (compressedDecoder p).rfReadEnableB) :
    NoLeak cfg s ↔ PortFits (compressedDecoder p).portA (idSources cfg s) ∧
      PortFits (compressedDecoder p).portB (idSources cfg s) := by
  simp only [NoLeak, ha, hb, readSecure_portA, readSecure_portB, ← portFits_iff]
  exact ⟨fun h => ⟨fun rf rf' hr => (h rf rf' hr).1, fun rf rf' hr => (h rf rf' hr).2⟩,
    fun h rf rf' hr => ⟨h.1 rf rf' hr, h.2 rf rf' hr⟩⟩

/-- The ports fit the sources in the format of the expanded word. -/
def PortsFit (o : CompressedOut) : Prop :=
  PortFits o.portA (sourcesOf o.instr) ∧ PortFits o.portB (sourcesOf o.instr)

section

variable (f7 : BitVec 7) (imm : BitVec 12) (rs2 rs1 rd : BitVec 5) (f3 : BitVec 3)

/-- A load reads its base register. -/
@[simp] theorem sourcesOf_load : sourcesOf (encI imm rs1 f3 rd .load) = [rs1] := by
  rw [sourcesOf_eq (opcodeBits_encI ..)]
  simp [sourcesBy]

/-- An operation with an immediate reads its first source. -/
@[simp] theorem sourcesOf_opImm : sourcesOf (encI imm rs1 f3 rd .opImm) = [rs1] := by
  rw [sourcesOf_eq (opcodeBits_encI ..)]
  simp [sourcesBy]

/-- `jalr` reads its base register. -/
@[simp] theorem sourcesOf_jalr : sourcesOf (encI imm rs1 f3 rd .jalr) = [rs1] := by
  rw [sourcesOf_eq (opcodeBits_encI ..)]
  simp [sourcesBy]

/-- A shift by a constant reads its first source only: the field of the second one has the amount.
-/
@[simp] theorem sourcesOf_shift : sourcesOf (encR f7 rs2 rs1 f3 rd .opImm) = [rs1] := by
  rw [sourcesOf_eq (opcodeBits_encR ..)]
  simp [sourcesBy]

/-- A register operation reads both of its sources. -/
@[simp] theorem sourcesOf_op : sourcesOf (encR f7 rs2 rs1 f3 rd .op) = [rs1, rs2] := by
  rw [sourcesOf_eq (opcodeBits_encR ..)]
  simp [sourcesBy]

/-- A branch reads both of its sources. -/
@[simp] theorem sourcesOf_branch : sourcesOf (encR f7 rs2 rs1 f3 rd .branch) = [rs1, rs2] := by
  rw [sourcesOf_eq (opcodeBits_encR ..)]
  simp [sourcesBy]

/-- A store reads its base register and its data. -/
@[simp] theorem sourcesOf_store : sourcesOf (encR f7 rs2 rs1 f3 rd .store) = [rs1, rs2] := by
  rw [sourcesOf_eq (opcodeBits_encR ..)]
  simp [sourcesBy]

end

/-- The ports of quadrant C0 read what the expanded instructions name. -/
theorem decodeC0_portsFit {w : BitVec 32} (hl : (decodeC0 w).illegalInstr = false) :
    PortsFit (decodeC0 w) := by
  simp only [decodeC0] at hl ⊢
  split at hl <;>
    simp_all [PortsFit, PortFits, CompressedOut.portA, CompressedOut.portB]

/-- So do those of the register operations of quadrant C1. -/
theorem decodeC1Reg_portsFit {w : BitVec 32} (hl : (decodeC1Reg w).illegalInstr = false) :
    PortsFit (decodeC1Reg w) := by
  simp only [decodeC1Reg] at hl ⊢
  split at hl <;>
    simp_all [PortsFit, PortFits, CompressedOut.portA, CompressedOut.portB]

/-- So do those of `c.lui` and `c.addi16sp`. -/
theorem decodeC1Lui_portsFit (w : BitVec 32) : PortsFit (decodeC1Lui w) := by
  simp only [decodeC1Lui]
  split_ifs <;>
    simp [PortsFit, PortFits, CompressedOut.portA, CompressedOut.portB]

/-- So do those of the other operations of quadrant C1. -/
theorem decodeC1Arith_portsFit {w : BitVec 32} (hl : (decodeC1Arith w).illegalInstr = false) :
    PortsFit (decodeC1Arith w) := by
  simp only [decodeC1Arith] at hl ⊢
  split at hl
  case h_4 => exact decodeC1Reg_portsFit hl
  all_goals
    simp [PortsFit, PortFits, CompressedOut.portA, CompressedOut.portB]

/-- The ports of quadrant C1 read what the expanded instructions name. -/
theorem decodeC1_portsFit {w : BitVec 32} (hl : (decodeC1 w).illegalInstr = false) :
    PortsFit (decodeC1 w) := by
  simp only [decodeC1] at hl ⊢
  split at hl
  case h_5 => exact decodeC1Lui_portsFit w
  case h_6 => exact decodeC1Arith_portsFit hl
  all_goals
    simp [PortsFit, PortFits, CompressedOut.portA, CompressedOut.portB]

/-- The ports of quadrant C2 read what the expanded instructions name. -/
theorem decodeC2_portsFit {w : BitVec 32} (hl : (decodeC2 w).illegalInstr = false) :
    PortsFit (decodeC2 w) := by
  have harith : PortsFit (decodeC2Arith w) := by
    simp only [decodeC2Arith]
    split_ifs <;> simp [PortsFit, PortFits, CompressedOut.portA, CompressedOut.portB]
  simp only [decodeC2] at hl ⊢
  split at hl
  case h_3 => exact harith
  case h_5 => simp at hl
  all_goals
    simp [PortsFit, PortFits, CompressedOut.portA, CompressedOut.portB]

/-- A fence with a register in the field that it ignores. -/
def FenceSource (w : BitVec 32) : Prop :=
  quadrant w = 0b11#2 ∧ opcodeBits w = Opcode.miscMem.bits ∧ regS1 w ≠ 0#5

/-- It is a test of three fields. -/
instance (w : BitVec 32) : Decidable (FenceSource w) := inferInstanceAs (Decidable (_ ∧ _ ∧ _))

/-- Of the words that are not compressed the ports of the fences do not fit. -/
theorem decodeC3_portsFit {cfg : Config} {w : BitVec 32} (hq : quadrant w = 0b11#2)
    (hl : (mainDecodeRaw cfg true w).illegalInsn = false) :
    PortsFit (decodeC3 w) ↔ ¬ FenceSource w := by
  cases ho : Opcode.ofBits (opcodeBits w) with
  | none => simp [mainDecodeRaw, ho] at hl
  | some o =>
      have hf := field62_of_opcode ho
      have hop := opcodeBits_of_ofBits ho
      rw [PortsFit, decodeC3_instr, sourcesOf_eq hop, FenceSource, hop]
      cases o <;>
        simp [PortFits, CompressedOut.portA, CompressedOut.portB, decodeC3, sourcesBy, hf, hq,
          Opcode.bits]

/-- The ports of an accepted word fit, but for the fences. -/
theorem portsFit_iff {cfg : Config} {w : BitVec 32} (h : Accepts cfg w) :
    PortsFit (compressedDecoder w) ↔ ¬ FenceSource w := by
  obtain ⟨hc, hm⟩ := accepts_iff.mp h
  obtain hq | hq | hq | hq := quadrant_cases w
  · rw [compressedDecoder_c0 hq] at hc ⊢
    simp [FenceSource, hq, decodeC0_portsFit hc]
  · rw [compressedDecoder_c1 hq] at hc ⊢
    simp [FenceSource, hq, decodeC1_portsFit hc]
  · rw [compressedDecoder_c2 hq] at hc ⊢
    simp [FenceSource, hq, decodeC2_portsFit hc]
  · rw [compressedDecoder_c3 hq] at hm ⊢
    exact decodeC3_portsFit hq hm

/-! ### One cycle -/

/-- The word enables no read of a register but x0. -/
def OpensNothing (w : BitVec 32) : Prop :=
  (compressedDecoder w).portA = 0#5 ∧ (compressedDecoder w).portB = 0#5

/-- The word reads its sources only: it is accepted and no fence with a register, or it opens
nothing. -/
def ReadsOwn (cfg : Config) (w : BitVec 32) : Prop :=
  if Accepts cfg w then ¬ FenceSource w else OpensNothing w

/-- The enables name no register but x0. -/
def Closed (enable : BitVec 32) : Prop :=
  ∀ r : BitVec 5, r ≠ 0#5 → enable.getLsbD r.toNat = false

/-- What the enables take from the cycle: a word that reads its sources only, if it is an
instruction that comes to ID, and no register otherwise. An instruction that is flushed while
ID is not ready leaves none behind. -/
def PortsQuiet (cfg : Config) (s : IfIdReg) (x : IfIdIn) : Prop :=
  if x.idInReady then
    if x.fetchValid && !x.pcSet then ReadsOwn cfg x.fetchRdata else OpensNothing x.fetchRdata
  else
    x.flushId = true → s.instrValidId = true → Closed s.rfReadEnableA ∧ Closed s.rfReadEnableB

/-- The enables are those of the word `p`, and so is the instruction in ID if there is one. -/
structure EnablesOf (s : IfIdReg) (p : BitVec 32) : Prop where
  enableA : s.rfReadEnableA = (compressedDecoder p).rfReadEnableA
  enableB : s.rfReadEnableB = (compressedDecoder p).rfReadEnableB
  valid : s.instrValidId = true → s = IfIdReg.ofWord p

namespace EnablesOf

variable {cfg : Config} {s : IfIdReg} {p : BitVec 32} {x : IfIdIn}

/-- Reset enables are those of `ebreak`. -/
theorem reset : EnablesOf .reset 0x00100073#32 := by
  refine ⟨?_, ?_, fun h => nomatch h⟩ <;> decide +kernel

/-- The enables of the next cycle. -/
theorem next (h : EnablesOf s p) :
    EnablesOf (s.next x) (if x.idInReady then x.fetchRdata else p) := by
  cases hr : x.idInReady with
  | true =>
      refine ⟨by simp [IfIdReg.next, hr], by simp [IfIdReg.next, hr], fun hv => ?_⟩
      have hc := IfIdReg.instrValidClear_of_idInReady hr
      have hnew : x.instrNewId = true := by
        simp only [IfIdReg.next, hc, hr] at hv
        simp_all [IfIdIn.instrNewId]
      have hof := IfIdReg.next_eq_ofWord x h.valid hv
      rwa [hnew, if_pos rfl] at hof
  | false =>
      refine ⟨by simp [IfIdReg.next, hr, h.enableA], by simp [IfIdReg.next, hr, h.enableB],
        fun hv => ?_⟩
      have hof := IfIdReg.next_eq_ofWord x h.valid hv
      simpa [IfIdIn.instrNewId, hr] using hof

/-- Enables that name no register are those of a word that opens nothing. -/
theorem closed_iff (h : EnablesOf s p) :
    Closed s.rfReadEnableA ∧ Closed s.rfReadEnableB ↔ OpensNothing p := by
  rw [h.enableA, h.enableB, OpensNothing]
  refine and_congr ?_ ?_
  · simp only [Closed, CompressedOut.rfReadEnableA_toNat, CompressedOut.portA]
    cases (compressedDecoder p).readA with
    | false => simp
    | true => simpa using ⟨fun h => by_contra fun h0 => h _ h0 rfl, fun h r hr h0 => hr (h0 ▸ h)⟩
  · simp only [Closed, CompressedOut.rfReadEnableB_toNat, CompressedOut.portB]
    cases (compressedDecoder p).readB with
    | false => simp
    | true => simpa using ⟨fun h => by_contra fun h0 => h _ h0 rfl, fun h r hr h0 => hr (h0 ▸ h)⟩

/-- Without an instruction in ID nothing leaks just when the enables name no register. -/
theorem noLeak_of_not_valid (h : EnablesOf s p) (hv : s.instrValidId = false) :
    NoLeak cfg s ↔ OpensNothing p := by
  rw [noLeak_iff h.enableA h.enableB, OpensNothing]
  simp [idSources, hv, PortFits]

/-- With an instruction in ID nothing leaks just when it reads its sources only. -/
theorem noLeak_of_valid (h : EnablesOf s p) (hv : s.instrValidId = true) :
    NoLeak cfg s ↔ ReadsOwn cfg p := by
  rw [noLeak_iff h.enableA h.enableB, ReadsOwn]
  have hof := h.valid hv
  by_cases hacc : Accepts cfg p
  · have hsrc : idSources cfg s = sourcesOf (compressedDecoder p).instr := by
      rw [Accepts] at hacc
      simp [idSources, hof, IfIdReg.ofWord, hacc]
    rw [if_pos hacc, hsrc]
    exact portsFit_iff hacc
  · have hsrc : idSources cfg s = [] := by
      rw [Accepts, Bool.not_eq_false] at hacc
      simp [idSources, hof, IfIdReg.ofWord, hacc]
    rw [if_neg hacc, hsrc]
    simp [PortFits, OpensNothing]

/-- From a cycle in which nothing leaks, nothing leaks in the next just when the ports stay
quiet. -/
theorem noLeak_next_iff (h : EnablesOf s p) (hs : NoLeak cfg s) :
    NoLeak cfg (s.next x) ↔ PortsQuiet cfg s x := by
  have hn := h.next (x := x)
  rw [PortsQuiet]
  cases hr : x.idInReady with
  | true =>
      have hc := IfIdReg.instrValidClear_of_idInReady hr
      have hvalid : (s.next x).instrValidId = (x.fetchValid && !x.pcSet) := by
        simp [IfIdReg.next, hr, hc]
      rw [hr, if_pos rfl] at hn
      cases hv : x.fetchValid && !x.pcSet with
      | true => simpa [hv] using hn.noLeak_of_valid (hvalid.trans hv)
      | false => simpa [hv] using hn.noLeak_of_not_valid (hvalid.trans hv)
  | false =>
      have hclear : x.instrValidClear = x.flushId := by
        rw [IfIdIn.idInReady, ← Bool.not_or, Bool.not_eq_false'] at hr
        simp [IfIdIn.instrValidClear, hr]
      have hvalid : (s.next x).instrValidId = (s.instrValidId && !x.flushId) := by
        simp [IfIdReg.next, hr, hclear]
      rw [hr, if_neg Bool.false_ne_true] at hn
      rw [if_neg Bool.false_ne_true, h.closed_iff]
      cases hv : s.instrValidId with
      | false =>
          -- ID is empty before and after
          have hn' : NoLeak cfg (s.next x) ↔ OpensNothing p :=
            hn.noLeak_of_not_valid (by rw [hvalid, hv]; rfl)
          simpa [hn'] using (h.noLeak_of_not_valid hv).mp hs
      | true =>
          cases hf : x.flushId with
          | true => simpa using hn.noLeak_of_not_valid (by rw [hvalid, hv, hf]; rfl)
          | false =>
              have hn' : NoLeak cfg (s.next x) ↔ ReadsOwn cfg p :=
                hn.noLeak_of_valid (by rw [hvalid, hv, hf]; rfl)
              simpa [hn'] using (h.noLeak_of_valid hv).mp hs

end EnablesOf

/-! ### Runs -/

/-- The rule for a machine with the pipeline registers in it: nothing leaks in a run just when
the ports stay quiet in all its cycles. -/
theorem noLeak_iff_along {σ ι : Type} {next : σ → ι → σ} (cfg : Config) (regs : σ → IfIdReg)
    (port : σ → ι → IfIdIn) (hnext : ∀ s x, regs (next s x) = (regs s).next (port s x)) {s : σ}
    (h0 : regs s = .reset) (ins : List ι) :
    (∀ pre, pre <+: ins → NoLeak cfg (regs (Machine.run next s pre))) ↔
      Machine.Along next (fun s x => PortsQuiet cfg (regs s) (port s x)) s ins := by
  refine Machine.good_iff_along (fun s => (∃ p, EnablesOf (regs s) p) ∧ NoLeak cfg (regs s))
    (fun s => NoLeak cfg (regs s)) ?_ (fun _ h => h.2) ?_ ?_ ins
  · rintro s x ⟨⟨p, hp⟩, hs⟩ hok
    rw [hnext]
    exact ⟨⟨_, hp.next⟩, (hp.noLeak_next_iff hs).mpr hok⟩
  · rintro s x ⟨⟨p, hp⟩, hs⟩ hok hbad
    rw [hnext] at hbad
    exact hok ((hp.noLeak_next_iff hs).mp hbad)
  · rw [h0]
    refine ⟨⟨_, EnablesOf.reset⟩, ?_⟩
    rw [EnablesOf.reset.noLeak_of_not_valid rfl]
    exact ⟨by decide, by decide⟩

/-- **Secure reads without a leak.** In every run of the two-stage core and of the three-stage
core, the read ports show nothing but the sources of the instruction in ID in all cycles if
and only if the ports stay quiet in every cycle. -/
theorem read_ports_noLeak_iff (cfg : Config) :
    (∀ ins : List CoreIn,
      (∀ pre, pre <+: ins → NoLeak cfg (Machine.run (Core.next cfg) Core.reset pre).ifId) ↔
        Machine.Along (Core.next cfg) (fun s x => PortsQuiet cfg s.ifId (Core.ifIdIn cfg s x))
          Core.reset ins) ∧
    ∀ ins : List WbCoreIn,
      (∀ pre, pre <+: ins → NoLeak cfg (Machine.run (WbCore.next cfg) WbCore.reset pre).ifId) ↔
        Machine.Along (WbCore.next cfg)
          (fun s x => PortsQuiet cfg s.ifId (WbCore.ifIdIn cfg s x)) WbCore.reset ins :=
  ⟨noLeak_iff_along cfg Core.ifId (Core.ifIdIn cfg) (fun _ _ => rfl) rfl,
    noLeak_iff_along cfg WbCore.ifId (WbCore.ifIdIn cfg) (fun _ _ => rfl) rfl⟩

/-- ID is empty and ready, and the fetch port shows `add x0, x1, x2` without a fetched word:
in the next cycle ID is still empty, and the port shows x1. -/
theorem read_port_leaks :
    let x : CoreIn := { Core.quietIn with fetchRdata := 0x00208033#32 }
    let s := Machine.run (Core.next Core.smallConfig) Core.reset
      [Core.quietIn, Core.quietIn, Core.quietIn, x]
    s.ifId.instrValidId = false ∧
      (∀ rf : RegisterFile, rf.readSecure s.ifId.rfReadEnableA = rf.read 1#5) ∧
      ¬ NoLeak Core.smallConfig s.ifId := by
  intro x s
  have hs : s.ifId.instrValidId = false ∧
      s.ifId.rfReadEnableA = (compressedDecoder 0x00208033#32).rfReadEnableA ∧
      s.ifId.rfReadEnableB = (compressedDecoder 0x00208033#32).rfReadEnableB := by
    decide +kernel +revert
  obtain ⟨hv, ha, hb⟩ := hs
  refine ⟨hv, fun rf => ?_, fun h => ?_⟩
  · rw [ha, readSecure_portA]
    rfl
  · have hfit := ((noLeak_iff ha hb).mp h).1
    rw [idSources, hv] at hfit
    revert hfit
    decide

end CocoIbex
