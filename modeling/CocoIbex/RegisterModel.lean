import CocoIbex.RefCounters

/-!
# The C++ Model of the CSRs

`RegisterModel` of the verification environment of `ibex_cs_registers`: a vector of registers of
five classes, each a whole word that is updated under a lock mask. A transaction is processed by
every register whose address it has.

The classes are a tag on the register here, with one function for each method that a class may
override. The model keeps its registers in a vector that the other registers search for a
configuration word by its address, so `GetLockMask` depends on the whole list (`cfgValue`). A
register that is not implemented has a class of its own, which reads as zero, and the counters
have one in which the bits beyond the width do not exist.

The map of the registers depends on the parameters, the numbers of regions and of counters and
the width of the counters, and is built in the order of the source (`registerMap`).

## Main results

* `processFrom_of_ne` and `newTransaction_of_mem` — a transaction meets the registers at its
  address and no others;
* `cfgValue_of_mem` — what `GetLockMask` finds at the address of a register.
-/

namespace CocoIbex

/-- The classes of the registers. -/
inductive RegisterClass where
  | base
  | pmpCfg
  | pmpAddr
  | nonImp
  | warl (registerMask registerValueReset : BitVec 32)
  deriving DecidableEq, Repr

/-- A register. -/
structure BaseRegister where
  registerAddress : BitVec 12
  registerClass : RegisterClass
  registerValue : BitVec 32
  deriving DecidableEq, Repr

/-- A transaction of the register driver. -/
structure RegisterTransaction where
  csrOp : CsrOp
  csrAddr : BitVec 12
  csrWdata : BitVec 32
  deriving DecidableEq, Repr

namespace BaseRegister

variable (r : BaseRegister) (mapPointer : List BaseRegister)

/-- `MatchAddr`. -/
def matchAddr (addr : BitVec 12) : Bool := addr == r.registerAddress

/-- `RegisterRead`. -/
def registerRead : BitVec 32 :=
  match r.registerClass with
  | .nonImp => 0#32
  | _ => r.registerValue

/-- `RegisterReset`. -/
def registerReset : BaseRegister :=
  match r.registerClass with
  | .warl _ registerValueReset => { r with registerValue := registerValueReset }
  | _ => { r with registerValue := 0#32 }

/-! ### Lock masks -/

/-- `GetLockMask` of a `PmpCfgRegister`. -/
def pmpCfgLockMask (v : BitVec 32) : BitVec 32 :=
  (if v &&& 0x80#32 ≠ 0#32 then 0xFF#32 else 0#32)
    ||| (if v &&& 0x8000#32 ≠ 0#32 then 0xFF00#32 else 0#32)
    ||| (if v &&& 0x800000#32 ≠ 0#32 then 0xFF0000#32 else 0#32)
    ||| (if v &&& 0x80000000#32 ≠ 0#32 then 0xFF000000#32 else 0#32)

/-- The value of the last register at `addr`, or zero. -/
def cfgValue (addr : BitVec 12) : BitVec 32 :=
  mapPointer.foldl (fun v r => if r.matchAddr addr then r.registerRead else v) 0#32

/-- `GetLockMask` of a `PmpAddrRegister`. -/
def pmpAddrLockMask (addr : BitVec 12) : BitVec 32 :=
  let pmpRegion := (addr &&& 0xF#12).toNat
  let pmpCfgAddr := 0x3A0#12 + BitVec.ofNat 12 (pmpRegion / 4)
  let pmpCfgPlus1Addr := 0x3A0#12 + BitVec.ofNat 12 ((pmpRegion + 1) / 4)
  let cfg := cfgValue mapPointer pmpCfgAddr >>> (pmpRegion % 4 * 8)
  let cfgPlus1 := cfgValue mapPointer pmpCfgPlus1Addr >>> ((pmpRegion + 1) % 4 * 8)
  if cfg &&& 0x80#32 ≠ 0#32 ∨ cfgPlus1 &&& 0x18#32 = 0x8#32 then 0xFFFFFFFF#32 else 0#32

/-- `GetLockMask`. -/
def getLockMask : BitVec 32 :=
  match r.registerClass with
  | .base | .nonImp => 0#32
  | .pmpCfg => pmpCfgLockMask r.registerValue
  | .pmpAddr => pmpAddrLockMask mapPointer r.registerAddress
  | .warl registerMask _ => registerMask

/-! ### Operations -/

/-- One round of the reserved check, W = 1 and R = 0. -/
def reservedCheck (v : BitVec 32) (i : ℕ) : BitVec 32 :=
  if v >>> (8 * i) &&& 3#32 = 2#32 then v &&& ~~~(3#32 <<< (8 * i)) else v

/-- `raz_mask_`, then the reserved check of the four regions. -/
def sanitise (v : BitVec 32) : BitVec 32 :=
  (List.range 4).foldl reservedCheck (v &&& 0x9F9F9F9F#32)

/-- The register after an operation that computes `v`. -/
def update (v : BitVec 32) : BaseRegister :=
  match r.registerClass with
  | .nonImp => r
  | .pmpCfg => { r with registerValue := sanitise v }
  | _ => { r with registerValue := v }

/-- `RegisterWrite`. -/
def registerWrite (newval : BitVec 32) : BaseRegister :=
  let lockMask := r.getLockMask mapPointer
  r.update (r.registerValue &&& lockMask ||| newval &&& ~~~lockMask)

/-- `RegisterSet`. -/
def registerSet (newval : BitVec 32) : BaseRegister :=
  let lockMask := r.getLockMask mapPointer
  r.update (r.registerValue ||| newval &&& ~~~lockMask)

/-- `RegisterClear`. -/
def registerClear (newval : BitVec 32) : BaseRegister :=
  let lockMask := r.getLockMask mapPointer
  r.update (r.registerValue &&& (~~~newval ||| lockMask))

/-- `ProcessTransaction` of a register that matches: the register afterwards. The value it
returns is that of `registerRead` before, whatever the operation. -/
def processTransaction (trans : RegisterTransaction) : BaseRegister :=
  match trans.csrOp with
  | .read => r
  | .write => r.registerWrite mapPointer trans.csrWdata
  | .set => r.registerSet mapPointer trans.csrWdata
  | .clear => r.registerClear mapPointer trans.csrWdata

end BaseRegister

namespace RegisterModel

/-! ### The registers -/

variable (P : PerfParams) (n : ℕ)

/-- `mcountinhibit_resval`: unused counters cannot be enabled. -/
def mcountinhibitResval : BitVec 32 := ~~~(1#32 <<< P.mhpmCounterNum - 1#32) <<< 3

/-- `mcountinhibit_mask`: and time cannot be disabled. -/
def mcountinhibitMask : BitVec 32 := mcountinhibitResval P ||| 2#32

/-- The mask of the bits that a counter does not have. -/
def mhpmcounterMask : BitVec 64 :=
  if 64 ≤ P.mhpmCounterWidth then 0#64 else ~~~(1#64 <<< P.mhpmCounterWidth - 1#64)

/-- The class of a word of the counter `i`, or of its event. -/
def counterClass (i : ℕ) (mask resval : BitVec 32) : RegisterClass :=
  if i < P.mhpmCounterNum + 3 then .warl mask resval else .nonImp

/-- The addresses and classes of the registers, in the order of the constructor. -/
def registerMap : List (BitVec 12 × RegisterClass) :=
  (List.range 4).map (fun i => (0x3A0#12 + BitVec.ofNat 12 i,
      if P.pmpEnable ∧ i < n / 4 then .pmpCfg else .nonImp))
    ++ (List.range 16).map (fun i => (0x3B0#12 + BitVec.ofNat 12 i,
      if P.pmpEnable ∧ i < n then .pmpAddr else .nonImp))
    ++ [(0x320#12, .warl (mcountinhibitMask P) (mcountinhibitResval P))]
    ++ (List.range' 3 29).map (fun i => (0x320#12 + BitVec.ofNat 12 i,
      counterClass P i 0xFFFFFFFF#32 (1#32 <<< i)))
    ++ [(0xB00#12, .base), (0xB02#12, .base)]
    ++ (List.range' 3 29).map (fun i => (0xB00#12 + BitVec.ofNat 12 i,
      counterClass P i ((mhpmcounterMask P).extractLsb' 0 32) 0#32))
    ++ [(0xB80#12, .base), (0xB82#12, .base)]
    ++ (List.range' 3 29).map (fun i => (0xB80#12 + BitVec.ofNat 12 i,
      counterClass P i ((mhpmcounterMask P).extractLsb' 32 32) 0#32))

/-- The model after construction and `RegisterReset`. -/
def reset : List BaseRegister :=
  (registerMap P n).map fun r => BaseRegister.registerReset ⟨r.1, r.2, 0#32⟩

/-- The loop of `NewTransaction`, with the registers before and after the iterator. The values
that the matching registers return come with the registers afterwards. -/
def processFrom (trans : RegisterTransaction) (done : List BaseRegister) :
    List BaseRegister → List BaseRegister × List (BitVec 32)
  | [] => (done, [])
  | r :: rest =>
    if r.matchAddr trans.csrAddr then
      let out := processFrom trans (done ++ [r.processTransaction (done ++ r :: rest) trans]) rest
      (out.1, r.registerRead :: out.2)
    else processFrom trans (done ++ [r]) rest

/-- `NewTransaction`. -/
def newTransaction (m : List BaseRegister) (trans : RegisterTransaction) :
    List BaseRegister × List (BitVec 32) :=
  processFrom trans [] m

/-! ### A transaction on the map -/

variable {P n} {trans : RegisterTransaction} {m : List BaseRegister} {r : BaseRegister}

/-- The addresses and classes of a map. -/
def keys (m : List BaseRegister) : List (BitVec 12 × RegisterClass) :=
  m.map fun r => (r.registerAddress, r.registerClass)

/-- Registers at other addresses are passed over. -/
theorem processFrom_of_ne (done : List BaseRegister) {rest : List BaseRegister}
    (h : ∀ r ∈ rest, r.matchAddr trans.csrAddr = false) :
    processFrom trans done rest = (done ++ rest, []) := by
  induction rest generalizing done with
  | nil => simp [processFrom]
  | cons r rest ih =>
      rw [List.forall_mem_cons] at h
      simp [processFrom, h.1, ih (done ++ [r]) h.2]

/-- One register is processed, with the map as it was before the transaction. -/
theorem processFrom_of_match (done : List BaseRegister) {pre post : List BaseRegister}
    (hpre : ∀ r ∈ pre, r.matchAddr trans.csrAddr = false)
    (hr : r.matchAddr trans.csrAddr = true)
    (hpost : ∀ r ∈ post, r.matchAddr trans.csrAddr = false) :
    processFrom trans done (pre ++ r :: post)
      = (done ++ pre ++ r.processTransaction (done ++ pre ++ r :: post) trans :: post,
        [r.registerRead]) := by
  induction pre generalizing done with
  | nil => simp [processFrom, hr, processFrom_of_ne _ hpost]
  | cons q pre ih =>
      rw [List.forall_mem_cons] at hpre
      simp [processFrom, hpre.1, ih (done ++ [q]) hpre.2]

/-- A register and those at other addresses. -/
theorem exists_append_of_mem (hnd : (m.map BaseRegister.registerAddress).Nodup) (hr : r ∈ m) :
    ∃ pre post, m = pre ++ r :: post ∧
      (∀ q ∈ pre, q.matchAddr r.registerAddress = false) ∧
      ∀ q ∈ post, q.matchAddr r.registerAddress = false := by
  obtain ⟨pre, post, rfl⟩ := List.append_of_mem hr
  rw [List.map_append, List.map_cons, List.nodup_middle, List.nodup_cons, List.mem_append,
    not_or] at hnd
  obtain ⟨⟨hpre, hpost⟩, -⟩ := hnd
  refine ⟨pre, post, rfl, ?_, ?_⟩
  · intro q hq
    rw [BaseRegister.matchAddr, beq_eq_false_iff_ne]
    exact fun h => hpre (h ▸ List.mem_map_of_mem hq)
  · intro q hq
    rw [BaseRegister.matchAddr, beq_eq_false_iff_ne]
    exact fun h => hpost (h ▸ List.mem_map_of_mem hq)

/-- The transaction of a register of the map. -/
theorem newTransaction_of_mem (hnd : (m.map BaseRegister.registerAddress).Nodup) (hr : r ∈ m)
    (ha : r.registerAddress = trans.csrAddr) :
    ∃ pre post, m = pre ++ r :: post ∧
      newTransaction m trans
        = (pre ++ r.processTransaction m trans :: post, [r.registerRead]) ∧
      ∀ q ∈ pre ++ post, q.registerAddress ≠ trans.csrAddr := by
  obtain ⟨pre, post, rfl, hpre, hpost⟩ := exists_append_of_mem hnd hr
  rw [ha] at hpre hpost
  refine ⟨pre, post, rfl, ?_, ?_⟩
  · exact processFrom_of_match [] hpre (beq_iff_eq.mpr ha.symm) hpost
  · intro q hq heq
    have hmatch : q.matchAddr trans.csrAddr = false :=
      (List.mem_append.mp hq).elim (hpre q) (hpost q)
    rw [BaseRegister.matchAddr, beq_eq_false_iff_ne] at hmatch
    exact hmatch heq.symm

/-- The value that `GetLockMask` finds at the address of a register. -/
theorem cfgValue_of_mem (hnd : (m.map BaseRegister.registerAddress).Nodup) (hr : r ∈ m) :
    BaseRegister.cfgValue m r.registerAddress = r.registerRead := by
  have hskip : ∀ (l : List BaseRegister) (v : BitVec 32),
      (∀ q ∈ l, q.matchAddr r.registerAddress = false) →
      l.foldl (fun v q => if q.matchAddr r.registerAddress then q.registerRead else v) v = v := by
    intro l
    induction l with
    | nil => intro v _; rfl
    | cons q l ih =>
        intro v h
        rw [List.forall_mem_cons] at h
        rw [List.foldl_cons, h.1, if_neg Bool.false_ne_true]
        exact ih v h.2
  obtain ⟨pre, post, rfl, hpre, hpost⟩ := exists_append_of_mem hnd hr
  have hself : r.matchAddr r.registerAddress = true := beq_self_eq_true _
  rw [BaseRegister.cfgValue, List.foldl_append, List.foldl_cons, hself, if_pos rfl, hskip _ _ hpost]

/-- It finds zero where there is no register. -/
theorem cfgValue_of_not_mem {a : BitVec 12} (h : ∀ q ∈ m, q.registerAddress ≠ a) :
    BaseRegister.cfgValue m a = 0#32 := by
  rw [BaseRegister.cfgValue]
  induction m with
  | nil => rfl
  | cons q m ih =>
      rw [List.forall_mem_cons] at h
      have hq : q.matchAddr a = false := beq_eq_false_iff_ne.mpr h.1.symm
      rw [List.foldl_cons, hq, if_neg Bool.false_ne_true]
      exact ih h.2

end RegisterModel

end CocoIbex
