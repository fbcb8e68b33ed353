import CocoIbex.LoadStoreUnit

/-!
# The Address of a Data Fault

A split access has two transactions, and either can fail, on the bus or in the PMP. The LSU
reports one error for the access, together with the address register that follows its
transactions and stops at a failed one. `FaultLog` keeps the addresses of the transactions on
its own, in the order of the bus, and `addrLastQ_of_fault` says that the address reported is
that of the first transaction that failed.

Whether the register takes an address is decided in each state of the LSU in another way. The
log does not look at the state: it notes the address of a transaction that is granted, takes it
off when it is answered, and keeps the first one that fails, be it by an answer of the bus or by
the verdict of the PMP.

The harts use this module for the trap value of a load or store fault.

## Main results

* `faultInv_next` and `faultInv_reset` — the address register keeps up with the log;
* `answer_first` — with the last answer of an access the first failed transaction is the one at
  the address reported, if there is an error;
* `addrLastQ_of_fault` — so it is in any cycle with an error.
-/

namespace CocoIbex

/-- The transactions of an access. -/
@[ext]
structure FaultLog where
  /-- the addresses of the granted transactions that are not answered, the oldest first -/
  pending : List (BitVec 32)
  /-- the address of the first transaction that failed -/
  first : Option (BitVec 32)
  deriving DecidableEq, Repr

namespace FaultLog

variable (l : FaultLog) (s : Lsu) (x : LsuIn)

/-- No transaction. -/
def empty : FaultLog := ⟨[], none⟩

/-- The log with the answer of the bus. -/
def answer : FaultLog :=
  if x.dataRvalid then
    { pending := l.pending.tail
      first := l.first.or (if x.dataErr then l.pending.head? else none) }
  else l

/-- A request that waits for its grant is given up after the PMP has stopped it. -/
def denied : Bool :=
  (s.lsFsm == .waitGnt || s.lsFsm == .waitGntMis) && s.pmpErrQ && !x.dataGnt

/-- The log after one cycle. -/
def next : FaultLog :=
  let a := l.answer x
  let start := s.lsFsm == .idle && x.lsuReq
  { pending := a.pending ++ if x.dataGnt then [x.adderResultEx] else []
    first :=
      if start then none
      else a.first.or (if denied s x then some x.adderResultEx else none) }

end FaultLog

namespace Lsu

variable {s : Lsu} {x : LsuIn} {l : FaultLog}

/-- The bus and the PMP keep to the protocol, the adder adds four for the second
transaction, and a new access starts after the old one. -/
structure FaultOk (s : Lsu) (l : FaultLog) (x : LsuIn) : Prop where
  gnt : x.dataGnt = true → (s.step x).dataReq = true ∧ x.dataPmpErr = false
  rvalid : x.dataRvalid = true → l.pending ≠ []
  pmpWait : s.lsFsm = .waitGnt ∨ s.lsFsm = .waitGntMis → x.dataPmpErr = s.pmpErrQ
  pmpGranted : s.lsFsm = .waitRvalidMisGntsDone → x.dataPmpErr = false
  incr : s.addrIncr = true → x.adderResultEx = s.addrLastQ + 4#32
  start : s.lsFsm = .idle → x.lsuReq = true → (l.answer x).pending = []

/-- The address register is ahead of the log, or stands at the first failure. -/
def FaultInv (s : Lsu) (l : FaultLog) : Prop :=
  match s.lsFsm with
  | .idle =>
    (s.pmpErrQ = true ∧ l = ⟨[], some s.addrLastQ⟩) ∨
    (s.pmpErrQ = false ∧ (l.pending = [] ∨
      (s.lsuErrQ = true ∧ l.pending.length = 1 ∧ l.first = some s.addrLastQ) ∨
      (s.lsuErrQ = false ∧ l = ⟨[s.addrLastQ], none⟩)))
  | .waitGntMis => s.lsuErrQ = false ∧ l = .empty
  | .waitRvalidMis =>
    (s.pmpErrQ = true ∧ l = ⟨[], some s.addrLastQ⟩) ∨
    (s.pmpErrQ = false ∧ l = ⟨[s.addrLastQ], none⟩)
  | .waitGnt => l = ⟨[], if s.lsuErrQ then some s.addrLastQ else none⟩
  | .waitRvalidMisGntsDone =>
    s.pmpErrQ = false ∧ l = ⟨[s.addrLastQ, s.addrLastQ + 4#32], none⟩

/-- No fault is under way after a reset. -/
theorem faultInv_reset : FaultInv reset .empty := Or.inr ⟨rfl, Or.inl rfl⟩

/-- An access starts. -/
theorem faultInv_start (hok : FaultOk s l x) (hf : s.lsFsm = .idle) (hr : x.lsuReq = true) :
    FaultInv (s.next x) (l.next s x) := by
  have hl := hok.start hf hr
  cases hg : x.dataGnt with
  | false =>
      cases hs : x.splitMisalignedAccess <;>
        simp [FaultInv, next, step, hf, hr, hg, hs, FaultLog.next, hl, FaultLog.empty]
  | true =>
      have hp := (hok.gnt hg).2
      cases hs : x.splitMisalignedAccess <;>
        simp [FaultInv, next, step, hf, hr, hg, hs, hp, FaultLog.next, hl]

/-- The LSU waits for the response to an access, or for the next access. -/
theorem faultInv_idle (hi : FaultInv s l) (hok : FaultOk s l x) (hf : s.lsFsm = .idle)
    (hr : x.lsuReq = false) : FaultInv (s.next x) (l.next s x) := by
  have hg : x.dataGnt = false := by
    cases hg : x.dataGnt with
    | false => rfl
    | true =>
        have := (hok.gnt hg).1
        simp [step_dataReq, hf, hr] at this
  have hempty : l.pending = [] → x.dataRvalid = false := by
    intro hl
    cases hv : x.dataRvalid with
    | false => rfl
    | true => exact absurd hl (hok.rvalid hv)
  simp only [FaultInv, hf] at hi
  have hnext : (s.next x).lsFsm = .idle ∧ (s.next x).pmpErrQ = false ∧
      (s.next x).lsuErrQ = s.lsuErrQ ∧ (s.next x).addrLastQ = s.addrLastQ := by
    simp [next, step, hf, hr]
  have hlog : l.next s x = l.answer x := by
    simp [FaultLog.next, hg, hr, FaultLog.denied, hf]
  rw [hlog, FaultInv, hnext.1]
  refine Or.inr ⟨hnext.2.1, ?_⟩
  rw [hnext.2.2.1, hnext.2.2.2]
  obtain ⟨-, rfl⟩ | ⟨-, hl | ⟨he, hl, hfirst⟩ | ⟨he, rfl⟩⟩ := hi
  · exact Or.inl (by simp [FaultLog.answer, hempty rfl])
  · exact Or.inl (by simp [FaultLog.answer, hempty hl, hl])
  · cases hv : x.dataRvalid with
    | false => exact Or.inr (Or.inl (by simp [FaultLog.answer, hv, he, hl, hfirst]))
    | true =>
        refine Or.inl ?_
        obtain ⟨a, ha⟩ := List.length_eq_one_iff.mp hl
        simp [FaultLog.answer, hv, ha]
  · cases hv : x.dataRvalid with
    | false => exact Or.inr (Or.inr (by simp [FaultLog.answer, hv, he]))
    | true => exact Or.inl (by simp [FaultLog.answer, hv])

/-- The first request waits for its grant. -/
theorem faultInv_waitGntMis (hi : FaultInv s l) (hok : FaultOk s l x)
    (hf : s.lsFsm = .waitGntMis) : FaultInv (s.next x) (l.next s x) := by
  simp only [FaultInv, hf] at hi
  obtain ⟨he, rfl⟩ := hi
  have hv : x.dataRvalid = false := by
    cases hv : x.dataRvalid with
    | false => rfl
    | true => exact absurd rfl (hok.rvalid hv)
  have hpmp := hok.pmpWait (Or.inr hf)
  cases hg : x.dataGnt with
  | true =>
      have hp : s.pmpErrQ = false := hpmp ▸ (hok.gnt hg).2
      simp [FaultInv, next, step, hf, hg, hp, FaultLog.next, FaultLog.answer, hv,
        FaultLog.denied, FaultLog.empty]
  | false =>
      cases hp : s.pmpErrQ <;>
        simp [FaultInv, next, step, hf, hg, hp, he, FaultLog.next, FaultLog.answer, hv,
          FaultLog.denied, FaultLog.empty]

/-- The second request goes out while the first transaction is not answered. -/
theorem faultInv_waitRvalidMis (hi : FaultInv s l) (hok : FaultOk s l x)
    (hf : s.lsFsm = .waitRvalidMis) : FaultInv (s.next x) (l.next s x) := by
  simp only [FaultInv, hf] at hi
  have hincr : x.adderResultEx = s.addrLastQ + 4#32 := hok.incr (by simp [addrIncr, hf])
  obtain ⟨hp, rfl⟩ | ⟨hp, rfl⟩ := hi
  · have hv : x.dataRvalid = false := by
      cases hv : x.dataRvalid with
      | false => rfl
      | true => exact absurd rfl (hok.rvalid hv)
    cases hg : x.dataGnt with
    | false =>
        simp [FaultInv, next, step, hf, hg, hp, FaultLog.next, FaultLog.answer, hv,
          FaultLog.denied]
    | true =>
        have hpmp := (hok.gnt hg).2
        simp [FaultInv, next, step, hf, hg, hp, hpmp, FaultLog.next, FaultLog.answer, hv,
          FaultLog.denied]
  · cases hv : x.dataRvalid <;> cases hg : x.dataGnt with
    | false =>
        cases hd : x.dataErr <;>
          simp [FaultInv, next, step, hf, hg, hp, hd, FaultLog.next, FaultLog.answer, hv,
            FaultLog.denied]
    | true =>
        have hpmp := (hok.gnt hg).2
        cases hd : x.dataErr <;>
          simp [FaultInv, next, step, hf, hg, hp, hd, hpmp, FaultLog.next, FaultLog.answer, hv,
            FaultLog.denied, hincr]

/-- The only or the second request waits for its grant. -/
theorem faultInv_waitGnt (hi : FaultInv s l) (hok : FaultOk s l x) (hf : s.lsFsm = .waitGnt) :
    FaultInv (s.next x) (l.next s x) := by
  simp only [FaultInv, hf] at hi
  subst hi
  have hv : x.dataRvalid = false := by
    cases hv : x.dataRvalid with
    | false => rfl
    | true => exact absurd rfl (hok.rvalid hv)
  have hpmp := hok.pmpWait (Or.inl hf)
  cases hg : x.dataGnt with
  | true =>
      have hp : s.pmpErrQ = false := hpmp ▸ (hok.gnt hg).2
      cases he : s.lsuErrQ <;>
        simp [FaultInv, next, step, hf, hg, hp, he, FaultLog.next, FaultLog.answer, hv,
          FaultLog.denied]
  | false =>
      cases hp : s.pmpErrQ <;> cases he : s.lsuErrQ <;>
        simp [FaultInv, next, step, hf, hg, hp, he, FaultLog.next, FaultLog.answer, hv,
          FaultLog.denied]

/-- Both transactions are granted, and the first is not answered. -/
theorem faultInv_gntsDone (hi : FaultInv s l) (hok : FaultOk s l x)
    (hf : s.lsFsm = .waitRvalidMisGntsDone) : FaultInv (s.next x) (l.next s x) := by
  simp only [FaultInv, hf] at hi
  obtain ⟨hp, rfl⟩ := hi
  have hincr : x.adderResultEx = s.addrLastQ + 4#32 := hok.incr (by simp [addrIncr, hf])
  have hpmp := hok.pmpGranted hf
  have hg : x.dataGnt = false := by
    cases hg : x.dataGnt with
    | false => rfl
    | true =>
        have := (hok.gnt hg).1
        simp [step_dataReq, hf] at this
  cases hv : x.dataRvalid <;> cases hd : x.dataErr <;>
    simp [FaultInv, next, step, hf, hg, hp, hd, hpmp, FaultLog.next, FaultLog.answer, hv,
      FaultLog.denied, hincr]

/-- One cycle keeps the address register with the log. -/
theorem faultInv_next (hi : FaultInv s l) (hok : FaultOk s l x) :
    FaultInv (s.next x) (l.next s x) := by
  cases hf : s.lsFsm with
  | idle =>
      cases hr : x.lsuReq with
      | true => exact faultInv_start hok hf hr
      | false => exact faultInv_idle hi hok hf hr
  | waitGntMis => exact faultInv_waitGntMis hi hok hf
  | waitRvalidMis => exact faultInv_waitRvalidMis hi hok hf
  | waitGnt => exact faultInv_waitGnt hi hok hf
  | waitRvalidMisGntsDone => exact faultInv_gntsDone hi hok hf

/-- With the last response of an access, the first transaction that failed is the one at the
address reported, if there is an error. -/
theorem answer_first (hi : FaultInv s l) (hok : x.dataRvalid = true → l.pending ≠ [])
    (hresp : s.lsuRespValid x = true) :
    (l.answer x).first = if s.dataOrPmpErr x then some s.addrLastQ else none := by
  simp only [lsuRespValid, Bool.and_eq_true, Bool.or_eq_true, beq_iff_eq] at hresp
  obtain ⟨hv, hf⟩ := hresp
  simp only [FaultInv, hf] at hi
  obtain ⟨hp, rfl⟩ | ⟨hp, hl | ⟨he, hl, hfirst⟩ | ⟨he, rfl⟩⟩ := hi
  · have hv' : x.dataRvalid = false := by
      cases hv : x.dataRvalid with
      | false => rfl
      | true => exact absurd rfl (hok hv)
    simp [FaultLog.answer, hv', dataOrPmpErr, hp]
  · have hv' : x.dataRvalid = true := by simpa [hp] using hv
    exact absurd hl (hok hv')
  · simp only [FaultLog.answer, hfirst, dataOrPmpErr, he]
    split_ifs <;> simp_all
  · have hv' : x.dataRvalid = true := by simpa [hp] using hv
    simp [FaultLog.answer, hv', dataOrPmpErr, he, hp]

/-- With an error, the address reported is that of the first transaction that failed. -/
theorem addrLastQ_of_fault (hi : FaultInv s l) (hok : FaultOk s l x)
    (h : s.loadErr x = true ∨ s.storeErr x = true) :
    (l.answer x).first = some s.addrLastQ := by
  have herr : s.dataOrPmpErr x = true ∧ s.lsuRespValid x = true := by
    simp only [loadErr, storeErr, Bool.and_eq_true] at h
    tauto
  rw [answer_first hi hok.rvalid herr.2, herr.1, if_pos rfl]

/-- The last response of an access leaves no transaction. -/
theorem answer_pending (hi : FaultInv s l) (hok : x.dataRvalid = true → l.pending ≠ [])
    (hresp : s.lsuRespValid x = true) :
    (l.answer x).pending = [] := by
  simp only [lsuRespValid, Bool.and_eq_true, Bool.or_eq_true, beq_iff_eq] at hresp
  obtain ⟨hv, hf⟩ := hresp
  simp only [FaultInv, hf] at hi
  obtain ⟨hp, rfl⟩ | ⟨hp, hl | ⟨he, hl, hfirst⟩ | ⟨he, rfl⟩⟩ := hi
  · rw [FaultLog.answer]
    split_ifs <;> rfl
  · have hv' : x.dataRvalid = true := by simpa [hp] using hv
    exact absurd hl (hok hv')
  · have hv' : x.dataRvalid = true := by simpa [hp] using hv
    obtain ⟨a, ha⟩ := List.length_eq_one_iff.mp hl
    simp [FaultLog.answer, hv', ha]
  · have hv' : x.dataRvalid = true := by simpa [hp] using hv
    simp [FaultLog.answer, hv']

end Lsu

end CocoIbex
