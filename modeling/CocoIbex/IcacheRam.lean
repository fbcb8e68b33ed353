import CocoIbex.IcacheHandshake

/-!
# The RAMs of the Cache

The cache over an instruction memory whose words do not change. Whatever is valid in its RAMs is
a line of the memory in which no word has an error, and a lookup that hits brings that line.
With ECC words of the RAMs may lose bits, in every word at most two after it has been written:
where one way alone matches, the tags show no error, so that they are what has been written, and
the line behind the tag shows none either. Where both ways match, the two lines are put together
bit by bit ahead of the check, and two flips in each can add up to another code word (`Apart`).
Ahead of the invalidation that follows the reset the RAMs have anything, so that nothing must be
looked up in the first cycle (`FirstUnlooked`).

Beside the cache stand the indices that have been written since the reset, and the words as they
were written, before any flip; `Near` says that a word of the RAM differs from its code word in
no more than two bits. A word with one or two bits flipped shows an error, by the distance of
the code (`Detects.unflipped`), so a word that shows none is the written one.

## Main results

* `ram_next` — the RAMs stay well formed, and behind the invalidation everything is written;
* `read_next` — what a lookup reads are tags with their lines;
* `hit_eq` — a hit is the memory's.
-/

namespace CocoIbex

open OneHot

/-! ### Lines -/

/-- A line of the memory. -/
def memLine (m : FetchMem) (l : BitVec 29) : BitVec 64 :=
  (m (l ++ 1#1)).rdata ++ (m (l ++ 0#1)).rdata

/-- No word of a line has an error. -/
def LineOk (m : FetchMem) (l : BitVec 29) : Prop := ∀ o : BitVec 1, (m (l ++ o)).bad = false

/-- The words of a line of the memory. -/
theorem beatOf_memLine (m : FetchMem) (l : BitVec 29) (o : BitVec 1) :
    beatOf o (memLine m l) = (m (l ++ o)).rdata := by
  obtain rfl | rfl : o = 0#1 ∨ o = 1#1 := by revert o; decide
  · exact BitVec.extractLsb'_append_eq_right
  · exact BitVec.extractLsb'_append_eq_left

/-- A line is its two words. -/
theorem eq_beatOf (d : BitVec 64) : d = beatOf 1#1 d ++ beatOf 0#1 d := by
  have h : (d.extractLsb' 32 32 ++ d.extractLsb' 0 32 : BitVec 64) = d :=
    (BitVec.extractLsb'_append_extractLsb'_eq_extractLsb' rfl).trans BitVec.extractLsb'_eq_self
  exact h.symm

/-- The tag and the index of an address are its line. -/
theorem tagOf_append_indexOf (a : BitVec 32) : tagOf a ++ indexOf a = a.extractLsb' 3 29 :=
  BitVec.extractLsb'_append_extractLsb'_eq_extractLsb' rfl

/-! ### Code words -/

/-- A tag as it is written. -/
def tagCode (p : IcacheParams) (t : BitVec 22) : BitVec 28 :=
  if p.icacheECC then Secded.enc 6 secded2822 t else 0#6 ++ t

/-- A line as it is written. -/
def dataCode (p : IcacheParams) (d : BitVec 64) : BitVec 72 :=
  if p.icacheECC then Secded.enc 8 secded7264 d else 0#8 ++ d

/-- A tag stands in the lower bits of its code word. -/
theorem tagCode_low (p : IcacheParams) (t : BitVec 22) :
    (tagCode p t).extractLsb' 0 22 = t := by
  rw [tagCode]
  split <;> exact BitVec.extractLsb'_append_eq_right

/-- A line stands in the lower bits of its code word. -/
theorem dataCode_low (p : IcacheParams) (d : BitVec 64) :
    (dataCode p d).extractLsb' 0 64 = d := by
  rw [dataCode]
  split <;> exact BitVec.extractLsb'_append_eq_right

/-- A word is as it has been written, but for at most two bits where bits may flip. -/
def Near (flips : Bool) {n : ℕ} (v c : BitVec n) : Prop :=
  if flips then Secded.AtMostTwo (v ^^^ c) else v = c

/-- A word that differs from a code word in at most two bits and shows no error is the code
word. -/
theorem eq_enc_of_err {k r : ℕ} {rows : List (List ℕ)} (h : Secded.Detects k r rows)
    {d : BitVec k} {v : BitVec (r + k)}
    (hf : Secded.AtMostTwo (v ^^^ Secded.enc r rows d)) (he : Secded.err k r rows v = 0#2) :
    v = Secded.enc r rows d := by
  have hv : Secded.enc r rows d ^^^ (v ^^^ Secded.enc r rows d) = v := by
    rw [BitVec.xor_comm v, ← BitVec.xor_assoc, BitVec.xor_self, BitVec.zero_xor]
  have hz := h.unflipped hf (by rw [hv]; exact he)
  rwa [BitVec.xor_eq_zero_iff] at hz

/-! ### The cache over a memory -/

/-- The rules of the bus and the core, where the bus and the PMP answer from the memory: a
response is the word of the oldest outstanding request with its error, and the verdict on a
request is that on its word. -/
structure IcacheSys.AnswersOk (p : IcacheParams) (m : FetchMem) (s : IcacheSys) (x : IcacheIn) :
    Prop where
  sys : s.EnvOk p x
  answer : x.instrRvalid = true → ∀ r ∈ s.obs.pending.head?,
    x.instrErr = (m (wordOfAddr r.2)).err ∧ x.instrRdata = (m (wordOfAddr r.2)).rdata
  pmp : s.ic.instrReq p x = true → x.instrPmpErr = (m (s.ic.instrAddr p x)).pmpErr

/-- The contract of a cycle is a computation, so that it can be evaluated along a run. -/
instance (p : IcacheParams) (m : FetchMem) (s : IcacheSys) (x : IcacheIn) :
    Decidable (s.AnswersOk p m x) :=
  -- the one request at hand is looked at, not all there could be
  haveI : Decidable (∀ r ∈ s.obs.pending.head?,
      x.instrErr = (m (wordOfAddr r.2)).err ∧ x.instrRdata = (m (wordOfAddr r.2)).rdata) :=
    Option.decidableForallMem _
  decidable_of_iff (s.EnvOk p x ∧ (x.instrRvalid = true → ∀ r ∈ s.obs.pending.head?,
      x.instrErr = (m (wordOfAddr r.2)).err ∧ x.instrRdata = (m (wordOfAddr r.2)).rdata) ∧
      (s.ic.instrReq p x = true → x.instrPmpErr = (m (s.ic.instrAddr p x)).pmpErr))
    ⟨fun ⟨a, b, c⟩ => ⟨a, b, c⟩, fun h => ⟨h.sys, h.answer, h.pmp⟩⟩

/-- The cache with the words that have been written to its RAMs, the target of the last branch
and the number of instructions that have been accepted since. -/
structure IcacheMem where
  sys : IcacheSys
  tagWritten : Fin 2 → BitVec 8 → Option (BitVec 28)
  dataWritten : Fin 2 → BitVec 8 → Option (BitVec 72)
  target : BitVec 31
  accepted : ℕ

namespace IcacheMem

variable (p : IcacheParams) (flips : Bool) (m : FetchMem) (s : IcacheMem) (x : IcacheIn)

/-- The cache itself. -/
abbrev ic : Icache := s.sys.obs.ic

/-- The tag RAM is written at an index. -/
def writesTag (w : Fin 2) (k : BitVec 8) : Bool :=
  s.ic.tagReqIc0 p x && s.ic.tagBanksIc0 p x w && s.ic.tagWriteIc0 p x
    && k == s.ic.tagIndexIc0 p x

/-- The data RAM is written at an index. -/
def writesData (w : Fin 2) (k : BitVec 8) : Bool :=
  s.ic.dataReqIc0 p x && s.ic.tagBanksIc0 p x w && s.ic.tagWriteIc0 p x
    && k == s.ic.tagIndexIc0 p x

/-- One clock cycle. -/
def next : IcacheMem where
  sys := s.sys.next p x
  tagWritten := fun w k =>
    if s.writesTag p x w k then some (s.ic.tagWdataIc0 p x) else s.tagWritten w k
  dataWritten := fun w k =>
    if s.writesData p x w k then some (s.ic.dataWdataIc0 p x) else s.dataWritten w k
  target := if x.branch then x.addr.extractLsb' 1 31 else s.target
  accepted :=
    if x.branch then 0 else if x.ready && s.ic.valid p x then s.accepted + 1 else s.accepted

/-- The rules of the bus and the core; the bus and the PMP answer from the memory, and no word
of the RAMs differs from what has been written there, or in at most two bits. -/
structure EnvOk : Prop extends IcacheSys.AnswersOk p m s.sys x where
  tagFlip : ∀ w k, ∀ c ∈ s.tagWritten w k, Near flips (s.ic.tagMem x w k) c
  dataFlip : ∀ w k, ∀ c ∈ s.dataWritten w k, Near flips (s.ic.dataMem x w k) c

/-- The cache is not looked up in the first cycle after reset: the invalidation of the RAMs begins
with the next one, and until then a lookup may hit what was valid in them before. -/
def FirstUnlooked : Prop := s.ic.resetInval = false → s.ic.lookupActualIc0 p x = false

/-- Where bits flip and both ways match, the OR of the lines that are read is no code word but
that of the line in the memory. -/
def Apart : Prop := flips = true → s.ic.lookupValidIc1 = true →
  (∀ w, s.ic.tagMatchIc1 w = true) → ∀ d, s.ic.hitDataIc1 = Secded.enc 8 secded7264 d →
    d = memLine m (s.ic.lookupAddrIc1 ++ s.ic.lookupIndexIc1)

/-- The cache after its reset; nothing has been written to its RAMs. -/
structure Start : Prop where
  sys : s.sys.Start
  tagWritten : ∀ w k, s.tagWritten w k = none
  dataWritten : ∀ w k, s.dataWritten w k = none

/-- A valid tag has been written with its line. After the first cycle every tag has been
written, or is about to be by the invalidation. -/
structure RamOk : Prop where
  tag : ∀ w k, ∀ c ∈ s.tagWritten w k, ∃ t : BitVec 22, c = tagCode p t ∧
    (t.getLsbD 21 = true → LineOk m (t.extractLsb' 0 21 ++ k) ∧
      s.dataWritten w k = some (dataCode p (memLine m (t.extractLsb' 0 21 ++ k))))
  ahead : s.ic.resetInval = false →
    s.ic.invalProg = false ∧ s.ic.lookupValidIc1 = false
  filled : s.ic.resetInval = true → (∀ w k, s.tagWritten w k ≠ none) ∨
    (s.ic.invalProg = true ∧ s.ic.lookupValidIc1 = false ∧ s.ic.eccCorrectionWrite = false ∧
      ∀ w k, k < s.ic.invalIndex → s.tagWritten w k ≠ none)

/-- What a lookup has read: tags with their lines. -/
def ReadOk : Prop := s.ic.lookupValidIc1 = true →
  (∀ i, s.ic.fillInIc1 i = true →
    (s.ic.fb i).addr.extractLsb' 3 29 = s.ic.lookupAddrIc1 ++ s.ic.lookupIndexIc1) ∧
  ∀ w, ∃ t : BitVec 22, Near flips (s.ic.tagRdataIc1 w) (tagCode p t) ∧
    (t.getLsbD 21 = true → LineOk m (t.extractLsb' 0 21 ++ s.ic.lookupIndexIc1) ∧
      Near flips (s.ic.dataRdataIc1 w)
        (dataCode p (memLine m (t.extractLsb' 0 21 ++ s.ic.lookupIndexIc1))))

/-- What a fill buffer has is the memory's: the words that have been answered with their
errors, and a whole line without an error after a hit. The PMP has let every request pass that
has been granted, and a request that it has stopped is an error of its word. -/
structure FillData (b : FillBuf) : Prop where
  errBad : ∀ o, b.err o = true → (m (b.addr.extractLsb' 3 29 ++ o)).bad = true
  hit : b.hit = true → LineOk m (b.addr.extractLsb' 3 29) ∧
    ∀ o, beatOf o b.data = (m (b.addr.extractLsb' 3 29 ++ o)).rdata
  asked : ∀ k < b.extCnt.toNat, (m (b.addr.extractLsb' 3 29 ++ b.beatOff k)).pmpErr = false
  stopped : b.extCnt.toNat < 2 → b.err (b.beatOff b.extCnt.toNat) = true →
    (m (b.addr.extractLsb' 3 29 ++ b.beatOff b.extCnt.toNat)).pmpErr = true
  got : ∀ k < b.rvdCnt.toNat,
    beatOf (b.beatOff k) b.data = (m (b.addr.extractLsb' 3 29 ++ b.beatOff k)).rdata ∧
    b.err (b.beatOff k) = (m (b.addr.extractLsb' 3 29 ++ b.beatOff k)).err

/-- What waits in the skid buffer is the half word at the output address. -/
structure SkidOk : Prop where
  data : s.ic.skidData = m.half s.ic.outputAddr
  err : s.ic.skidErr = false
  good : (m (wordOf s.ic.outputAddr)).bad = false

/-- While no error has been accepted since the branch, the output is where the parse of the
memory has arrived. -/
structure InStep : Prop where
  outOfStep : s.sys.outOfStep = false
  skid : s.ic.skidValid = true → SkidOk m s
  parsed : s.sys.branched = true → s.ic.outputAddr = m.parseStep^[s.accepted] s.target

/-- The invariant. -/
structure Inv : Prop where
  sys : s.sys.Inv
  ram : RamOk p m s
  read : ReadOk p flips m s
  data : ∀ i, s.ic.busy i = true → FillData m (s.ic.fb i)
  step : s.sys.failed = false → InStep m s

variable {p flips m s x} {i : Fin 4}

/-! ### A hit -/

/-- A tag that matches and shows no error is that of the line. -/
theorem tag_of_match (hecc : flips = true → p.icacheECC = true) {w : Fin 2} {t : BitVec 22}
    (hf : Near flips (s.ic.tagRdataIc1 w) (tagCode p t))
    (he : flips = true → s.ic.tagErrIc1 w = false) (hm : s.ic.tagMatchIc1 w = true) :
    t.getLsbD 21 = true ∧ t.extractLsb' 0 21 = s.ic.lookupAddrIc1 := by
  have hr : s.ic.tagRdataIc1 w = tagCode p t := by
    cases hfl : flips with
    | false =>
        rw [hfl, Near, if_neg Bool.false_ne_true] at hf
        exact hf
    | true =>
        rw [hfl, Near, if_pos rfl, tagCode, hecc hfl, if_pos rfl] at hf
        have herr : Secded.err 22 6 secded2822 (s.ic.tagRdataIc1 w) = 0#2 := by
          simpa [Icache.tagErrIc1] using he hfl
        rw [tagCode, hecc hfl, if_pos rfl]
        exact eq_enc_of_err detects_secded2822 hf herr
  rw [Icache.tagMatchIc1, hr, tagCode_low, beq_iff_eq] at hm
  rw [hm]
  exact ⟨by rw [BitVec.getLsbD_append]; rfl, BitVec.extractLsb'_append_eq_right⟩

/-- **A hit is the memory's.** -/
theorem hit_eq (hecc : flips = true → p.icacheECC = true) (hr : ReadOk p flips m s)
    (hap : Apart flips m s) (hv : s.ic.lookupValidIc1 = true) (hh : s.ic.tagHitIc1 = true)
    (he : s.ic.eccErrIc1 p = false) :
    LineOk m (s.ic.lookupAddrIc1 ++ s.ic.lookupIndexIc1) ∧
    s.ic.hitDataIc1.extractLsb' 0 64
      = memLine m (s.ic.lookupAddrIc1 ++ s.ic.lookupIndexIc1) := by
  have hgood : flips = true → s.ic.dataErrIc1 = false ∧ ∀ w, s.ic.tagErrIc1 w = false := by
    intro hfl
    simpa only [Icache.eccErrIc1, hecc hfl, hv, Bool.true_and, Bool.or_eq_false_iff,
      anyOf_eq_false] using he
  -- a way that matches has been written with the line
  have hway : ∀ w, s.ic.tagMatchIc1 w = true →
      LineOk m (s.ic.lookupAddrIc1 ++ s.ic.lookupIndexIc1) ∧ Near flips (s.ic.dataRdataIc1 w)
        (dataCode p (memLine m (s.ic.lookupAddrIc1 ++ s.ic.lookupIndexIc1))) := by
    intro w hw
    obtain ⟨t, hft, hfd⟩ := (hr hv).2 w
    obtain ⟨hvalid, htag⟩ := tag_of_match hecc hft (fun hfl => (hgood hfl).2 w) hw
    rw [← htag]
    exact hfd hvalid
  obtain ⟨w, hw⟩ := anyOf_iff.mp hh
  refine ⟨(hway w hw).1, ?_⟩
  cases hfl : flips with
  | false =>
      have hall : s.ic.hitDataIc1
          = dataCode p (memLine m (s.ic.lookupAddrIc1 ++ s.ic.lookupIndexIc1)) := by
        refine orOf_eq (fun v hv => ?_) ⟨w, hw⟩
        have hn := (hway v hv).2
        rw [hfl, Near, if_neg Bool.false_ne_true] at hn
        exact hn
      rw [hall, dataCode_low]
  | true =>
      have hderr : Secded.err 64 8 secded7264 s.ic.hitDataIc1 = 0#2 := by
        simpa [Icache.dataErrIc1] using (hgood hfl).1
      have hcode := detects_secded7264.eq_enc (Secded.err_eq_zero_iff.mp hderr)
      by_cases hboth : ∀ u, s.ic.tagMatchIc1 u = true
      · exact hap hfl hv hboth _ hcode
      · have hone : ∀ v, s.ic.tagMatchIc1 v = true → v = w := by
          intro v hm
          by_contra hne
          refine hboth fun u => ?_
          obtain rfl | rfl : u = v ∨ u = w := by omega
          · exact hm
          · exact hw
        have hdata : s.ic.hitDataIc1 = s.ic.dataRdataIc1 w := orOf_of_unique hw hone
        have hn := (hway w hw).2
        rw [hfl, Near, if_pos rfl, dataCode, hecc hfl, if_pos rfl] at hn
        rw [hdata] at hderr ⊢
        rw [eq_enc_of_err detects_secded7264 hn hderr]
        exact BitVec.extractLsb'_append_eq_right

/-- A hit of a buffer is the memory's line. -/
theorem hit_of_fillHitIc1 (hecc : flips = true → p.icacheECC = true) (hr : ReadOk p flips m s)
    (hap : Apart flips m s) (hh : s.ic.fillHitIc1 i = true) (he : s.ic.eccErrIc1 p = false) :
    LineOk m ((s.ic.fb i).addr.extractLsb' 3 29) ∧
    ∀ o, beatOf o (s.ic.hitDataIc1.extractLsb' 0 64)
      = (m ((s.ic.fb i).addr.extractLsb' 3 29 ++ o)).rdata := by
  simp only [Icache.fillHitIc1, Bool.and_eq_true] at hh
  obtain ⟨hok, hdata⟩ := hit_eq hecc hr hap hh.1.1 hh.2 he
  rw [(hr hh.1.1).1 i hh.1.2]
  exact ⟨hok, fun o => by rw [hdata, beatOf_memLine]⟩

/-! ### The RAMs -/

/-- A line is written only with its tag. -/
theorem writesTag_of_writesData {w : Fin 2} {k : BitVec 8} (h : s.writesData p x w k = true) :
    s.writesTag p x w k = true := by
  simp only [writesData, writesTag, Icache.dataReqIc0, Icache.tagReqIc0, Bool.and_eq_true,
    Bool.or_eq_true] at h ⊢
  obtain ⟨⟨⟨h | h, hb⟩, hw⟩, hk⟩ := h
  · exact ⟨⟨⟨Or.inl (Or.inl (Or.inl h)), hb⟩, hw⟩, hk⟩
  · exact ⟨⟨⟨Or.inl (Or.inl (Or.inr h)), hb⟩, hw⟩, hk⟩

/-- Where the RAMs are not written, what has been written there stays. -/
theorem written_of_not_write (h : s.ic.tagWriteIc0 p x = false) :
    (s.next p x).tagWritten = s.tagWritten ∧ (s.next p x).dataWritten = s.dataWritten := by
  constructor <;> funext w k
  · simp [next, writesTag, h]
  · simp [next, writesData, h]

/-- The buffer whose line is written. -/
theorem fillRam_of_grant (hi : s.sys.Inv) (hg : s.ic.fillGrantIc0 p x = true) :
    ∃ i, s.ic.busy i = true ∧ (s.ic.fb i).ramReq = true ∧
      s.ic.fillRamReqAddr p x = (s.ic.fb i).addr ∧
      s.ic.fillRamReqData p x = (s.ic.fb i).data := by
  have hreq : ∀ i, (s.ic.fb i).ramReq = true → s.ic.busy i = true := by
    intro i h
    simp only [FillBuf.ramReq, Bool.and_eq_true] at h
    exact h.1.1.1.1.1
  have hany : s.ic.fillReqIc0 = true := by
    simp only [Icache.fillGrantIc0, Bool.and_eq_true] at hg
    exact hg.1.1.1
  obtain ⟨i, ha⟩ := hi.route.aged.exists_arb hreq (anyOf_iff.mp hany)
  have harb : ∀ j, s.ic.fillRamArb p x j = true ↔ j = i := by
    intro j
    rw [Icache.fillRamArb, hg, Bool.true_and]
    constructor
    · exact fun h => hi.route.aged.arb_unique hreq ha h
    · rintro rfl
      exact ha
  have hri : (s.ic.fb i).ramReq = true := by
    rw [arb, Bool.and_eq_true] at ha
    exact ha.1
  exact ⟨i, hreq i hri, hri, orOf_of_unique ((harb i).mpr rfl) fun j hj => (harb j).mp hj,
    orOf_of_unique ((harb i).mpr rfl) fun j hj => (harb j).mp hj⟩

/-- A line with all its words is the memory's. -/
theorem data_of_ramReq (hs : s.sys.Inv) (hd : FillData m (s.ic.fb i))
    (hr : (s.ic.fb i).ramReq = true) : LineOk m ((s.ic.fb i).addr.extractLsb' 3 29) ∧
      (s.ic.fb i).data = memLine m ((s.ic.fb i).addr.extractLsb' 3 29) := by
  have hle : (s.ic.fb i).rvdCnt.toNat ≤ (s.ic.fb i).extCnt.toNat := (hs.route.counts i).rvd_le
  have hext : (s.ic.fb i).extCnt.toNat ≤ 2 := (hs.route.counts i).ext_le
  simp only [FillBuf.ramReq, Bool.and_eq_true, Bool.not_eq_true', FillBuf.anyErr,
    Bool.or_eq_false_iff] at hr
  obtain ⟨⟨⟨⟨⟨-, hbit⟩, -⟩, -⟩, herr0, herr1⟩, -⟩ := hr
  have hcnt : (s.ic.fb i).rvdCnt.toNat = 2 := by
    rwa [cnt_bit (hle.trans hext), decide_eq_true_eq] at hbit
  have hnone : ∀ o, (s.ic.fb i).err o = false := by
    intro o
    obtain rfl | rfl : o = 0#1 ∨ o = 1#1 := by revert o; decide
    · exact herr0
    · exact herr1
  have hbeat : ∀ o : BitVec 1, ∃ k < 2, o = (s.ic.fb i).beatOff k := by
    intro o
    have hf : (s.ic.fb i).firstOff.toNat < 2 := (s.ic.fb i).firstOff.isLt
    have ho : o.toNat < 2 := o.isLt
    refine ⟨((s.ic.fb i).firstOff.toNat + o.toNat) % 2, Nat.mod_lt _ (by omega), ?_⟩
    apply BitVec.eq_of_toNat_eq
    rw [FillBuf.toNat_beatOff]
    omega
  have hall : ∀ o, beatOf o (s.ic.fb i).data
      = (m ((s.ic.fb i).addr.extractLsb' 3 29 ++ o)).rdata := by
    intro o
    obtain ⟨k, hk, rfl⟩ := hbeat o
    exact (hd.got k (by omega)).1
  refine ⟨fun o => ?_, ?_⟩
  · obtain ⟨k, hk, rfl⟩ := hbeat o
    rw [FetchWord.bad, hd.asked k (by omega), ← (hd.got k (by omega)).2, hnone]
    rfl
  · rw [eq_beatOf (s.ic.fb i).data, hall, hall]
    rfl

/-- What is written to the tag RAM, and its line. -/
theorem tag_next (hs : s.sys.Inv) (hr : RamOk p m s)
    (hd : ∀ i, s.ic.busy i = true → FillData m (s.ic.fb i)) (w : Fin 2) (k : BitVec 8) :
    ∀ c ∈ (s.next p x).tagWritten w k, ∃ t : BitVec 22, c = tagCode p t ∧
      (t.getLsbD 21 = true → LineOk m (t.extractLsb' 0 21 ++ k) ∧ (s.next p x).dataWritten w k
        = some (dataCode p (memLine m (t.extractLsb' 0 21 ++ k)))) := by
  intro c hc
  simp only [next, Option.mem_def] at hc ⊢
  cases hw : s.writesTag p x w k with
  | false =>
      have hwd : s.writesData p x w k = false := by
        by_contra hne
        rw [writesTag_of_writesData ((Bool.not_eq_false _).mp hne)] at hw
        cases hw
      rw [hw, if_neg Bool.false_ne_true] at hc
      rw [hwd, if_neg Bool.false_ne_true]
      exact hr.tag w k c hc
  | true =>
      rw [hw, if_pos rfl, Option.some.injEq] at hc
      refine ⟨s.ic.fillTagIc0 p x, by rw [← hc]; rfl, fun hv => ?_⟩
      have hvalid : s.ic.invalProg = false ∧ s.ic.eccWriteReq p = false := by
        rw [Icache.fillTagIc0, BitVec.getLsbD_append] at hv
        simpa using hv
      simp only [writesTag, Bool.and_eq_true, beq_iff_eq] at hw
      obtain ⟨⟨⟨-, hbank⟩, hwrite⟩, hk⟩ := hw
      have hg : s.ic.fillGrantIc0 p x = true := by
        simpa [Icache.tagWriteIc0, hvalid] using hwrite
      have hreq : s.ic.fillReqIc0 = true := by
        simp only [Icache.fillGrantIc0, Bool.and_eq_true] at hg
        exact hg.1.1.1
      obtain ⟨i, hb, hri, haddr, hdata⟩ := fillRam_of_grant hs hg
      have hidx : s.ic.tagIndexIc0 p x = indexOf (s.ic.fb i).addr := by
        rw [Icache.tagIndexIc0, hvalid.1, hvalid.2, hg, haddr]
        rfl
      have hwd : s.writesData p x w k = true := by
        simp [writesData, Icache.dataReqIc0, hreq, hbank, hwrite, hk]
      have htag : (s.ic.fillTagIc0 p x).extractLsb' 0 21 = tagOf (s.ic.fb i).addr := by
        rw [Icache.fillTagIc0, haddr]
        exact BitVec.extractLsb'_append_eq_right
      obtain ⟨hok, hline⟩ := data_of_ramReq hs (hd i hb) hri
      rw [hwd, if_pos rfl, htag, hk, hidx, tagOf_append_indexOf]
      refine ⟨hok, ?_⟩
      rw [← hline, ← hdata]
      rfl

/-- What has been written once has been written. -/
theorem tagWritten_next {w : Fin 2} {k : BitVec 8} (h : s.tagWritten w k ≠ none) :
    (s.next p x).tagWritten w k ≠ none := by
  simp only [next]
  cases s.writesTag p x w k with
  | false => exact h
  | true => exact Option.some_ne_none _

/-- The invalidation writes the tag of both ways. -/
theorem tagWritten_of_prog (hp : s.ic.invalProg = true) (hecc : s.ic.eccCorrectionWrite = false)
    (hsome : ∀ w k, k < s.ic.invalIndex → s.tagWritten w k ≠ none) (w : Fin 2)
    {k : BitVec 8} (hk : k.toNat ≤ s.ic.invalIndex.toNat) :
    (s.next p x).tagWritten w k ≠ none := by
  obtain hlt | heq := Nat.lt_or_eq_of_le hk
  · exact tagWritten_next (hsome w k hlt)
  · have hk' : k = s.ic.invalIndex := BitVec.eq_of_toNat_eq heq
    have hw : s.writesTag p x w k = true := by
      simp [writesTag, Icache.tagReqIc0, Icache.tagBanksIc0, Icache.tagWriteIc0,
        Icache.tagIndexIc0, Icache.fillGrantIc0, Icache.eccWriteReq, hp, hecc, hk']
    simp only [next, hw, if_true]
    exact Option.some_ne_none _

/-- The first invalidation starts at once. -/
theorem filled_of_ahead (hd : s.ic.resetInval = false) (hp : s.ic.invalProg = false)
    (hv : s.ic.lookupValidIc1 = false) (hfst : FirstUnlooked p s x) :
    (s.ic.next p x).invalProg = true ∧ (s.ic.next p x).lookupValidIc1 = false ∧
      (s.ic.next p x).eccCorrectionWrite = false ∧
      ∀ w k, k < (s.ic.next p x).invalIndex → (s.next p x).tagWritten w k ≠ none := by
  have hst : s.ic.invalProgD x = true := by
    simp [Icache.invalProgD, Icache.startInval, hd, hp]
  have hidx : (s.ic.next p x).invalIndex = 0#8 := by
    simp [Icache.next, hst, Icache.invalIndexD, Icache.startInval, hd, hp]
  refine ⟨hst, hfst hd, ?_, fun w k hk => ?_⟩
  · change s.ic.eccErrIc1 p = false
    rw [Icache.eccErrIc1, hv, Bool.and_false, Bool.false_and]
  · rw [hidx, BitVec.lt_def] at hk
    exact absurd hk (Nat.not_lt_zero _)

/-- The RAMs stay well formed. While the invalidation goes on, the indices behind it have been
written. -/
theorem ram_next (hs : s.sys.Inv) (hr : RamOk p m s)
    (hd : ∀ i, s.ic.busy i = true → FillData m (s.ic.fb i)) (hfst : FirstUnlooked p s x) :
    RamOk p m (s.next p x) := by
  refine ⟨tag_next hs hr hd, fun h => ?_, fun _ => ?_⟩
  · have ht : (s.next p x).ic.resetInval = true := rfl
    rw [ht] at h
    cases h
  · cases hd : s.ic.resetInval with
    | false =>
        obtain ⟨hp, hv⟩ := hr.ahead hd
        exact Or.inr (filled_of_ahead hd hp hv hfst)
    | true =>
        obtain hall | ⟨hp, hv, hecc, hsome⟩ := hr.filled hd
        · exact Or.inl fun w k => tagWritten_next (hall w k)
        · have hst : s.ic.startInval x = false := by simp [Icache.startInval, hp]
          cases hlast : s.ic.invalIndex != 255#8 with
          | false =>
              rw [bne_eq_false_iff_eq] at hlast
              refine Or.inl fun w k => tagWritten_of_prog hp hecc hsome w ?_
              rw [hlast]
              exact Nat.le_of_lt_succ k.isLt
          | true =>
              have hprog : s.ic.invalProgD x = true := by
                rw [Icache.invalProgD, hp, hlast, Bool.true_and, Bool.or_true]
              have hidx : (s.ic.next p x).invalIndex = s.ic.invalIndex + 1#8 := by
                simp [Icache.next, hprog, Icache.invalIndexD, hst]
              refine Or.inr ⟨hprog, ?_, ?_, fun w k hk => ?_⟩
              · change s.ic.lookupActualIc0 p x = false
                simp [Icache.lookupActualIc0, hp]
              · change s.ic.eccErrIc1 p = false
                rw [Icache.eccErrIc1, hv, Bool.and_false, Bool.false_and]
              · refine tagWritten_of_prog hp hecc hsome w ?_
                have hk' : k < (s.ic.next p x).invalIndex := hk
                rw [hidx, BitVec.lt_def, BitVec.toNat_add] at hk'
                simp only [BitVec.toNat_ofNat] at hk'
                omega

/-! ### What is read -/

/-- What a lookup reads are tags with their lines: behind the first cycle it finds nothing that
has not been written. -/
theorem read_next (hr : RamOk p m s) (hok : EnvOk p flips m s x) (hfst : FirstUnlooked p s x) :
    ReadOk p flips m (s.next p x) := by
  intro hv
  change s.ic.lookupActualIc0 p x = true at hv
  have hd : s.ic.resetInval = true := by
    by_contra hne
    rw [hfst ((Bool.not_eq_true _).mp hne)] at hv
    cases hv
  simp only [Icache.lookupActualIc0, Bool.and_eq_true, Bool.not_eq_true'] at hv
  obtain ⟨⟨hl, -⟩, hp⟩ := hv
  have hall : ∀ w k, s.tagWritten w k ≠ none := by
    obtain hall | ⟨hp', -⟩ := hr.filled hd
    · exact hall
    · rw [hp] at hp'
      cases hp'
  have hecc : s.ic.eccWriteReq p = false := by
    simp only [Icache.lookupGrantIc0, Bool.and_eq_true, Bool.not_eq_true'] at hl
    exact hl.2
  have hfill : s.ic.fillGrantIc0 p x = false := by simp [Icache.fillGrantIc0, hl]
  have hidx : s.ic.tagIndexIc0 p x = indexOf (s.ic.lookupAddrIc0 x) := by
    rw [Icache.tagIndexIc0, hp, hecc, hfill]
    rfl
  have hline : (s.ic.next p x).lookupAddrIc1 = tagOf (s.ic.lookupAddrIc0 x) ∧
      (s.ic.next p x).lookupIndexIc1 = indexOf (s.ic.lookupAddrIc0 x) := by
    constructor <;> simp [Icache.next, hl]
  refine ⟨fun i hin => ?_, fun w => ?_⟩
  · have ha : s.ic.fillAlloc p x i = true := by
      have hin' : (s.ic.next p x).fillInIc1 i = true := hin
      simp only [Icache.next, hl, if_true] at hin'
      rw [Icache.fillAlloc, hin', hl]
      rfl
    obtain ⟨-, -, -, -, -, haddr, -⟩ := Icache.fillNext_of_alloc ha
    change (s.ic.fillNext p x i).addr.extractLsb' 3 29
      = (s.ic.next p x).lookupAddrIc1 ++ (s.ic.next p x).lookupIndexIc1
    rw [haddr, hline.1, hline.2, tagOf_append_indexOf]
  · obtain ⟨c, hc⟩ := Option.ne_none_iff_exists'.mp (hall w (indexOf (s.ic.lookupAddrIc0 x)))
    obtain ⟨t, rfl, ht⟩ := hr.tag w _ c hc
    have htag : (s.ic.next p x).tagRdataIc1 w
        = s.ic.tagMem x w (indexOf (s.ic.lookupAddrIc0 x)) := by
      simp [Icache.next, Icache.tagReqIc0, Icache.tagBanksIc0, Icache.tagWriteIc0, hl, hfill, hp,
        hecc, hidx]
    have hdata : (s.ic.next p x).dataRdataIc1 w
        = s.ic.dataMem x w (indexOf (s.ic.lookupAddrIc0 x)) := by
      simp [Icache.next, Icache.dataReqIc0, Icache.tagBanksIc0, Icache.tagWriteIc0, hl, hfill, hp,
        hecc, hidx]
    refine ⟨t, ?_, fun hv => ?_⟩
    · change Near flips ((s.ic.next p x).tagRdataIc1 w) (tagCode p t)
      rw [htag]
      exact hok.tagFlip w _ _ hc
    · change LineOk m (t.extractLsb' 0 21 ++ (s.ic.next p x).lookupIndexIc1) ∧
        Near flips ((s.ic.next p x).dataRdataIc1 w)
          (dataCode p (memLine m (t.extractLsb' 0 21 ++ (s.ic.next p x).lookupIndexIc1)))
      rw [hdata, hline.2]
      exact ⟨(ht hv).1, hok.dataFlip w _ _ (ht hv).2⟩

end IcacheMem

end CocoIbex
