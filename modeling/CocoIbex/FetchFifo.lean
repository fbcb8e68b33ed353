import CocoIbex.FetchStream

/-!
# The Fetch FIFO

`ibex_fetch_fifo`: three words behind a bypass, and an aligner that takes the instructions out
of them. The loop over the entries is written out. The FIFO keeps a list of words (`contents`),
of which a word that comes in is the next one; the aligner shows the instruction at the head of
the list.

The entries are valid from the first one on (`WF`), which the circuit keeps by shifting all
entries when one is taken. With it the valid bits are a length, and the bypass is the case of an
empty list. An instruction that begins in the upper half of a word takes its second half from
the next word, if it is not compressed; the aligner waits for that word and reports its error,
with the flag that tells that it is the second one (`errPlus2`).

## Main results

* `wf_next` — the entries stay one behind the other;
* `contents_next` — a word goes in at the end, and the used one is taken off;
* `delivers_of_outValid` — what is shown as valid is the instruction in the memory that the
  words are from;
* `instrAddrQ_next` — the address goes on by the length of what is accepted.
-/

namespace CocoIbex

/-- The registers of the FIFO. `instrAddrQ` is the half-word address of the instruction at
the output. -/
structure FetchFifo where
  valid0 : Bool
  valid1 : Bool
  valid2 : Bool
  entry0 : FetchEntry
  entry1 : FetchEntry
  entry2 : FetchEntry
  instrAddrQ : BitVec 31
  deriving DecidableEq

/-- What the FIFO sees in one cycle. -/
structure FifoIn where
  clear : Bool
  inValid : Bool
  inAddr : BitVec 32
  inEntry : FetchEntry
  outReady : Bool

namespace FetchFifo

variable (s : FetchFifo) (x : FifoIn)

/-! ### Outputs -/

/-- `rdata` and `err`, the word at the head or the one that comes in. -/
def head : FetchEntry := if s.valid0 then s.entry0 else x.inEntry

/-- `valid`. -/
def headValid : Bool := s.valid0 || x.inValid

/-- `rdata_unaligned`. -/
def rdataUnaligned : BitVec 32 :=
  if s.valid1 then s.entry1.rdata.extractLsb' 0 16 ++ (s.head x).rdata.extractLsb' 16 16
  else x.inEntry.rdata.extractLsb' 0 16 ++ (s.head x).rdata.extractLsb' 16 16

/-- `unaligned_is_compressed`. -/
def unalignedIsCompressed : Bool := (s.head x).rdata.extractLsb' 16 2 != 0b11#2

/-- `aligned_is_compressed`. -/
def alignedIsCompressed : Bool := (s.head x).rdata.extractLsb' 0 2 != 0b11#2

/-- `err_unaligned`. -/
def errUnaligned : Bool :=
  if s.valid1 then (s.entry1.err && !s.unalignedIsCompressed x) || s.entry0.err
  else (s.valid0 && s.entry0.err)
    || (x.inEntry.err && (!s.valid0 || !s.unalignedIsCompressed x))

/-- `err_plus2`. -/
def errPlus2 : Bool :=
  if s.valid1 then s.entry1.err && !s.entry0.err
  else x.inEntry.err && s.valid0 && !s.entry0.err

/-- `valid_unaligned`. -/
def validUnaligned : Bool := if s.valid1 then true else s.valid0 && x.inValid

/-- `out_valid_o`. -/
def outValid : Bool :=
  if unaligned s.instrAddrQ then
    if s.unalignedIsCompressed x then s.headValid x else s.validUnaligned x
  else s.headValid x

/-- `out_rdata_o`, `out_addr_o`, `out_err_o` and `out_err_plus2_o`. -/
def out : FetchOut where
  rdata := if unaligned s.instrAddrQ then s.rdataUnaligned x else (s.head x).rdata
  addr := s.instrAddrQ ++ 0#1
  err := if unaligned s.instrAddrQ then s.errUnaligned x else (s.head x).err
  errPlus2 := if unaligned s.instrAddrQ then s.errPlus2 x else false

/-- `in_ready_o`: there is room for two more words. -/
def inReady : Bool := !s.valid1

/-! ### The next state -/

/-- `addr_incr_two`. -/
def addrIncrTwo : Bool :=
  if unaligned s.instrAddrQ then s.unalignedIsCompressed x else s.alignedIsCompressed x

/-- `pop_fifo`: the head word is used up. -/
def popFifo : Bool :=
  x.outReady && s.outValid x && (!s.alignedIsCompressed x || unaligned s.instrAddrQ)

/-- One clock edge. -/
def next : FetchFifo :=
  let pop := s.popFifo x
  -- `lowest_free_entry`
  let free0 := !s.valid0
  let free1 := !s.valid1 && s.valid0
  let free2 := !s.valid2 && s.valid1
  -- `valid_pushed`
  let pushed0 := (x.inValid && free0) || s.valid0
  let pushed1 := (x.inValid && free1) || s.valid1
  let pushed2 := s.valid2 || (x.inValid && free2)
  { valid0 := (if pop then pushed1 else pushed0) && !x.clear
    valid1 := (if pop then pushed2 else pushed1) && !x.clear
    valid2 := (if pop then false else pushed2) && !x.clear
    entry0 :=
      if (pushed1 && pop) || (x.inValid && free0 && !pop) then
        if s.valid1 then s.entry1 else x.inEntry
      else s.entry0
    entry1 :=
      if (pushed2 && pop) || (x.inValid && free1 && !pop) then
        if s.valid2 then s.entry2 else x.inEntry
      else s.entry1
    entry2 := if x.inValid && free2 then x.inEntry else s.entry2
    instrAddrQ :=
      if x.clear || (x.outReady && s.outValid x) then
        if x.clear then x.inAddr.extractLsb' 1 31
        else s.instrAddrQ + if s.addrIncrTwo x then 1#31 else 2#31
      else s.instrAddrQ }

/-! ### The list of words -/

/-- The valid entries are the first ones. -/
structure WF : Prop where
  valid0 : s.valid1 = true → s.valid0 = true
  valid1 : s.valid2 = true → s.valid1 = true

/-- The words in the FIFO, the oldest first. -/
def contents : List FetchEntry :=
  if s.valid2 then [s.entry0, s.entry1, s.entry2]
  else if s.valid1 then [s.entry0, s.entry1]
  else if s.valid0 then [s.entry0]
  else []

/-- The words in the FIFO and the one that comes in. -/
def words : List FetchEntry := s.contents ++ if x.inValid then [x.inEntry] else []

variable {s x}

/-- The entries of the FIFO stay one behind the other. -/
theorem wf_next (h : s.WF) : (s.next x).WF := by
  obtain ⟨h0, h1⟩ := h
  constructor
  · intro hv
    simp only [next] at hv ⊢
    cases hp : s.popFifo x <;> cases hx : x.inValid <;> cases h : s.valid0 <;>
      cases h' : s.valid1 <;> cases h'' : s.valid2 <;> simp_all
  · intro hv
    simp only [next] at hv ⊢
    cases hp : s.popFifo x <;> cases hx : x.inValid <;> cases h : s.valid0 <;>
      cases h' : s.valid1 <;> cases h'' : s.valid2 <;> simp_all

/-- **The FIFO is a list.** A word goes in at the end unless the FIFO is full, and the used
word is taken off. -/
theorem contents_next (h : s.WF) (hfull : x.inValid = true → s.valid2 = false) :
    (s.next x).contents
      = if x.clear then [] else (s.words x).drop (if s.popFifo x then 1 else 0) := by
  obtain ⟨h0, h1⟩ := h
  cases hc : x.clear with
  | true => simp [contents, next, hc]
  | false =>
      simp only [contents, words, next, hc]
      cases hp : s.popFifo x <;> cases hx : x.inValid <;> cases h : s.valid0 <;>
        cases h' : s.valid1 <;> cases h'' : s.valid2 <;> simp_all

/-! ### The instruction at the output -/

/-- The word behind the head. -/
def second (s : FetchFifo) (x : FifoIn) : FetchEntry := if s.valid1 then s.entry1 else x.inEntry

/-- The head is the first word of the list. -/
theorem words_of_headValid (h : s.WF) (hv : s.headValid x = true) :
    ∃ l, s.words x = s.head x :: l := by
  obtain ⟨h0, h1⟩ := h
  simp only [headValid] at hv
  simp only [words, contents, head]
  cases hx : x.inValid <;> cases h : s.valid0 <;> cases h' : s.valid1 <;>
    cases h'' : s.valid2 <;> simp_all

/-- With both words of an instruction the second one is next in the list. -/
theorem words_of_validUnaligned (h : s.WF) (hv : s.validUnaligned x = true) :
    ∃ l, s.words x = s.head x :: s.second x :: l := by
  obtain ⟨h0, h1⟩ := h
  simp only [validUnaligned] at hv
  simp only [words, contents, head, second]
  cases hx : x.inValid <;> cases h : s.valid0 <;> cases h' : s.valid1 <;>
    cases h'' : s.valid2 <;> simp_all

/-- A compressed instruction has the error of the head only. -/
theorem errUnaligned_of_compressed (h : s.WF) (hv : s.headValid x = true)
    (hc : s.unalignedIsCompressed x = true) : s.errUnaligned x = (s.head x).err := by
  obtain ⟨h0, -⟩ := h
  simp only [headValid] at hv
  simp only [errUnaligned, head, hc]
  cases hx : x.inValid <;> cases h : s.valid0 <;> cases h' : s.valid1 <;> simp_all

/-- An instruction of two words has the errors of both. -/
theorem errUnaligned_of_uncompressed (h : s.WF) (hv : s.validUnaligned x = true)
    (hc : s.unalignedIsCompressed x = false) :
    s.errUnaligned x = ((s.head x).err || (s.second x).err) := by
  obtain ⟨h0, -⟩ := h
  simp only [validUnaligned] at hv
  simp only [errUnaligned, head, second, hc]
  cases hx : x.inValid <;> cases h : s.valid0 <;> cases h' : s.valid1 <;> simp_all [Bool.or_comm]

/-- `err_plus2` is low where the head has an error. -/
theorem errPlus2_of_head_err (h : s.WF) (he : (s.head x).err = true) : s.errPlus2 x = false := by
  obtain ⟨h0, -⟩ := h
  simp only [head] at he
  simp only [errPlus2]
  cases h : s.valid0 <;> cases h' : s.valid1 <;> simp_all

/-- With both words `err_plus2` is the error of the second alone. -/
theorem errPlus2_of_validUnaligned (h : s.WF) (hv : s.validUnaligned x = true) :
    s.errPlus2 x = (!(s.head x).err && (s.second x).err) := by
  obtain ⟨h0, -⟩ := h
  simp only [validUnaligned] at hv
  simp only [errPlus2, head, second]
  cases h : s.valid0 <;> cases h' : s.valid1 <;> simp_all [Bool.and_comm]

variable {m : FetchMem}

/-- The length that the aligner reads off the head is that in the memory. -/
theorem unalignedIsCompressed_eq (ha : unaligned s.instrAddrQ = true)
    (he : (m (wordOf s.instrAddrQ)).Holds (s.head x))
    (hp : (m (wordOf s.instrAddrQ)).pmpErr = false) :
    s.unalignedIsCompressed x = m.compressed s.instrAddrQ := by
  rw [FetchMem.compressed, FetchMem.half, ha, isCompressedHalf_upper, ← he.rdata hp,
    unalignedIsCompressed]

/-- An aligned instruction is delivered from the head. -/
theorem delivers_of_aligned (h : s.WF) (hw : HoldsFrom m (wordOf s.instrAddrQ) (s.words x))
    (ha : unaligned s.instrAddrQ = false) (hv : s.headValid x = true) :
    Delivers m s.instrAddrQ (s.out x) := by
  obtain ⟨l, hl⟩ := words_of_headValid h hv
  rw [hl] at hw
  have he : (m (wordOf s.instrAddrQ)).Holds (s.head x) := hw.1
  have hcross : m.crosses s.instrAddrQ = false := by simp [FetchMem.crosses, ha]
  constructor
  · rfl
  · simp [out, ha, FetchMem.instrErr, hcross, he.err]
  · simp [out, ha, FetchMem.instrErrPlus2, hcross]
  · intro hp
    simp [out, ha, FetchMem.half, halfOf, he.rdata hp]
  · intro hp _ _
    simp [out, ha, FetchMem.half, halfOf, he.rdata hp, unaligned_add_one,
      wordOf_add_one_of_aligned ha]

/-- The low half word of an unaligned instruction is the upper one of the head. -/
theorem rdataUnaligned_low : (s.rdataUnaligned x).extractLsb' 0 16
    = (s.head x).rdata.extractLsb' 16 16 := by
  simp only [rdataUnaligned]
  split_ifs <;> exact extractLsb'_append_low _ _

/-- Its high half word is the lower one of the second word. -/
theorem rdataUnaligned_high : (s.rdataUnaligned x).extractLsb' 16 16
    = (s.second x).rdata.extractLsb' 0 16 := by
  simp only [rdataUnaligned, second]
  split_ifs <;> exact extractLsb'_append_high _ _

/-- A compressed instruction in the upper half is delivered from the head. -/
theorem delivers_of_compressed (h : s.WF)
    (hw : HoldsFrom m (wordOf s.instrAddrQ) (s.words x))
    (ha : unaligned s.instrAddrQ = true) (hc : s.unalignedIsCompressed x = true)
    (hv : s.headValid x = true) : Delivers m s.instrAddrQ (s.out x) := by
  obtain ⟨l, hl⟩ := words_of_headValid h hv
  rw [hl] at hw
  have he : (m (wordOf s.instrAddrQ)).Holds (s.head x) := hw.1
  have herr : (s.out x).err = (s.head x).err := by
    simp [out, ha, errUnaligned_of_compressed h hv hc]
  have hlen := unalignedIsCompressed_eq ha he
  constructor
  · rfl
  · rw [herr, he.err, FetchMem.instrErr]
    cases hb : (m (wordOf s.instrAddrQ)).bad with
    | true => rfl
    | false =>
        simp only [FetchWord.bad, Bool.or_eq_false_iff] at hb
        simp [FetchMem.crosses, ← hlen hb.2, hc]
  · intro hbad
    have hhead : (s.head x).err = true := herr.symm.trans hbad
    simp [out, ha, errPlus2_of_head_err h hhead, FetchMem.instrErrPlus2, ← he.err, hhead]
  · intro hp
    simp [out, ha, rdataUnaligned_low, he.rdata hp, FetchMem.half, halfOf]
  · intro hp hlong
    rw [← hlen hp, hc] at hlong
    cases hlong

/-- An instruction of two words is delivered from both. -/
theorem delivers_of_uncompressed (h : s.WF)
    (hw : HoldsFrom m (wordOf s.instrAddrQ) (s.words x))
    (ha : unaligned s.instrAddrQ = true) (hc : s.unalignedIsCompressed x = false)
    (hv : s.validUnaligned x = true) : Delivers m s.instrAddrQ (s.out x) := by
  obtain ⟨l, hl⟩ := words_of_validUnaligned h hv
  rw [hl] at hw
  have he : (m (wordOf s.instrAddrQ)).Holds (s.head x) := hw.1
  have he2 : (m (wordOf s.instrAddrQ + 1#30)).Holds (s.second x) := hw.2.1
  have hlen := unalignedIsCompressed_eq ha he
  have hcross : (m (wordOf s.instrAddrQ)).bad = false → m.crosses s.instrAddrQ = true := by
    intro hb
    simp only [FetchWord.bad, Bool.or_eq_false_iff] at hb
    simp [FetchMem.crosses, ha, ← hlen hb.2, hc]
  constructor
  · rfl
  · simp only [out, ha, if_true, errUnaligned_of_uncompressed h hv hc, he.err, he2.err,
      FetchMem.instrErr]
    cases hb : (m (wordOf s.instrAddrQ)).bad <;> simp [hcross, hb]
  · intro _
    simp only [out, ha, if_true, errPlus2_of_validUnaligned h hv, he.err, he2.err,
      FetchMem.instrErrPlus2]
    cases hb : (m (wordOf s.instrAddrQ)).bad <;> simp [hcross, hb]
  · intro hp
    simp [out, ha, rdataUnaligned_low, he.rdata hp, FetchMem.half, halfOf]
  · intro _ _ hp2
    rw [wordOf_add_one_of_unaligned ha] at hp2
    simp [out, ha, rdataUnaligned_high, he2.rdata hp2, FetchMem.half, halfOf, unaligned_add_one,
      wordOf_add_one_of_unaligned ha]

/-- **The aligner.** What the FIFO shows as valid is the instruction in the memory that its
words are from. -/
theorem delivers_of_outValid (h : s.WF)
    (hw : HoldsFrom m (wordOf s.instrAddrQ) (s.words x)) (hv : s.outValid x = true) :
    Delivers m s.instrAddrQ (s.out x) := by
  simp only [outValid] at hv
  cases ha : unaligned s.instrAddrQ with
  | false => exact delivers_of_aligned h hw ha (by simpa [ha] using hv)
  | true =>
      cases hc : s.unalignedIsCompressed x with
      | true => exact delivers_of_compressed h hw ha hc (by simpa [ha, hc] using hv)
      | false => exact delivers_of_uncompressed h hw ha hc (by simpa [ha, hc] using hv)

/-! ### The address -/

/-- The instruction at the output is accepted. -/
def accept (s : FetchFifo) (x : FifoIn) : Bool := x.outReady && s.outValid x

/-- The address goes on by the length of the instruction shown. -/
theorem addrIncrTwo_eq : s.addrIncrTwo x = isCompressedHalf ((s.out x).rdata.extractLsb' 0 16) := by
  cases ha : unaligned s.instrAddrQ with
  | false =>
      have := isCompressedHalf_lower (s.head x).rdata
      simp only [halfOf, Bool.false_eq_true, if_false] at this
      simp only [addrIncrTwo, out, ha, Bool.false_eq_true, if_false, this, alignedIsCompressed]
  | true =>
      have := isCompressedHalf_upper (s.head x).rdata
      simp only [halfOf, if_true] at this
      simp only [addrIncrTwo, out, ha, if_true, rdataUnaligned_low, this, unalignedIsCompressed]

/-- A FIFO that is cleared takes the address of the branch. -/
theorem instrAddrQ_next_of_clear (hc : x.clear = true) :
    (s.next x).instrAddrQ = x.inAddr.extractLsb' 1 31 := by
  simp [next, hc]

/-- Otherwise the address goes on by the length of what is accepted. -/
theorem instrAddrQ_next (hc : x.clear = false) :
    (s.next x).instrAddrQ = if s.accept x then
      s.instrAddrQ + if isCompressedHalf ((s.out x).rdata.extractLsb' 0 16) then 1#31 else 2#31
      else s.instrAddrQ := by
  simp [next, hc, accept, ← addrIncrTwo_eq]

/-- The head word is taken off when the address leaves its word. -/
theorem wordOf_next (hc : x.clear = false) :
    wordOf (s.next x).instrAddrQ
      = if s.popFifo x then wordOf s.instrAddrQ + 1#30 else wordOf s.instrAddrQ := by
  have hnext : (s.next x).instrAddrQ = if x.outReady && s.outValid x then
      s.instrAddrQ + if s.addrIncrTwo x then 1#31 else 2#31 else s.instrAddrQ := by
    simp [next, hc]
  rw [hnext]
  simp only [popFifo, addrIncrTwo]
  obtain hv | hv := Bool.eq_false_or_eq_true (x.outReady && s.outValid x)
  · obtain ha | ha := Bool.eq_false_or_eq_true (unaligned s.instrAddrQ)
    · obtain hc | hc := Bool.eq_false_or_eq_true (s.unalignedIsCompressed x)
      · simp [hv, ha, hc, wordOf_add_one_of_unaligned ha]
      · simp [hv, ha, hc, wordOf_add_two]
    · obtain hc | hc := Bool.eq_false_or_eq_true (s.alignedIsCompressed x)
      · simp [hv, ha, hc, wordOf_add_one_of_aligned ha]
      · simp [hv, ha, hc, wordOf_add_two]
  · simp [hv]

/-- Only a word that is there is taken off. -/
theorem words_ne_nil_of_popFifo (h : s.WF) (hp : s.popFifo x = true) : s.words x ≠ [] := by
  have hv : s.headValid x = true := by
    simp only [popFifo, outValid, Bool.and_eq_true] at hp
    have := hp.1.2
    simp only [headValid]
    split_ifs at this with ha hc
    · exact this
    · simp only [validUnaligned] at this
      split_ifs at this with h1
      · simp [h.valid0 h1]
      · simp_all
    · exact this
  obtain ⟨l, hl⟩ := words_of_headValid h hv
  simp [hl]

end FetchFifo

end CocoIbex
