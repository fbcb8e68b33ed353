import CocoIbex.LoadStoreUnit

/-!
# Loads under Any Bus Timing

A load that the LSU starts from its idle state, over a bus that grants requests and answers them
in order after any delay. The value that the LSU presents with `lsu_rdata_valid` is the
addressed bytes of the memory, with one exception: the bytes of a split load that come from its
first response live in `rdata_q`, which is cleared in every cycle that does not capture. Unless
the second response follows the first at once, they read as zero.

The value of a load is given by its bytes (`Load.value`): the bytes of the memory at the address
and behind it, extended as the load says. The memory is a function from words, as the bus has
it, so a split load takes bytes of two of them. Beside the LSU the run keeps whether the first
response has come and whether its bytes are still there.

The condition is one on the timing of the bus alone, and where the cleared bytes would have been
zero anyway the value is right by chance (`FirstPartZero`).

## Main results

* `lsuRdata_single` and `lsuRdata_split_kept` — the bytes of one word, and of two if the first
  are still there;
* `lsu_load_value_iff` — the exact condition, over every grant and response timing.
-/

namespace CocoIbex

open Machine

/-! ### What a load returns -/

/-- The word at an address, little-endian. -/
def memWord (mem : BitVec 32 → BitVec 8) (a : BitVec 32) : BitVec 32 :=
  mem (a + 3#32) ++ mem (a + 2#32) ++ mem (a + 1#32) ++ mem a

/-- The word-aligned address of an access. -/
def alignedAddr (a : BitVec 32) : BitVec 32 := a.extractLsb 31 2 ++ 0b00#2

/-- A load: its byte address, its size (00 word, 01 half word, else byte) and its sign
mode. -/
structure Load where
  addr : BitVec 32
  type : BitVec 2
  signExt : Bool

namespace Load

/-- The offset of the load in its word. -/
def offset (l : Load) : BitVec 2 := l.addr.extractLsb 1 0

/-- The load is split into two word transactions. -/
def split (l : Load) : Bool :=
  (l.type == 0b00#2 && l.offset != 0b00#2) || (l.type == 0b01#2 && l.offset == 0b11#2)

/-- Extension to a word in the sign mode of the load. -/
def extend {w : ℕ} (l : Load) (x : BitVec w) : BitVec 32 :=
  if l.signExt then x.signExtend 32 else x.setWidth 32

/-- The addressed bytes, little-endian, extended as requested. -/
def value (mem : BitVec 32 → BitVec 8) (l : Load) : BitVec 32 :=
  match l.type with
  | 0b00#2 => memWord mem l.addr
  | 0b01#2 => l.extend (mem (l.addr + 1#32) ++ mem l.addr)
  | _ => l.extend (mem l.addr)

/-- The bytes of the first word from the offset of the load on are all zero. -/
def FirstPartZero (mem : BitVec 32 → BitVec 8) (l : Load) : Prop :=
  ∀ j : ℕ, j < 4 → l.offset.toNat ≤ j → mem (alignedAddr l.addr + BitVec.ofNat 32 j) = 0#8

end Load

/-! ### Realignment -/

/-- A word as a number. -/
theorem memWord_toNat (mem : BitVec 32 → BitVec 8) (a : BitVec 32) :
    (memWord mem a).toNat = (((mem (a + 3#32)).toNat * 2 ^ 8 + (mem (a + 2#32)).toNat) * 2 ^ 8
      + (mem (a + 1#32)).toNat) * 2 ^ 8 + (mem a).toNat := by
  rw [memWord]
  erw [Bits.toNat_append_eq, Bits.toNat_append_eq, Bits.toNat_append_eq]

/-- An address is its word and its offset. -/
theorem alignedAddr_add_offset (a : BitVec 32) :
    alignedAddr a + (a.extractLsb 1 0).setWidth 32 = a := by
  refine BitVec.eq_of_toNat_eq ?_
  have ha : (alignedAddr a).toNat = a.toNat / 4 % 2 ^ 30 * 2 ^ 2 + 0 :=
    (Bits.toNat_append_eq _ _).trans (by simp [Nat.shiftRight_eq_div_pow])
  rw [BitVec.toNat_add, ha]
  simp
  omega

/-- The word of the second transaction is the next one. -/
theorem alignedAddr_add_four (a : BitVec 32) : alignedAddr (a + 4#32) = alignedAddr a + 4#32 := by
  refine BitVec.eq_of_toNat_eq ?_
  have ha : ∀ a, (alignedAddr a).toNat = a.toNat / 4 % 2 ^ 30 * 2 ^ 2 + 0 := fun a =>
    (Bits.toNat_append_eq _ _).trans (by simp [Nat.shiftRight_eq_div_pow])
  rw [BitVec.toNat_add, ha, ha]
  simp
  omega

/-- A field of a word, as a number. -/
theorem toNat_extract {n : ℕ} (w : BitVec n) (lo len : ℕ) :
    (w.extractLsb' lo len).toNat = w.toNat / 2 ^ lo % 2 ^ len := by
  rw [BitVec.extractLsb'_toNat, Nat.shiftRight_eq_div_pow]

/-- The bytes of a word. -/
theorem memWord_byte (mem : BitVec 32 → BitVec 8) (a : BitVec 32) {k : ℕ} (hk : k < 4) :
    (memWord mem a).extractLsb' (8 * k) 8 = mem (a + BitVec.ofNat 32 k) := by
  refine BitVec.eq_of_toNat_eq ?_
  have h0 := (mem a).isLt
  have h1 := (mem (a + 1#32)).isLt
  have h2 := (mem (a + 2#32)).isLt
  have h3 := (mem (a + 3#32)).isLt
  rw [toNat_extract, memWord_toNat]
  interval_cases k <;> simp <;> omega

/-- The half words of a word. -/
theorem memWord_half (mem : BitVec 32 → BitVec 8) (a : BitVec 32) {k : ℕ} (hk : k < 3) :
    (memWord mem a).extractLsb' (8 * k) 16
      = mem (a + BitVec.ofNat 32 (k + 1)) ++ mem (a + BitVec.ofNat 32 k) := by
  refine BitVec.eq_of_toNat_eq ?_
  have h0 := (mem a).isLt
  have h1 := (mem (a + 1#32)).isLt
  have h2 := (mem (a + 2#32)).isLt
  have h3 := (mem (a + 3#32)).isLt
  rw [toNat_extract, memWord_toNat, Bits.toNat_append_eq]
  interval_cases k <;> simp <;> omega

/-- The extension of half words. -/
theorem extH_eq (l : Load) (h : BitVec 16) : Lsu.extH l.signExt h = l.extend h := by
  rw [Lsu.extH, Load.extend]
  cases l.signExt
  · exact Bits.zero_append 16 h
  · exact Bits.fill_append_msb 16 h

/-- The extension of bytes. -/
theorem extB_eq (l : Load) (b : BitVec 8) : Lsu.extB l.signExt b = l.extend b := by
  rw [Lsu.extB, Load.extend]
  cases l.signExt
  · exact Bits.zero_append 24 b
  · exact Bits.fill_append_msb 24 b

/-- The transaction registers of the LSU are those of the load. -/
def HoldsCtrl (l : Load) (s : Lsu) : Prop :=
  s.rdataOffsetQ = l.offset ∧ s.dataTypeQ = l.type ∧ s.dataSignExtQ = l.signExt ∧
    s.dataWeQ = false

/-- The cases of an offset. -/
theorem offset_cases (o : BitVec 2) : o = 0b00#2 ∨ o = 0b01#2 ∨ o = 0b10#2 ∨ o = 0b11#2 := by
  revert o
  decide

/-- A load of one transaction returns its bytes from the one response. -/
theorem lsuRdata_single {mem : BitVec 32 → BitVec 8} {l : Load} {s : Lsu} {x : LsuIn}
    (hc : HoldsCtrl l s) (hs : l.split = false)
    (hr : x.dataRdata = memWord mem (alignedAddr l.addr)) : s.lsuRdata x = l.value mem := by
  obtain ⟨ho, ht, hsg, -⟩ := hc
  have ha : alignedAddr l.addr + l.offset.setWidth 32 = l.addr := alignedAddr_add_offset l.addr
  generalize alignedAddr l.addr = a at ha hr
  have hbyte := fun k hk => memWord_byte mem a (k := k) hk
  have hhalf := fun k hk => memWord_half mem a (k := k) hk
  simp only [Lsu.lsuRdata, Load.value, ht]
  split
  next h =>
    have h0 : l.offset = 0b00#2 := by simpa [Load.split, h] using hs
    rw [← ha, Lsu.rdataWExt, ho, h0, hr]
    generalize l.type = t at h ⊢
    subst h
    simp
  next h =>
    rw [Lsu.rdataHExt, ho, hsg, hr, ← ha]
    obtain h0 | h0 | h0 | h0 := offset_cases l.offset
    · rw [h0]
      simpa [h, extH_eq, BitVec.extractLsb, BitVec.add_assoc]
        using congrArg l.extend (hhalf 0 (by decide))
    · rw [h0]
      simpa [h, extH_eq, BitVec.extractLsb, BitVec.add_assoc]
        using congrArg l.extend (hhalf 1 (by decide))
    · rw [h0]
      simpa [h, extH_eq, BitVec.extractLsb, BitVec.add_assoc]
        using congrArg l.extend (hhalf 2 (by decide))
    · simp [Load.split, h, h0] at hs
  next h =>
    rw [Lsu.rdataBExt, ho, hsg, hr, ← ha]
    obtain h0 | h0 | h0 | h0 := offset_cases l.offset
    · rw [h0]
      simpa [extB_eq, BitVec.extractLsb] using congrArg l.extend (hbyte 0 (by decide))
    · rw [h0]
      simpa [extB_eq, BitVec.extractLsb] using congrArg l.extend (hbyte 1 (by decide))
    · rw [h0]
      simpa [extB_eq, BitVec.extractLsb] using congrArg l.extend (hbyte 2 (by decide))
    · rw [h0]
      simpa [extB_eq, BitVec.extractLsb] using congrArg l.extend (hbyte 3 (by decide))

/-- The split loads: the misaligned words, and the half word at offset 3. -/
theorem split_cases {l : Load} (hs : l.split = true) :
    (l.type = 0b00#2 ∧ l.offset = 0b01#2) ∨ (l.type = 0b00#2 ∧ l.offset = 0b10#2) ∨
      (l.type = 0b00#2 ∧ l.offset = 0b11#2) ∨ (l.type = 0b01#2 ∧ l.offset = 0b11#2) := by
  simp only [Load.split, Bool.or_eq_true, Bool.and_eq_true, beq_iff_eq, bne_iff_ne] at hs
  have ho := offset_cases l.offset
  tauto

/-- Extension loses nothing. -/
theorem extend_inj {l : Load} {w : ℕ} (hw : w ≤ 32) {x y : BitVec w} :
    l.extend x = l.extend y ↔ x = y := by
  refine ⟨fun h => ?_, fun h => by rw [h]⟩
  have hs : ∀ z : BitVec w, (l.extend z).setWidth w = z := by
    intro z
    rw [Load.extend]
    split
    · refine BitVec.eq_of_getLsbD_eq fun i hi => ?_
      have h32 : i < 32 := by omega
      rw [BitVec.getLsbD_setWidth, BitVec.getLsbD_signExtend]
      simp [hi, h32]
    · rw [BitVec.setWidth_setWidth_of_le _ hw, BitVec.setWidth_eq]
  rw [← hs x, h, hs y]

/-- What the LSU returns for a split load, by the bytes kept from the first word. -/
theorem lsuRdata_split {mem : BitVec 32 → BitVec 8} {l : Load} {s : Lsu} {x : LsuIn}
    (hc : HoldsCtrl l s) (hs : l.split = true)
    (hr : x.dataRdata = memWord mem (alignedAddr (l.addr + 4#32))) :
    s.lsuRdata x = l.value mem ↔
      s.rdataQ.toNat / 2 ^ (8 * (l.offset.toNat - 1))
        = (memWord mem (alignedAddr l.addr)).toNat / 2 ^ (8 * l.offset.toNat) := by
  obtain ⟨ho, ht, hsg, -⟩ := hc
  have ha : alignedAddr l.addr + l.offset.setWidth 32 = l.addr := alignedAddr_add_offset l.addr
  rw [alignedAddr_add_four] at hr
  generalize alignedAddr l.addr = a at ha hr
  have hq := s.rdataQ.isLt
  have hb := fun k => (mem (a + BitVec.ofNat 32 k)).isLt
  have h0 := hb 0
  have h1 := hb 1
  have h2 := hb 2
  have h3 := hb 3
  have h4 := hb 4
  have h5 := hb 5
  have h6 := hb 6
  have h7 := hb 7
  obtain ⟨h, h'⟩ | ⟨h, h'⟩ | ⟨h, h'⟩ | ⟨h, h'⟩ := split_cases hs
  · rw [← BitVec.toNat_inj]
    simp only [Lsu.lsuRdata, Lsu.rdataWExt, Load.value, ht, ho, h, h', hr, ← ha, memWord_toNat]
    erw [Bits.toNat_append_eq, toNat_extract, memWord_toNat]
    simp [BitVec.add_assoc]
    omega
  · rw [← BitVec.toNat_inj]
    simp only [Lsu.lsuRdata, Lsu.rdataWExt, Load.value, ht, ho, h, h', hr, ← ha, memWord_toNat]
    erw [Bits.toNat_append_eq, toNat_extract, toNat_extract, memWord_toNat]
    simp [BitVec.add_assoc]
    omega
  · rw [← BitVec.toNat_inj]
    simp only [Lsu.lsuRdata, Lsu.rdataWExt, Load.value, ht, ho, h, h', hr, ← ha, memWord_toNat]
    erw [Bits.toNat_append_eq, toNat_extract, toNat_extract, memWord_toNat]
    simp [BitVec.add_assoc]
    omega
  · have hlow := memWord_byte mem (a + 4#32) (k := 0) (by decide)
    have hl : s.lsuRdata x
        = l.extend (mem (a + 4#32) ++ s.rdataQ.extractLsb' 16 8 : BitVec (8 + 8)) := by
      rw [← show _ = mem (a + 4#32) by simpa using hlow, ← extH_eq, ← hsg, ← hr]
      simp only [Lsu.lsuRdata, Lsu.rdataHExt, ht, ho, h, h']
      rfl
    have hv : l.value mem = l.extend (mem (a + 4#32) ++ mem (a + 3#32)) := by
      simp only [Load.value, h, h', ← ha]
      simp [BitVec.add_assoc]
    rw [hl, hv, extend_inj (by decide), ← BitVec.toNat_inj, Bits.toNat_append_eq,
      Bits.toNat_append_eq, toNat_extract, memWord_toNat, h']
    simp
    omega

/-- With the bytes of the first response kept, a split load returns its bytes. -/
theorem lsuRdata_split_kept {mem : BitVec 32 → BitVec 8} {l : Load} {s : Lsu} {x : LsuIn}
    (hc : HoldsCtrl l s) (hs : l.split = true)
    (hr : x.dataRdata = memWord mem (alignedAddr (l.addr + 4#32)))
    (hq : s.rdataQ = (memWord mem (alignedAddr l.addr)).extractLsb 31 8) :
    s.lsuRdata x = l.value mem := by
  have hlt := (memWord mem (alignedAddr l.addr)).isLt
  have hqn : s.rdataQ.toNat = (memWord mem (alignedAddr l.addr)).toNat / 2 ^ 8 % 2 ^ 24 := by
    rw [hq]
    exact toNat_extract _ 8 24
  rw [lsuRdata_split hc hs hr, hqn]
  obtain ⟨-, h⟩ | ⟨-, h⟩ | ⟨-, h⟩ | ⟨-, h⟩ := split_cases hs <;> rw [h] <;> simp <;> omega

/-- With the bytes of the first response cleared, a split load returns its bytes only when
the lost ones are zero. -/
theorem lsuRdata_split_cleared {mem : BitVec 32 → BitVec 8} {l : Load} {s : Lsu} {x : LsuIn}
    (hc : HoldsCtrl l s) (hs : l.split = true)
    (hr : x.dataRdata = memWord mem (alignedAddr (l.addr + 4#32))) (hq : s.rdataQ = 0#24) :
    s.lsuRdata x = l.value mem ↔ l.FirstPartZero mem := by
  have hzero : l.FirstPartZero mem ↔ ∀ j : ℕ, j < 4 → l.offset.toNat ≤ j →
      (mem (alignedAddr l.addr + BitVec.ofNat 32 j)).toNat = 0 := by
    simp only [Load.FirstPartZero, ← BitVec.toNat_inj, BitVec.toNat_ofNat, Nat.zero_mod]
  rw [lsuRdata_split hc hs hr, hq, hzero, memWord_toNat]
  generalize alignedAddr l.addr = a
  have hb := fun k => (mem (a + BitVec.ofNat 32 k)).isLt
  have h0 := hb 0
  have h1 := hb 1
  have h2 := hb 2
  -- the bytes at offsets 0 to 3, of which those from the offset on must vanish
  have hall : ∀ P : ℕ → Prop, (∀ j, j < 4 → P j) ↔ P 0 ∧ P 1 ∧ P 2 ∧ P 3 := by
    intro P
    refine ⟨fun h => ⟨h 0 (by omega), h 1 (by omega), h 2 (by omega), h 3 (by omega)⟩, ?_⟩
    rintro ⟨p0, p1, p2, p3⟩ j hj
    interval_cases j <;> assumption
  rw [hall]
  obtain ⟨-, h⟩ | ⟨-, h⟩ | ⟨-, h⟩ | ⟨-, h⟩ := split_cases hs <;> rw [h] <;> simp at * <;> omega

/-! ### The bus -/

/-- A load in progress: the LSU, and the addresses of the granted transactions that are not
yet answered, the oldest first. -/
structure LoadRun where
  lsu : Lsu
  pending : List (BitVec 32)

namespace LoadRun

/-- One cycle: an answer belongs to the oldest transaction, a grant adds one. -/
def next (r : LoadRun) (x : LsuIn) : LoadRun where
  lsu := r.lsu.next x
  pending :=
    (if x.dataRvalid then r.pending.tail else r.pending)
      ++ (if x.dataGnt then [x.dataAddr] else [])

/-- The bus protocol: it grants what is requested, answers what is granted in an earlier
cycle with the word of the memory, and reports no error. -/
structure Responds (mem : BitVec 32 → BitVec 8) (r : LoadRun) (x : LsuIn) : Prop where
  noErr : x.dataErr = false
  noPmpErr : x.dataPmpErr = false
  gnt : x.dataGnt = true → (r.lsu.step x).dataReq = true
  rvalid : x.dataRvalid = true →
    ∃ a rest, r.pending = a :: rest ∧ x.dataRdata = memWord mem a

/-- ID holds the load while the LSU works on it, and the adder follows `addr_incr_req`. -/
structure Holds (l : Load) (r : LoadRun) (x : LsuIn) : Prop where
  noReq : r.lsu.lsFsm = .idle → x.lsuReq = false
  busy : r.lsu.lsFsm ≠ .idle →
    x.lsuWe = false ∧ x.lsuType = l.type ∧ x.lsuSignExt = l.signExt ∧
      x.adderResultEx = if (r.lsu.step x).addrIncrReq then r.lsu.addrLastQ + 4#32 else l.addr

/-- A cycle of a load that has not returned its data yet. -/
def Waits (mem : BitVec 32 → BitVec 8) (l : Load) (r : LoadRun) (x : LsuIn) : Prop :=
  r.Responds mem x ∧ r.Holds l x ∧ r.lsu.lsuRdataValid x = false

end LoadRun

/-- The cycle in which ID requests the load. Its response inputs may belong to an earlier
access. -/
structure Load.Starts (l : Load) (x : LsuIn) : Prop where
  req : x.lsuReq = true
  we : x.lsuWe = false
  type : x.lsuType = l.type
  signExt : x.lsuSignExt = l.signExt
  addr : x.adderResultEx = l.addr
  noPmpErr : x.dataPmpErr = false

/-- The load in progress after its first cycle. -/
def LoadRun.start (s : Lsu) (x : LsuIn) : LoadRun where
  lsu := s.next x
  pending := if x.dataGnt then [x.dataAddr] else []

/-- What holds of a load in progress, `prev` telling whether the last cycle had a
response. -/
structure LoadInv (mem : BitVec 32 → BitVec 8) (l : Load) (prev : Bool) (r : LoadRun) :
    Prop where
  noPmpErr : r.lsu.pmpErrQ = false
  noErr : r.lsu.lsuErrQ = false
  state :
    match r.lsu.lsFsm with
    | .waitGntMis => l.split = true ∧ r.pending = []
    | .waitRvalidMis =>
      l.split = true ∧ r.pending = [alignedAddr l.addr] ∧ HoldsCtrl l r.lsu ∧
        r.lsu.addrLastQ = l.addr ∧ r.lsu.handleMisalignedQ = true
    | .waitRvalidMisGntsDone =>
      l.split = true ∧ r.pending = [alignedAddr l.addr, alignedAddr (l.addr + 4#32)] ∧
        HoldsCtrl l r.lsu ∧ r.lsu.addrLastQ = l.addr
    | .waitGnt =>
      r.pending = [] ∧ r.lsu.handleMisalignedQ = l.split ∧
        (l.split = true → r.lsu.addrLastQ = l.addr)
    | .idle =>
      HoldsCtrl l r.lsu ∧
        if l.split then
          r.pending = [alignedAddr (l.addr + 4#32)] ∧
            r.lsu.rdataQ
              = if prev then (memWord mem (alignedAddr l.addr)).extractLsb 31 8 else 0#24
        else r.pending = [alignedAddr l.addr]

/-! ### Every run of a load -/

/-- The access of a load is split like the load. -/
theorem splitMisaligned_eq {l : Load} {x : LsuIn} (ht : x.lsuType = l.type)
    (ha : x.adderResultEx = l.addr) : x.splitMisalignedAccess = l.split := by
  rw [LsuIn.splitMisalignedAccess, LsuIn.dataOffset, ht, ha, Load.split, Load.offset]

/-- The second address has the offset of the first. -/
theorem offset_add_four (a : BitVec 32) : (a + 4#32).extractLsb 1 0 = a.extractLsb 1 0 := by
  refine BitVec.eq_of_toNat_eq ?_
  simp

/-- The first cycle of a load, from an idle LSU. -/
theorem loadInv_start {mem : BitVec 32 → BitVec 8} {l : Load} {s : Lsu} {x : LsuIn}
    (hs : s.lsFsm = .idle) (hm : s.handleMisalignedQ = false) (hx : l.Starts x) :
    LoadInv mem l false (LoadRun.start s x) := by
  obtain ⟨hreq, hwe, ht, hsg, ha, hp⟩ := hx
  have hsplit := splitMisaligned_eq ht ha
  have haddr : x.dataAddr = alignedAddr l.addr := by rw [LsuIn.dataAddr, ha, alignedAddr]
  have hoff : x.dataOffset = l.offset := by rw [LsuIn.dataOffset, ha, Load.offset]
  cases hg : x.dataGnt <;> cases hl : l.split <;> constructor <;>
    simp [LoadRun.start, Lsu.next, Lsu.step, hs, hm, hreq, hwe, ht, hsg, ha, hp, hsplit, haddr,
      hoff, hg, hl, HoldsCtrl]

/-- A cycle of a load in progress keeps its invariant. -/
theorem loadInv_next {mem : BitVec 32 → BitVec 8} {l : Load} {prev : Bool} {r : LoadRun}
    {x : LsuIn} (h : LoadInv mem l prev r) (hw : r.Waits mem l x) :
    LoadInv mem l x.dataRvalid (r.next x) := by
  obtain ⟨⟨herr, hperr, hgnt, hrv⟩, ⟨hreq, hbusy⟩, hval⟩ := hw
  obtain ⟨hp, he, hst⟩ := h
  cases hf : r.lsu.lsFsm with
  | idle =>
      -- no request and no response: an answer would be the end of the load
      simp only [hf] at hst
      have hq := hreq hf
      have hnr : x.dataRvalid = false := by
        simpa [Lsu.lsuRdataValid, hf, Lsu.dataOrPmpErr, hp, he, herr, hst.1.2.2.2] using hval
      have hng : x.dataGnt = false := by
        simpa [Lsu.step_dataReq, hf, hq] using hgnt
      cases hl : l.split <;> simp only [hl] at hst <;> constructor <;>
        simp_all [LoadRun.next, Lsu.next, Lsu.step, HoldsCtrl]
  | waitGntMis =>
      -- the first request is not granted yet, so there is nothing to answer
      simp only [hf] at hst
      obtain ⟨hwe, ht, hsg, ha⟩ := hbusy (by simp [hf])
      replace ha : x.adderResultEx = l.addr := by
        simpa [Lsu.step_addrIncrReq, hf] using ha
      have haddr : x.dataAddr = alignedAddr l.addr := by rw [LsuIn.dataAddr, ha, alignedAddr]
      have hoff : x.dataOffset = l.offset := by rw [LsuIn.dataOffset, ha, Load.offset]
      have hnr : x.dataRvalid = false := by
        simpa [hst.2] using hrv
      cases hg : x.dataGnt <;> constructor <;>
        simp_all [LoadRun.next, Lsu.next, Lsu.step, HoldsCtrl]
  | waitRvalidMis =>
      simp only [hf] at hst
      obtain ⟨hl, hpend, hctrl, hlast, hmis⟩ := hst
      obtain ⟨hwe, ht, hsg, ha⟩ := hbusy (by simp [hf])
      replace ha : x.adderResultEx = l.addr + 4#32 := by
        simpa [Lsu.step_addrIncrReq, hf, hlast] using ha
      have haddr : x.dataAddr = alignedAddr (l.addr + 4#32) := by
        rw [LsuIn.dataAddr, ha, alignedAddr]
      cases hg : x.dataGnt <;> cases hr : x.dataRvalid <;> constructor <;>
        simp_all [LoadRun.next, Lsu.next, Lsu.step, HoldsCtrl]
  | waitGnt =>
      simp only [hf] at hst
      obtain ⟨hpend, hmis, hlast⟩ := hst
      obtain ⟨hwe, ht, hsg, ha⟩ := hbusy (by simp [hf])
      have hnr : x.dataRvalid = false := by
        simpa [hpend] using hrv
      replace ha : x.adderResultEx = if l.split then l.addr + 4#32 else l.addr := by
        cases hl : l.split <;> simp_all [Lsu.step_addrIncrReq]
      have hoff : x.dataOffset = l.offset := by
        rw [LsuIn.dataOffset, ha, Load.offset]
        cases l.split
        · rfl
        · exact offset_add_four l.addr
      have haddr : x.dataAddr = alignedAddr (if l.split then l.addr + 4#32 else l.addr) := by
        rw [LsuIn.dataAddr, ha, alignedAddr]
      cases hg : x.dataGnt <;> cases hl : l.split <;> constructor <;>
        simp_all [LoadRun.next, Lsu.next, Lsu.step, HoldsCtrl]
  | waitRvalidMisGntsDone =>
      simp only [hf] at hst
      obtain ⟨hl, hpend, hctrl, hlast⟩ := hst
      have hng : x.dataGnt = false := by
        simpa [Lsu.step_dataReq, hf] using hgnt
      cases hr : x.dataRvalid <;> constructor <;>
        simp_all [LoadRun.next, Lsu.next, Lsu.step, HoldsCtrl]

/-- The last of the cycles `ins` had a response. -/
def lastRvalid (ins : List LsuIn) : Bool := (ins.getLast?.map LsuIn.dataRvalid).getD false

/-- The invariant along every run of a load. -/
theorem loadInv_run {mem : BitVec 32 → BitVec 8} {l : Load} {r : LoadRun}
    (h : LoadInv mem l false r) {ins : List LsuIn}
    (hok : Along LoadRun.next (LoadRun.Waits mem l) r ins) :
    LoadInv mem l (lastRvalid ins) (run LoadRun.next r ins) := by
  refine run_history (fun ins r => LoadInv mem l (lastRvalid ins) r) ?_ h ins hok
  intro ins r x hr hx
  have hlast : lastRvalid (ins ++ [x]) = x.dataRvalid := by simp [lastRvalid]
  rw [hlast]
  exact loadInv_next hr hx

/-- The value presented in the last cycle of a load. -/
theorem lsuRdata_of_loadInv {mem : BitVec 32 → BitVec 8} {l : Load} {prev : Bool} {r : LoadRun}
    {x : LsuIn} (h : LoadInv mem l prev r) (hx : r.Responds mem x)
    (hv : r.lsu.lsuRdataValid x = true) :
    r.lsu.lsuRdata x = l.value mem ↔ l.split = false ∨ prev = true ∨ l.FirstPartZero mem := by
  simp only [Lsu.lsuRdataValid, Bool.and_eq_true, beq_iff_eq] at hv
  obtain ⟨⟨⟨hf, hr⟩, -⟩, -⟩ := hv
  obtain ⟨a, rest, hpend, hdata⟩ := hx.rvalid hr
  have hst := h.state
  simp only [hf] at hst
  obtain ⟨hc, hst⟩ := hst
  cases hs : l.split with
  | false =>
      simp only [hs, Bool.false_eq_true, if_false] at hst
      obtain rfl : a = alignedAddr l.addr := by simp_all
      simp [lsuRdata_single hc hs hdata]
  | true =>
      simp only [hs, if_true] at hst
      obtain ⟨hp2, hq⟩ := hst
      obtain rfl : a = alignedAddr (l.addr + 4#32) := by simp_all
      cases prev with
      | true => simp [lsuRdata_split_kept hc hs hdata hq]
      | false => simp [lsuRdata_split_cleared hc hs hdata hq]

/-- **Loads under any bus timing.** A load that starts from any idle state of the LSU, over
any grant and response timing: the value presented with `lsu_rdata_valid` is that of the
memory exactly when the load is not split, or its second response comes in the cycle after
the first, or the bytes of the first word that it asks for are zero. -/
theorem lsu_load_value_iff (mem : BitVec 32 → BitVec 8) (l : Load) {hist : List LsuIn}
    (hidle : (run Lsu.next Lsu.reset hist).lsFsm = .idle) {x₀ : LsuIn} (hx₀ : l.Starts x₀)
    {ins : List LsuIn}
    (hok : Along LoadRun.next (LoadRun.Waits mem l)
      (LoadRun.start (run Lsu.next Lsu.reset hist) x₀) ins)
    {x : LsuIn}
    (hx : (run LoadRun.next (LoadRun.start (run Lsu.next Lsu.reset hist) x₀) ins).Responds mem x)
    (hv : (run LoadRun.next (LoadRun.start (run Lsu.next Lsu.reset hist) x₀)
      ins).lsu.lsuRdataValid x = true) :
    (run LoadRun.next (LoadRun.start (run Lsu.next Lsu.reset hist) x₀) ins).lsu.lsuRdata x
        = l.value mem ↔
      l.split = false ∨ lastRvalid ins = true ∨ l.FirstPartZero mem :=
  lsuRdata_of_loadInv
    (loadInv_run (loadInv_start hidle (Lsu.handleMisaligned_of_idle hist hidle) hx₀) hok) hx hv

/-! ### The word at address 1 -/

/-- A cycle of a word load, with the address of the adder, grant and response. -/
def wordLoadCycle (req : Bool) (addr : BitVec 32) (gnt rvalid : Bool) (rdata : BitVec 32) :
    LsuIn where
  lsuReq := req
  lsuWe := false
  lsuType := 0b00#2
  lsuSignExt := false
  lsuWdata := 0#32
  adderResultEx := addr
  dataGnt := gnt
  dataRvalid := rvalid
  dataErr := false
  dataPmpErr := false
  dataRdata := rdata

/-- The word load at address 1 with back-to-back responses. -/
theorem lsu_load_value_at_one :
    let mem : BitVec 32 → BitVec 8 := fun a => a.setWidth 8
    let l : Load := ⟨1#32, 0b00#2, false⟩
    let r := run LoadRun.next
      (LoadRun.start (run Lsu.next Lsu.reset []) (wordLoadCycle true 1#32 true false 0#32))
      [wordLoadCycle false 5#32 true true 0x03020100#32]
    r.lsu.lsuRdata (wordLoadCycle false 5#32 false true 0x07060504#32) = l.value mem ↔
      l.split = false ∨ lastRvalid [wordLoadCycle false 5#32 true true 0x03020100#32] = true ∨
        l.FirstPartZero mem :=
  @lsu_load_value_iff (fun a => a.setWidth 8) ⟨1#32, 0b00#2, false⟩ [] rfl
    (wordLoadCycle true 1#32 true false 0#32) ⟨rfl, rfl, rfl, rfl, rfl, rfl⟩
    [wordLoadCycle false 5#32 true true 0x03020100#32]
    ⟨⟨⟨rfl, rfl, fun _ => rfl, fun _ => ⟨_, _, rfl, rfl⟩⟩,
      ⟨fun h => absurd h (by decide), fun _ => ⟨rfl, rfl, rfl, rfl⟩⟩, rfl⟩, trivial⟩
    (wordLoadCycle false 5#32 false true 0x07060504#32)
    ⟨rfl, rfl, fun h => absurd h (by decide), fun _ => ⟨_, _, rfl, rfl⟩⟩ rfl

/-- The same load with one idle cycle between its responses: a legal run that presents a
value whose low three bytes are lost. -/
theorem lsu_load_gap_loses_bytes :
    let mem : BitVec 32 → BitVec 8 := fun a => a.setWidth 8
    let l : Load := ⟨1#32, 0b00#2, false⟩
    let x₀ := wordLoadCycle true 1#32 true false 0#32
    let ins := [wordLoadCycle false 5#32 true true 0x03020100#32,
      wordLoadCycle false 5#32 false false 0#32]
    let x := wordLoadCycle false 5#32 false true 0x07060504#32
    let r := run LoadRun.next (LoadRun.start Lsu.reset x₀) ins
    l.Starts x₀ ∧ Along LoadRun.next (LoadRun.Waits mem l) (LoadRun.start Lsu.reset x₀) ins ∧
      r.Responds mem x ∧ r.lsu.lsuRdataValid x = true ∧
      r.lsu.lsuRdata x = 0x04000000#32 ∧ r.lsu.lsuRdata x ≠ l.value mem := by
  refine ⟨⟨rfl, rfl, rfl, rfl, rfl, rfl⟩, ⟨?_, ?_, trivial⟩, ?_, rfl, rfl, by decide⟩
  · exact ⟨⟨rfl, rfl, fun _ => rfl, fun _ => ⟨_, _, rfl, rfl⟩⟩,
      ⟨fun h => absurd h (by decide), fun _ => ⟨rfl, rfl, rfl, rfl⟩⟩, rfl⟩
  · exact ⟨⟨rfl, rfl, fun h => absurd h (by decide), fun h => absurd h (by decide)⟩,
      ⟨fun _ => rfl, fun h => absurd rfl h⟩, rfl⟩
  · exact ⟨rfl, rfl, fun h => absurd h (by decide), fun _ => ⟨_, _, rfl, rfl⟩⟩

end CocoIbex
