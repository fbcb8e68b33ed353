import CocoIbex.LsuLoad
import CocoIbex.Ram1pSecure

/-!
# The Load-Store Unit on the Secure RAM

`ibex_load_store_unit` wired to `ram_1p_secure` as in `ibex_top`, with ID issuing loads and
stores one after the other. The RAM grants at once and answers two cycles later, so a split
access has its second request granted before the first answer, and its two answers come in two
cycles in a row. Together they are a memory of bytes, with the addresses taken modulo the size
of the RAM (`LsuRam.lsu_ram_bytes`).

An access is a `MemOp`: its address, its size, and the data of a store or the extension of a
load. What it does is said of a memory of bytes, `MemOp.store` and `MemOp.load`, without words,
offsets and byte enables. The machine has the list of the completed accesses as a history, and
the statement compares the RAM with the memory after these (`memAfter`), and the value of each
load with the bytes of the memory in front of it.

The phases of an access are cycles of a fixed number (`latency`), since the timing of the RAM is
fixed. In each of them the state of the LSU and the requests in the pipeline of the RAM are
known, and `Inv` lists them. That the inputs are taken at all is part of the statement: an
access that ID issues is in the second cycle next, is held until its answer, and is then added
to the history.

## Main results

* `inv_next` — the step lemma, from phase to phase;
* `next_of_idle` and `next_of_held` — how an access is issued, held and completed;
* `completes` — an access is completed in the cycle of its latency;
* `lsu_ram_bytes` — for every size of the RAM, its contents and every run.
-/

namespace CocoIbex

/-! ### Accesses of a byte memory -/

/-- The number of bytes of an access by its type. -/
def accessSize (type : BitVec 2) : ℕ := match type with | 0b00#2 => 4 | 0b01#2 => 2 | _ => 1

/-- A load or store in ID: the operands of its address, its size (00 word, 01 half word,
else byte), its sign mode and its data. -/
structure MemOp where
  we : Bool
  type : BitVec 2
  signExt : Bool
  base : BitVec 32
  imm : BitVec 32
  wdata : BitVec 32
  deriving DecidableEq

namespace MemOp

variable (op : MemOp) {n : ℕ}

/-- The byte address. -/
def addr : BitVec 32 := op.base + op.imm

/-- The access as a load. -/
def load : Load := ⟨op.addr, op.type, op.signExt⟩

/-- The number of bytes. -/
def size : ℕ := accessSize op.type

/-- The number of cycles after its first that an access takes: a split one waits for a second
answer. -/
def latency : ℕ := if op.load.split then 3 else 2

/-- The place of byte `j` in a memory of `2 ^ (n + 2)` bytes. -/
def place (n j : ℕ) : BitVec (n + 2) := (op.addr + BitVec.ofNat 32 j).setWidth (n + 2)

/-- What the access stores at a place, if anything. -/
def storedByte (i : BitVec (n + 2)) : Option (BitVec 8) :=
  if op.we then ((List.range op.size).find? fun j => op.place n j == i).map (wordByte op.wdata)
  else none

/-- The memory after the access. -/
def store (m : BitVec (n + 2) → BitVec 8) (i : BitVec (n + 2)) : BitVec 8 :=
  (op.storedByte i).getD (m i)

/-- The memory after the accesses `ops`: at each place the byte that was stored last. -/
def memAfter (m : BitVec (n + 2) → BitVec 8) (ops : List MemOp) (i : BitVec (n + 2)) : BitVec 8 :=
  (ops.reverse.findSome? fun op => op.storedByte i).getD (m i)

/-- No access leaves the memory as it is. -/
@[simp] theorem memAfter_nil (m : BitVec (n + 2) → BitVec 8) : memAfter m [] = m := rfl

/-- The memory after one more access is that before it with its store. -/
theorem memAfter_concat (m : BitVec (n + 2) → BitVec 8) (ops : List MemOp) (op : MemOp) :
    memAfter m (ops ++ [op]) = op.store (memAfter m ops) := by
  funext i
  simp only [memAfter, store, List.reverse_append, List.reverse_cons, List.reverse_nil,
    List.nil_append, List.cons_append, List.findSome?_cons]
  cases op.storedByte i <;> rfl

/-- An access that is no store leaves the memory alone. -/
theorem store_of_load (m : BitVec (n + 2) → BitVec 8) (h : op.we = false) : op.store m = m := by
  funext i
  simp [store, storedByte, h]

/-- The memory seen through 32-bit addresses, modulo its size. -/
def view (m : BitVec (n + 2) → BitVec 8) (a : BitVec 32) : BitVec 8 := m (a.setWidth (n + 2))

/-- The addressed bytes, little-endian, extended as requested. -/
def value (m : BitVec (n + 2) → BitVec 8) : BitVec 32 := op.load.value (view m)

end MemOp

/-! ### Bytes of the words of the RAM -/

variable {n : ℕ}

/-- The word of a byte address in a memory of `2 ^ n` words. -/
def wordIdx (n : ℕ) (a : BitVec 32) : BitVec n := a.extractLsb' 2 n

/-- The bytes of a memory of words. -/
def bytesOf (W : BitVec n → BitVec 32) (i : BitVec (n + 2)) : BitVec 8 :=
  wordByte (W (i.extractLsb' 2 n)) (i.toNat % 4)

/-- A place is its word and its lane there. -/
theorem place_eq_iff {i j : BitVec (n + 2)} :
    i = j ↔ i.extractLsb' 2 n = j.extractLsb' 2 n ∧ i.toNat % 4 = j.toNat % 4 := by
  constructor
  · rintro rfl
    exact ⟨rfl, rfl⟩
  · rintro ⟨hw, hl⟩
    have hdiv : ∀ i : BitVec (n + 2), (i.extractLsb' 2 n).toNat = i.toNat / 4 := by
      intro i
      have hlt : i.toNat / 4 < 2 ^ n := by
        have := i.isLt
        rw [pow_add] at this
        omega
      rw [BitVec.extractLsb'_toNat, Nat.shiftRight_eq_div_pow, Nat.mod_eq_of_lt hlt]
    have hq : i.toNat / 4 = j.toNat / 4 := by rw [← hdiv, ← hdiv, hw]
    refine BitVec.eq_of_toNat_eq ?_
    omega

/-- The lane of an address. -/
theorem setWidth_lane (a : BitVec 32) : (a.setWidth (n + 2)).toNat % 4 = a.toNat % 4 := by
  have hdvd : (4 : ℕ) ∣ 2 ^ (n + 2) := ⟨2 ^ n, by ring⟩
  rw [BitVec.toNat_setWidth, Nat.mod_mod_of_dvd _ hdvd]

/-- The word of an address. -/
theorem setWidth_word (a : BitVec 32) :
    (a.setWidth (n + 2)).extractLsb' 2 n = wordIdx n a := by
  refine BitVec.eq_of_getLsbD_eq fun i hi => ?_
  have : i < n + 2 - 2 := by omega
  simp only [wordIdx, BitVec.getLsbD_extractLsb', BitVec.getLsbD_setWidth, hi]
  have h2 : 2 + i < n + 2 := by omega
  simp [h2]

/-- The word of the byte `j` behind an address, with its lane. -/
theorem wordIdx_add (a : BitVec 32) {j : ℕ} (hj : j < 4) :
    wordIdx n (a + BitVec.ofNat 32 j)
        = (if a.toNat % 4 + j < 4 then wordIdx n a else wordIdx n (a + 4#32)) ∧
      (a + BitVec.ofNat 32 j).toNat % 4 = (a.toNat % 4 + j) % 4 := by
  have ha := a.isLt
  have hsum : (a + BitVec.ofNat 32 j).toNat = (a.toNat + j) % 2 ^ 32 := by
    simp [BitVec.toNat_add, BitVec.toNat_ofNat]
  have hidx : ∀ b : BitVec 32, (wordIdx n b).toNat = b.toNat / 4 % 2 ^ n := by
    intro b
    rw [wordIdx, BitVec.extractLsb'_toNat, Nat.shiftRight_eq_div_pow]
  refine ⟨?_, by rw [hsum]; omega⟩
  refine BitVec.eq_of_toNat_eq ?_
  split_ifs with h
  · rw [hidx, hidx, hsum]
    congr 1
    omega
  · rw [hidx, hidx, hsum]
    congr 1
    simp only [BitVec.toNat_add, BitVec.toNat_ofNat]
    omega

/-- The word that the bytes make up. -/
theorem memWord_view (W : BitVec n → BitVec 32) (a : BitVec 32) :
    memWord (MemOp.view (bytesOf W)) (alignedAddr a) = W (wordIdx n a) := by
  have hal : (alignedAddr a).toNat = a.toNat / 4 * 4 := by
    have ha := a.isLt
    have h := (Bits.toNat_append_eq (a.extractLsb 31 2) 0b00#2)
    rw [alignedAddr, h]
    simp [Nat.shiftRight_eq_div_pow]
    omega
  have hw : wordIdx n (alignedAddr a) = wordIdx n a := by
    refine BitVec.eq_of_toNat_eq ?_
    simp only [wordIdx, BitVec.extractLsb'_toNat, Nat.shiftRight_eq_div_pow, hal]
    congr 1
    omega
  refine word_ext fun k hk => ?_
  obtain ⟨hwk, hlk⟩ := wordIdx_add (n := n) (alignedAddr a) hk
  rw [hal] at hwk hlk
  have h0 : a.toNat / 4 * 4 % 4 = 0 := Nat.mul_mod_left _ _
  have hb : wordByte (memWord (MemOp.view (bytesOf W)) (alignedAddr a)) k = _ := memWord_byte _ _ hk
  rw [hb, MemOp.view, bytesOf, setWidth_word, setWidth_lane, hwk, hlk, h0, Nat.zero_add, if_pos hk,
    hw, Nat.mod_eq_of_lt hk]

/-! ### The lanes of a store -/

/-- An access is of a byte, a half word or a word. -/
theorem size_cases (op : MemOp) : op.size = 1 ∨ op.size = 2 ∨ op.size = 4 := by
  rw [MemOp.size]
  generalize op.type = t
  revert t
  decide

/-- Byte `j` of an access lies in the addressed word or in the next one. -/
theorem place_eq (op : MemOp) {j : ℕ} (hj : j < 4) (i : BitVec (n + 2)) :
    op.place n j = i ↔
      (if op.addr.toNat % 4 + j < 4 then wordIdx n op.addr else wordIdx n (op.addr + 4#32))
          = i.extractLsb' 2 n ∧
        (op.addr.toNat % 4 + j) % 4 = i.toNat % 4 := by
  obtain ⟨hw, hl⟩ := wordIdx_add (n := n) op.addr hj
  rw [place_eq_iff, MemOp.place, setWidth_word, setWidth_lane, hw, hl]

/-- What a store leaves in a lane of the addressed word and of the next one. -/
theorem storedByte_eq (op : MemOp) (hwe : op.we = true) (i : BitVec (n + 2)) :
    op.storedByte i =
      if wordIdx n op.addr = i.extractLsb' 2 n ∧ op.addr.toNat % 4 ≤ i.toNat % 4 ∧
          i.toNat % 4 < op.addr.toNat % 4 + op.size then
        some (wordByte op.wdata (i.toNat % 4 - op.addr.toNat % 4))
      else if wordIdx n (op.addr + 4#32) = i.extractLsb' 2 n ∧
          i.toNat % 4 + 4 < op.addr.toNat % 4 + op.size then
        some (wordByte op.wdata (i.toNat % 4 + 4 - op.addr.toNat % 4))
      else none := by
  have hsize : op.size ≤ 4 := by
    obtain h | h | h := size_cases op <;> omega
  have hp : ∀ j, j < 4 → ((op.place n j == i) = true ↔
      (if op.addr.toNat % 4 + j < 4 then wordIdx n op.addr else wordIdx n (op.addr + 4#32))
          = i.extractLsb' 2 n ∧ (op.addr.toNat % 4 + j) % 4 = i.toNat % 4) := by
    intro j hj
    rw [beq_iff_eq]
    exact place_eq op hj i
  have ho : op.addr.toNat % 4 < 4 := Nat.mod_lt _ (by decide)
  have hk : i.toNat % 4 < 4 := Nat.mod_lt _ (by decide)
  rw [MemOp.storedByte, if_pos hwe]
  generalize op.addr.toNat % 4 = o at *
  generalize i.toNat % 4 = k at *
  split_ifs with h1 h2
  · obtain ⟨hw, hlo, hhi⟩ := h1
    have hfind : (List.range op.size).find? (fun j => op.place n j == i) = some (k - o) := by
      rw [List.find?_range_eq_some]
      refine ⟨(hp _ (by omega)).mpr ⟨?_, by omega⟩, List.mem_range.mpr (by omega), ?_⟩
      · rw [if_pos (by omega), hw]
      · intro j hj
        rw [Bool.not_eq_true', ← Bool.not_eq_true, hp j (by omega)]
        omega
    rw [hfind, Option.map_some]
  · obtain ⟨hw, hhi⟩ := h2
    have hfind : (List.range op.size).find? (fun j => op.place n j == i) = some (k + 4 - o) := by
      rw [List.find?_range_eq_some]
      refine ⟨(hp _ (by omega)).mpr ⟨?_, by omega⟩, List.mem_range.mpr (by omega), ?_⟩
      · rw [if_neg (by omega), hw]
      · intro j hj
        rw [Bool.not_eq_true', ← Bool.not_eq_true, hp j (by omega)]
        -- an earlier byte in the same lane would be one in the addressed word
        rintro ⟨hj', hl⟩
        split_ifs at hj' with hlt
        · exact h1 ⟨hj', by omega, by omega⟩
        · omega
    rw [hfind, Option.map_some]
  · rw [List.find?_range_eq_none.mpr, Option.map_none]
    intro j hj
    rw [Bool.not_eq_true', ← Bool.not_eq_true, hp j (by omega)]
    rintro ⟨hw, hl⟩
    split_ifs at hw with hlt
    · exact h1 ⟨hw, by omega, by omega⟩
    · exact h2 ⟨hw, by omega⟩

/-- The byte enables of an access, or of its first part. -/
theorem dataBe_first {s : Lsu} (x : LsuIn) (hm : s.handleMisalignedQ = false) {k : ℕ}
    (hk : k < 4) : (s.dataBe x).getLsbD k
      = (decide (x.dataOffset.toNat ≤ k)
        && decide (k < x.dataOffset.toNat + accessSize x.lsuType)) := by
  simp only [Lsu.dataBe, hm, Bool.false_eq_true, if_false]
  generalize x.dataOffset = o
  generalize x.lsuType = t
  revert t o k
  decide

/-- The byte enables of the second part. -/
theorem dataBe_second {s : Lsu} {x : LsuIn} (hm : s.handleMisalignedQ = true)
    (hs : x.splitMisalignedAccess = true) {k : ℕ} (hk : k < 4) : (s.dataBe x).getLsbD k
      = decide (k + 4 < x.dataOffset.toNat + accessSize x.lsuType) := by
  simp only [LsuIn.splitMisalignedAccess] at hs
  simp only [Lsu.dataBe, hm, if_true]
  generalize x.dataOffset = o at hs ⊢
  generalize x.lsuType = t at hs ⊢
  revert t o k
  decide

/-- A word with its high part moved to the low end. -/
theorem getLsbD_rotated (w : BitVec 32) {hi p : ℕ} (hhi : hi < 31) (hp : p < 32) :
    (w.extractLsb hi 0 ++ w.extractLsb 31 (hi + 1)).getLsbD p
        = w.getLsbD ((p + (hi + 1)) % 32) := by
  rw [BitVec.getLsbD_append]
  by_cases h : p < 31 - (hi + 1) + 1
  · have hm : (p + (hi + 1)) % 32 = hi + 1 + p := by omega
    simp only [hm, BitVec.extractLsb, BitVec.getLsbD_extractLsb', h, decide_true, Bool.true_and,
      if_true]
  · have hm : (p + (hi + 1)) % 32 = p - (31 - (hi + 1) + 1) := by omega
    have hlt : p - (31 - (hi + 1) + 1) < hi - 0 + 1 := by omega
    simp only [if_neg h, hm, BitVec.extractLsb, BitVec.getLsbD_extractLsb', hlt, decide_true,
      Bool.true_and, Nat.zero_add]

/-- The write data are rotated to their lanes. -/
theorem dataWdata_lane (x : LsuIn) {k : ℕ} (hk : k < 4) :
    wordByte x.dataWdata k = wordByte x.lsuWdata ((k + 4 - x.dataOffset.toNat) % 4) := by
  refine BitVec.eq_of_getLsbD_eq fun i hi => ?_
  have hp : 8 * k + i < 32 := by omega
  simp only [wordByte, BitVec.getLsbD_extractLsb', hi, decide_true, Bool.true_and, LsuIn.dataWdata]
  obtain h | h | h | h := offset_cases x.dataOffset <;> rw [h]
  · simp [Nat.mod_eq_of_lt hk]
  · refine (getLsbD_rotated x.lsuWdata (show 23 < 31 by decide) hp).trans (congrArg _ ?_)
    simp only [BitVec.toNat_ofNat]
    omega
  · refine (getLsbD_rotated x.lsuWdata (show 15 < 31 by decide) hp).trans (congrArg _ ?_)
    simp only [BitVec.toNat_ofNat]
    omega
  · refine (getLsbD_rotated x.lsuWdata (show 7 < 31 by decide) hp).trans (congrArg _ ?_)
    simp only [BitVec.toNat_ofNat]
    omega

/-! ### The requests of an access -/

/-- The request of the first or of the second part of an access. -/
structure IsPart (op : MemOp) (n : ℕ) (second : Bool) (x : RamIn) : Prop where
  req : x.req = true
  we : x.we = op.we
  idx : x.addrIdx n = wordIdx n (if second then op.addr + 4#32 else op.addr)
  be : ∀ k < 4, x.be.getLsbD k =
    if second then decide (k + 4 < op.addr.toNat % 4 + op.size)
    else decide (op.addr.toNat % 4 ≤ k) && decide (k < op.addr.toNat % 4 + op.size)
  wdata : ∀ k < 4, wordByte x.wdata k = wordByte op.wdata ((k + 4 - op.addr.toNat % 4) % 4)

/-- A request writes its lanes. -/
theorem bytesOf_store (W : BitVec n → BitVec 32) (x : RamIn) (i : BitVec (n + 2)) :
    bytesOf (ByteMem.store W x) i =
      if x.writes (i.extractLsb' 2 n) (i.toNat % 4) then wordByte x.wdata (i.toNat % 4)
      else bytesOf W i := by
  have hk : i.toNat % 4 < 4 := Nat.mod_lt _ (by decide)
  rw [bytesOf, ByteMem.store, wordByte_wordOfBytes _ hk]
  rfl

/-- An idle cycle and a read write nothing. -/
theorem store_of_not_writing (W : BitVec n → BitVec 32) (x : RamIn)
    (h : (x.req && x.we) = false) : ByteMem.store W x = W := by
  funext i
  refine word_ext fun k hk => ?_
  simp [ByteMem.store, wordByte_wordOfBytes _ hk, RamIn.writes, h]

/-- An access is not split where it stays in its word. -/
theorem split_eq_false_iff (op : MemOp) :
    op.load.split = false ↔ op.addr.toNat % 4 + op.size ≤ 4 := by
  have ho : op.load.offset.toNat = op.addr.toNat % 4 := by
    simp [Load.offset, MemOp.load, BitVec.extractLsb]
  rw [← ho, MemOp.size, Load.split]
  have ht : op.load.type = op.type := rfl
  rw [ht]
  generalize op.load.offset = o
  generalize op.type = t
  revert o t
  decide

/-- The first part of an access stores the bytes of the addressed word. -/
theorem bytesOf_store_first {op : MemOp} {x : RamIn} (hx : IsPart op n false x)
    (W : BitVec n → BitVec 32) (i : BitVec (n + 2)) :
    bytesOf (ByteMem.store W x) i =
      if op.we = true ∧ wordIdx n op.addr = i.extractLsb' 2 n ∧
          op.addr.toNat % 4 ≤ i.toNat % 4 ∧ i.toNat % 4 < op.addr.toNat % 4 + op.size then
        wordByte op.wdata (i.toNat % 4 - op.addr.toNat % 4)
      else bytesOf W i := by
  have hk : i.toNat % 4 < 4 := Nat.mod_lt _ (by decide)
  have hw : x.writes (i.extractLsb' 2 n) (i.toNat % 4) = true ↔
      op.we = true ∧ wordIdx n op.addr = i.extractLsb' 2 n ∧
        op.addr.toNat % 4 ≤ i.toNat % 4 ∧ i.toNat % 4 < op.addr.toNat % 4 + op.size := by
    simp only [RamIn.writes, hx.req, hx.we, hx.idx, hx.be _ hk, Bool.and_eq_true, beq_iff_eq,
      Bool.false_eq_true, if_false, decide_eq_true_iff]
    tauto
  rw [bytesOf_store]
  by_cases h : x.writes (i.extractLsb' 2 n) (i.toNat % 4) = true
  · obtain ⟨-, -, hle, -⟩ := hw.mp h
    have hlane : (i.toNat % 4 + 4 - op.addr.toNat % 4) % 4 = i.toNat % 4 - op.addr.toNat % 4 := by
      omega
    rw [if_pos h, if_pos (hw.mp h), hx.wdata _ hk, hlane]
  · rw [if_neg h, if_neg fun h' => h (hw.mpr h')]

/-- The second part stores those of the next word. -/
theorem bytesOf_store_second {op : MemOp} {x : RamIn} (hx : IsPart op n true x)
    (W : BitVec n → BitVec 32) (i : BitVec (n + 2)) :
    bytesOf (ByteMem.store W x) i =
      if op.we = true ∧ wordIdx n (op.addr + 4#32) = i.extractLsb' 2 n ∧
          i.toNat % 4 + 4 < op.addr.toNat % 4 + op.size then
        wordByte op.wdata (i.toNat % 4 + 4 - op.addr.toNat % 4)
      else bytesOf W i := by
  have hk : i.toNat % 4 < 4 := Nat.mod_lt _ (by decide)
  have ho : op.addr.toNat % 4 < 4 := Nat.mod_lt _ (by decide)
  have hsize : op.size ≤ 4 := by
    obtain h | h | h := size_cases op <;> rw [h] <;> decide
  have hw : x.writes (i.extractLsb' 2 n) (i.toNat % 4) = true ↔
      op.we = true ∧ wordIdx n (op.addr + 4#32) = i.extractLsb' 2 n ∧
        i.toNat % 4 + 4 < op.addr.toNat % 4 + op.size := by
    simp only [RamIn.writes, hx.req, hx.we, hx.idx, hx.be _ hk, Bool.and_eq_true, beq_iff_eq,
      if_true, decide_eq_true_iff]
    tauto
  rw [bytesOf_store]
  by_cases h : x.writes (i.extractLsb' 2 n) (i.toNat % 4) = true
  · obtain ⟨-, -, hlt⟩ := hw.mp h
    have hlane : (i.toNat % 4 + 4 - op.addr.toNat % 4) % 4
        = i.toNat % 4 + 4 - op.addr.toNat % 4 := by
      omega
    rw [if_pos h, if_pos (hw.mp h), hx.wdata _ hk, hlane]
  · rw [if_neg h, if_neg fun h' => h (hw.mpr h')]

/-- What an access leaves at a place. -/
theorem store_apply (op : MemOp) (m : BitVec (n + 2) → BitVec 8) (i : BitVec (n + 2)) :
    op.store m i =
      if op.we = true ∧ wordIdx n op.addr = i.extractLsb' 2 n ∧
          op.addr.toNat % 4 ≤ i.toNat % 4 ∧ i.toNat % 4 < op.addr.toNat % 4 + op.size then
        wordByte op.wdata (i.toNat % 4 - op.addr.toNat % 4)
      else if op.we = true ∧ wordIdx n (op.addr + 4#32) = i.extractLsb' 2 n ∧
          i.toNat % 4 + 4 < op.addr.toNat % 4 + op.size then
        wordByte op.wdata (i.toNat % 4 + 4 - op.addr.toNat % 4)
      else m i := by
  rw [MemOp.store]
  cases hwe : op.we with
  | false => simp [MemOp.storedByte, hwe]
  | true =>
      rw [storedByte_eq op hwe]
      simp only [true_and]
      split_ifs <;> rfl

/-- A request of one part is the whole access. -/
theorem bytesOf_single {op : MemOp} {x : RamIn} (hx : IsPart op n false x)
    (hs : op.load.split = false) (W : BitVec n → BitVec 32) :
    bytesOf (ByteMem.store W x) = op.store (bytesOf W) := by
  rw [split_eq_false_iff] at hs
  funext i
  have hno : ¬ (op.we = true ∧ wordIdx n (op.addr + 4#32) = i.extractLsb' 2 n ∧
      i.toNat % 4 + 4 < op.addr.toNat % 4 + op.size) := by
    rintro ⟨-, -, h⟩
    omega
  rw [bytesOf_store_first hx, store_apply, if_neg hno]

/-- Two requests make up a split access. -/
theorem bytesOf_split {op : MemOp} {x y : RamIn} (hx : IsPart op n false x)
    (hy : IsPart op n true y) (W : BitVec n → BitVec 32) :
    bytesOf (ByteMem.store (ByteMem.store W x) y) = op.store (bytesOf W) := by
  have hsize : op.size ≤ 4 := by
    obtain h | h | h := size_cases op <;> rw [h] <;> decide
  funext i
  rw [bytesOf_store_second hy, bytesOf_store_first hx, store_apply]
  by_cases h1 : op.we = true ∧ wordIdx n op.addr = i.extractLsb' 2 n ∧
      op.addr.toNat % 4 ≤ i.toNat % 4 ∧ i.toNat % 4 < op.addr.toNat % 4 + op.size
  · have hno : ¬ (op.we = true ∧ wordIdx n (op.addr + 4#32) = i.extractLsb' 2 n ∧
        i.toNat % 4 + 4 < op.addr.toNat % 4 + op.size) := by
      rintro ⟨-, -, h⟩
      omega
    rw [if_pos h1, if_neg hno, if_pos h1]
  · rw [if_neg h1, if_neg h1]

/-! ### The LSU, the RAM and ID -/

/-- What ID asks for in one cycle: whether a load or store is in its first cycle, and what
the decoder and the operands are. -/
structure MemIn where
  req : Bool
  op : MemOp

/-- The LSU and the RAM, with the access that ID holds since an earlier cycle. `age` counts
its cycles and `completed` lists the accesses before it; both are not registers. -/
structure LsuRam (a b : ℕ) where
  lsu : Lsu
  ram : Ram1pSecure a b
  op : Option MemOp
  age : ℕ
  completed : List MemOp

namespace LsuRam

variable {a b : ℕ} (s : LsuRam a b) (x : MemIn)

/-- The access in ID. -/
def opNow : MemOp := s.op.getD x.op

/-- `lsu_req_o` of ID: an access in its first cycle. -/
def lsuReq : Bool := s.op.isNone && x.req

/-- The result of the adder, with the operands for the second part of a split access. -/
def adderResultEx : BitVec 32 :=
  (if s.lsu.addrIncr then s.lsu.addrLastQ else (s.opNow x).base)
    + (if s.lsu.addrIncr then 4#32 else (s.opNow x).imm)

/-- `data_req_o`. -/
def dataReq : Bool := s.lsu.dataReqO (s.lsuReq x)

/-- The inputs of the LSU, those from the bus as the RAM gives them. -/
def lsuIn : LsuIn where
  lsuReq := s.lsuReq x
  lsuWe := (s.opNow x).we
  lsuType := (s.opNow x).type
  lsuSignExt := (s.opNow x).signExt
  lsuWdata := (s.opNow x).wdata
  adderResultEx := s.adderResultEx x
  dataGnt := s.dataReq x
  dataRvalid := s.ram.rvalid
  dataErr := false
  dataPmpErr := false
  dataRdata := s.ram.rdataO

/-- The inputs of the RAM. -/
def ramIn : RamIn where
  req := s.dataReq x
  we := (s.opNow x).we
  be := s.lsu.dataBe (s.lsuIn x)
  addr := (s.lsuIn x).dataAddr
  wdata := (s.lsuIn x).dataWdata

/-- The access is complete. -/
def respValid : Bool := s.lsu.lsuRespValid (s.lsuIn x)

/-- The value of a load is written back. -/
def rdataValid : Bool := s.lsu.lsuRdataValid (s.lsuIn x)

/-- The value written back. -/
def rdata : BitVec 32 := s.lsu.lsuRdata (s.lsuIn x)

/-- One clock edge. ID holds an access from its first cycle until it is complete. -/
def next : LsuRam a b where
  lsu := s.lsu.next (s.lsuIn x)
  ram := s.ram.next (s.ramIn x)
  op := if s.op.isSome then (if s.respValid x then none else s.op)
    else if x.req then some x.op else none
  age := if s.op.isSome then s.age + 1 else 1
  completed := if s.op.isSome && s.respValid x then s.completed ++ s.op.toList else s.completed

/-- After a reset, with any contents of the RAM. -/
def start (r : Ram1pSecure a b) : LsuRam a b := ⟨.reset, r.reset, none, 0, []⟩

/-- ID issues an access in this cycle: it holds none and has one in its first cycle. -/
def issuesNow : List MemOp := if s.op.isNone && x.req then [x.op] else []

/-- The accesses that ID issues in the course of a run, the earliest first. This list is read off
the inputs of the run and is no part of the state. -/
def issued : LsuRam a b → List MemIn → List MemOp
  | _, [] => []
  | s, x :: ins => s.issuesNow x ++ issued (s.next x) ins

/-! ### The phases of an access -/

/-- The LSU has nothing left of an access but its control registers. -/
structure Idle (l : Lsu) : Prop where
  lsFsm : l.lsFsm = .idle
  handleMisalignedQ : l.handleMisalignedQ = false
  pmpErrQ : l.pmpErrQ = false
  lsuErrQ : l.lsuErrQ = false

/-- The control registers are those of the access. -/
structure HoldsOp (op : MemOp) (l : Lsu) : Prop where
  rdataOffsetQ : l.rdataOffsetQ = op.load.offset
  dataTypeQ : l.dataTypeQ = op.type
  dataSignExtQ : l.dataSignExtQ = op.signExt
  dataWeQ : l.dataWeQ = op.we

/-- The LSU between the two requests of a split access, or after both of them. -/
structure Splitting (op : MemOp) (st : LsFsm) (misaligned : Bool) (l : Lsu) : Prop where
  lsFsm : l.lsFsm = st
  handleMisalignedQ : l.handleMisalignedQ = misaligned
  pmpErrQ : l.pmpErrQ = false
  lsuErrQ : l.lsuErrQ = false
  addrLastQ : l.addrLastQ = op.addr
  holds : HoldsOp op l

/-- The RAM has no request left and its bytes are `m`. -/
structure Settled (m : BitVec (a + b + 2) → BitVec 8) (r : Ram1pSecure a b) : Prop where
  ohInReg : OneHot.anyOf r.ohInReg = false
  words : bytesOf r.words = m
  pendingWords : bytesOf r.pendingWords = m

/-- The RAM answers with the word at `adr`, when it was asked for it. -/
structure Answers (op : MemOp) (m : BitVec (a + b + 2) → BitVec 8) (adr : BitVec 32)
    (r : Ram1pSecure a b) : Prop where
  rvalid : r.rvalid = true
  rdata : op.we = false → r.rdataO = memWord (MemOp.view m) (alignedAddr adr)

/-- The phases of an access. An access of one part takes two cycles after its first, a split
one takes three. -/
inductive Inv (m : BitVec (a + b + 2) → BitVec 8) : LsuRam a b → Prop
  | idle {l : Lsu} {r : Ram1pSecure a b} {age : ℕ} {ops : List MemOp}
      (hl : Idle l) (hv : r.rvalid = false)
      (hr : Settled (MemOp.memAfter m ops) r) : Inv m ⟨l, r, none, age, ops⟩
  | single1 {l : Lsu} {r : Ram1pSecure a b} {x : RamIn} {op : MemOp} {ops : List MemOp}
      (hs : op.load.split = false) (hl : Idle l) (ho : HoldsOp op l)
      (hx : IsPart op (a + b) false x) (hv : OneHot.anyOf r.ohInReg = false)
      (hr : bytesOf r.pendingWords = MemOp.memAfter m ops) :
      Inv m ⟨l, r.next x, some op, 1, ops⟩
  | single2 {l : Lsu} {r : Ram1pSecure a b} {op : MemOp} {ops : List MemOp}
      (hs : op.load.split = false) (hl : Idle l) (ho : HoldsOp op l)
      (ha : Answers op (MemOp.memAfter m ops) op.addr r)
      (hr : Settled (op.store (MemOp.memAfter m ops)) r) : Inv m ⟨l, r, some op, 2, ops⟩
  | split1 {l : Lsu} {r : Ram1pSecure a b} {x : RamIn} {op : MemOp} {ops : List MemOp}
      (hs : op.load.split = true) (hl : Splitting op .waitRvalidMis true l)
      (hx : IsPart op (a + b) false x) (hv : OneHot.anyOf r.ohInReg = false)
      (hr : bytesOf r.pendingWords = MemOp.memAfter m ops) :
      Inv m ⟨l, r.next x, some op, 1, ops⟩
  | split2 {l : Lsu} {r : Ram1pSecure a b} {x y : RamIn} {op : MemOp} {ops : List MemOp}
      (hs : op.load.split = true)
      (hl : Splitting op .waitRvalidMisGntsDone false l) (hx : IsPart op (a + b) false x)
      (hy : IsPart op (a + b) true y) (hr : bytesOf r.pendingWords = MemOp.memAfter m ops)
      (ha : Answers op (MemOp.memAfter m ops) op.addr ((r.next x).next y)) :
      Inv m ⟨l, (r.next x).next y, some op, 2, ops⟩
  | split3 {l : Lsu} {r : Ram1pSecure a b} {op : MemOp} {ops : List MemOp}
      (hs : op.load.split = true) (hl : Idle l) (ho : HoldsOp op l)
      (hq : op.we = false → l.rdataQ
        = (memWord (MemOp.view (MemOp.memAfter m ops)) (alignedAddr op.addr)).extractLsb 31 8)
      (ha : Answers op (MemOp.memAfter m ops) (op.addr + 4#32) r)
      (hr : Settled (op.store (MemOp.memAfter m ops)) r) : Inv m ⟨l, r, some op, 3, ops⟩

/-! ### The RAM in a phase -/

variable {m : BitVec (a + b + 2) → BitVec 8}

/-- Without a request the RAM stays settled. -/
theorem Settled.next {r : Ram1pSecure a b} (h : Settled m r) {x : RamIn} (hx : x.req = false) :
    Settled m (r.next x) ∧ (r.next x).rvalid = false where
  left :=
    { ohInReg := by rw [Ram1pSecure.anyOf_ohInReg_next, hx]
      words := by rw [Ram1pSecure.words_next, h.pendingWords]
      pendingWords := by
        rw [Ram1pSecure.pendingWords_next, store_of_not_writing _ _ (by simp [hx]),
          h.pendingWords] }
  right := h.ohInReg

/-- A read gets the word as the earlier requests have left it. -/
theorem answers_next {op : MemOp} {second : Bool} {r : Ram1pSecure a b} {x : RamIn}
    (hx : IsPart op (a + b) second x) (hr : op.we = false → bytesOf r.pendingWords = m)
    (y : RamIn) :
    Answers op m (if second then op.addr + 4#32 else op.addr) ((r.next x).next y) where
  rvalid := (Ram1pSecure.rvalid_next_next r x y).trans hx.req
  rdata hwe := by
    rw [Ram1pSecure.rdataO_next_next r x y hx.req, hx.we, hwe, hx.idx, ← hr hwe, memWord_view]
    rfl

/-! ### The LSU in a phase -/

variable {s : LsuRam a b} {x : MemIn}

/-- The offset in the word is the address modulo four. -/
theorem offset_eq {adr : BitVec 32} {y : LsuIn} (h : y.adderResultEx = adr) :
    y.dataOffset.toNat = adr.toNat % 4 := by
  simp [LsuIn.dataOffset, h, BitVec.extractLsb]

/-- The RAM is addressed by the word of the address. -/
theorem addrIdx_dataAddr {adr : BitVec 32} {y : LsuIn} (h : y.adderResultEx = adr) :
    (y.dataAddr).extractLsb' 2 n = wordIdx n adr := by
  have hal : y.dataAddr.toNat = adr.toNat / 4 * 4 := by
    have ha := adr.isLt
    rw [LsuIn.dataAddr, h]
    refine (Bits.toNat_append_eq (adr.extractLsb 31 2) 0b00#2).trans ?_
    simp [Nat.shiftRight_eq_div_pow]
    omega
  refine BitVec.eq_of_toNat_eq ?_
  simp only [wordIdx, BitVec.extractLsb'_toNat, Nat.shiftRight_eq_div_pow, hal]
  congr 1
  omega

/-- The request for the first part. -/
theorem isPart_first {op : MemOp} (hreq : s.dataReq x = true) (hop : s.opNow x = op)
    (hm : s.lsu.handleMisalignedQ = false) (ha : s.adderResultEx x = op.addr) :
    IsPart op n false (s.ramIn x) where
  req := hreq
  we := congrArg MemOp.we hop
  idx := addrIdx_dataAddr ha
  be k hk := by
    have ho : (s.lsuIn x).dataOffset.toNat = _ := offset_eq ha
    have ht : (s.lsuIn x).lsuType = op.type := congrArg MemOp.type hop
    have hbe := dataBe_first (s.lsuIn x) hm hk
    rw [ho, ht] at hbe
    exact hbe
  wdata k hk := by
    have ho : (s.lsuIn x).dataOffset.toNat = _ := offset_eq ha
    have hw : (s.lsuIn x).lsuWdata = op.wdata := congrArg MemOp.wdata hop
    simp only [ramIn, dataWdata_lane _ hk, ho, hw]

/-- The LSU splits what crosses the end of its word. -/
theorem splitMisaligned_iff {op : MemOp} {y : LsuIn} (ht : y.lsuType = op.type)
    (ho : y.dataOffset = op.load.offset) : y.splitMisalignedAccess = op.load.split := by
  rw [LsuIn.splitMisalignedAccess, ht, ho]
  rfl

/-- The request for the second part. -/
theorem isPart_second {op : MemOp} (hreq : s.dataReq x = true) (hop : s.opNow x = op)
    (hs : op.load.split = true) (hm : s.lsu.handleMisalignedQ = true)
    (ha : s.adderResultEx x = op.addr + 4#32) : IsPart op n true (s.ramIn x) where
  req := hreq
  we := congrArg MemOp.we hop
  idx := addrIdx_dataAddr ha
  be k hk := by
    have ho : (s.lsuIn x).dataOffset = op.load.offset := by
      rw [LsuIn.dataOffset, show (s.lsuIn x).adderResultEx = _ from ha]
      exact offset_add_four op.addr
    have hon : (s.lsuIn x).dataOffset.toNat = op.addr.toNat % 4 := by
      rw [ho]
      simp [Load.offset, MemOp.load, BitVec.extractLsb]
    have ht : (s.lsuIn x).lsuType = op.type := congrArg MemOp.type hop
    have hsp : (s.lsuIn x).splitMisalignedAccess = true := (splitMisaligned_iff ht ho).trans hs
    have hbe := dataBe_second hm hsp hk
    rw [hon, ht] at hbe
    exact hbe
  wdata k hk := by
    have ho : (s.lsuIn x).dataOffset.toNat = _ := offset_eq ha
    have hmod : (op.addr + 4#32).toNat % 4 = op.addr.toNat % 4 := by
      simp only [BitVec.toNat_add, BitVec.toNat_ofNat]
      omega
    have hw : (s.lsuIn x).lsuWdata = op.wdata := congrArg MemOp.wdata hop
    simp only [ramIn, dataWdata_lane _ hk, ho, hw, hmod]

/-! ### Steps of the LSU -/

/-- An idle LSU without a request keeps its control registers. -/
theorem Idle.next {l : Lsu} (h : Idle l) {y : LsuIn} (hq : y.lsuReq = false) :
    Idle (l.next y) ∧ ∀ op, HoldsOp op l → HoldsOp op (l.next y) := by
  obtain ⟨hf, hm, hp, he⟩ := h
  refine ⟨⟨?_, ?_, ?_, ?_⟩, ?_⟩
  case refine_5 =>
    rintro op ⟨ho, ht, hsg, hwe⟩
    constructor <;> simp [Lsu.next, Lsu.step, hf, hq, ho, ht, hsg, hwe]
  all_goals simp [Lsu.next, Lsu.step, hf, hq, hm, he]

/-- The LSU takes a new access. -/
theorem Idle.start {l : Lsu} (h : Idle l) {y : LsuIn} {op : MemOp} (hq : y.lsuReq = true)
    (hg : y.dataGnt = true) (hp : y.dataPmpErr = false) (hwe : y.lsuWe = op.we)
    (ht : y.lsuType = op.type) (hsg : y.lsuSignExt = op.signExt)
    (ha : y.adderResultEx = op.addr) :
    (op.load.split = false → Idle (l.next y) ∧ HoldsOp op (l.next y)) ∧
      (op.load.split = true → Splitting op .waitRvalidMis true (l.next y)) := by
  obtain ⟨hf, -, -, -⟩ := h
  have ho : y.dataOffset = op.load.offset := by
    rw [LsuIn.dataOffset, ha]
    rfl
  have hs := splitMisaligned_iff ht ho
  refine ⟨fun hn => ⟨⟨?_, ?_, ?_, ?_⟩, ⟨?_, ?_, ?_, ?_⟩⟩,
    fun hn => ⟨?_, ?_, ?_, ?_, ?_, ?_, ?_, ?_, ?_⟩⟩ <;>
    simp [Lsu.next, Lsu.step, hf, hq, hg, hp, hs, hn, hwe, ht, hsg, ha, ho]

/-- The second request is granted before the first answer. -/
theorem Splitting.request {l : Lsu} {op : MemOp} (h : Splitting op .waitRvalidMis true l)
    {y : LsuIn} (hg : y.dataGnt = true) (hr : y.dataRvalid = false) :
    Splitting op .waitRvalidMisGntsDone false (l.next y) := by
  obtain ⟨hf, hm, hp, he, ha, ho, ht, hsg, hwe⟩ := h
  refine ⟨?_, ?_, ?_, ?_, ?_, ?_, ?_, ?_, ?_⟩ <;>
    simp [Lsu.next, Lsu.step, hf, hp, he, hg, hr, ha, ho, ht, hsg, hwe]

/-- The first answer comes, and a load keeps it. -/
theorem Splitting.answer {l : Lsu} {op : MemOp}
    (h : Splitting op .waitRvalidMisGntsDone false l) {y : LsuIn} (hr : y.dataRvalid = true)
    (hye : y.dataErr = false) (hyp : y.dataPmpErr = false) :
    Idle (l.next y) ∧ HoldsOp op (l.next y) ∧
      (op.we = false → (l.next y).rdataQ = y.dataRdata.extractLsb 31 8) := by
  obtain ⟨hf, hm, hp, he, ha, ho, ht, hsg, hwe⟩ := h
  refine ⟨⟨?_, ?_, ?_, ?_⟩, ⟨?_, ?_, ?_, ?_⟩, fun hn => ?_⟩ <;>
    simp_all [Lsu.next, Lsu.step]

/-! ### Every run -/

/-- Without an answer of the RAM there is no response to ID. -/
theorem not_respValid_of_rvalid {l : Lsu} {y : LsuIn} (hr : y.dataRvalid = false)
    (hp : l.pmpErrQ = false) : l.lsuRespValid y = false := by
  simp [Lsu.lsuRespValid, hr, hp]

/-- **Step lemma.** Every cycle goes on to the next phase. -/
theorem inv_next (h : Inv m s) (x : MemIn) : Inv m (s.next x) := by
  cases h with
  | @idle l r age ops hl hv hr =>
      cases hreq : x.req with
      | false =>
          have hd : LsuRam.dataReq ⟨l, r, none, age, ops⟩ x = false := by
            simp [dataReq, lsuReq, Lsu.dataReqO, hl.lsFsm, hreq]
          have hl' := (hl.next (y := lsuIn ⟨l, r, none, age, ops⟩ x)
              (by simp [lsuIn, lsuReq, hreq])).1
          obtain ⟨hr', hv'⟩ := hr.next (x := ramIn ⟨l, r, none, age, ops⟩ x) hd
          simpa [next, hreq] using Inv.idle hl' hv' hr'
      | true =>
          have hd : LsuRam.dataReq ⟨l, r, none, age, ops⟩ x = true := by
            simp [dataReq, lsuReq, Lsu.dataReqO, hl.lsFsm, hreq]
          have ha : LsuRam.adderResultEx ⟨l, r, none, age, ops⟩ x = x.op.addr := by
            simp [adderResultEx, Lsu.addrIncr, hl.lsFsm, opNow, MemOp.addr]
          have hx := isPart_first (n := a + b) hd rfl hl.handleMisalignedQ ha
          obtain ⟨h1, h2⟩ := hl.start (y := lsuIn ⟨l, r, none, age, ops⟩ x)
            (by simp [lsuIn, lsuReq, hreq]) hd rfl rfl rfl rfl ha
          cases hs : x.op.load.split with
          | false =>
              obtain ⟨hl', ho'⟩ := h1 hs
              simpa [next, hreq] using Inv.single1 hs hl' ho' hx hr.ohInReg hr.pendingWords
          | true => simpa [next, hreq] using Inv.split1 hs (h2 hs) hx hr.ohInReg hr.pendingWords
  | @single1 l r z op ops hs hl ho hz hv hr =>
      have hd : LsuRam.dataReq ⟨l, r.next z, some op, 1, ops⟩ x = false := by
        simp [dataReq, lsuReq, Lsu.dataReqO, hl.lsFsm]
      obtain ⟨hl', ho'⟩ := hl.next (y := lsuIn ⟨l, r.next z, some op, 1, ops⟩ x) rfl
      have hn : respValid ⟨l, r.next z, some op, 1, ops⟩ x = false :=
        not_respValid_of_rvalid hv hl.pmpErrQ
      have hst : Settled (op.store (MemOp.memAfter m ops))
          ((r.next z).next (ramIn ⟨l, r.next z, some op, 1, ops⟩ x)) := by
        have hb : bytesOf (r.next z).pendingWords = op.store (MemOp.memAfter m ops) := by
          rw [Ram1pSecure.pendingWords_next, bytesOf_single hz hs, hr]
        refine ⟨?_, hb, ?_⟩
        · rw [Ram1pSecure.anyOf_ohInReg_next]
          exact hd
        · rw [Ram1pSecure.pendingWords_next, store_of_not_writing _ _ (by simp [ramIn, hd]), hb]
      simpa [next, hn] using Inv.single2 hs hl' (ho' op ho) (answers_next hz (fun _ => hr) _) hst
  | @single2 l r op ops hs hl ho ha hr =>
      have hd : LsuRam.dataReq ⟨l, r, some op, 2, ops⟩ x = false := by
        simp [dataReq, lsuReq, Lsu.dataReqO, hl.lsFsm]
      have hl' := (hl.next (y := lsuIn ⟨l, r, some op, 2, ops⟩ x) rfl).1
      have hv : respValid ⟨l, r, some op, 2, ops⟩ x = true := by
        simp [respValid, Lsu.lsuRespValid, lsuIn, ha.rvalid, hl.lsFsm]
      obtain ⟨hr', hv'⟩ := hr.next (x := ramIn ⟨l, r, some op, 2, ops⟩ x) hd
      rw [← MemOp.memAfter_concat] at hr'
      simpa [next, hv] using Inv.idle hl' hv' hr'
  | @split1 l r z op ops hs hl hz hv hr =>
      have hd : LsuRam.dataReq ⟨l, r.next z, some op, 1, ops⟩ x = true := by
        simp [dataReq, Lsu.dataReqO, hl.lsFsm]
      have ha : LsuRam.adderResultEx ⟨l, r.next z, some op, 1, ops⟩ x = op.addr + 4#32 := by
        simp [adderResultEx, Lsu.addrIncr, hl.lsFsm, hl.addrLastQ]
      have hy := isPart_second (n := a + b) hd rfl hs hl.handleMisalignedQ ha
      have hl' := hl.request (y := lsuIn ⟨l, r.next z, some op, 1, ops⟩ x) hd hv
      have hn : respValid ⟨l, r.next z, some op, 1, ops⟩ x = false :=
        not_respValid_of_rvalid hv hl.pmpErrQ
      simpa [next, hn] using Inv.split2 hs hl' hz hy hr (answers_next hz (fun _ => hr) _)
  | @split2 l r z y op ops hs hl hz hy hr ha =>
      have hd : LsuRam.dataReq ⟨l, (r.next z).next y, some op, 2, ops⟩ x = false := by
        simp [dataReq, Lsu.dataReqO, hl.lsFsm]
      have hn : respValid ⟨l, (r.next z).next y, some op, 2, ops⟩ x = false := by
        simp [respValid, Lsu.lsuRespValid, hl.lsFsm]
      obtain ⟨hl', ho', hq'⟩ := hl.answer
        (y := lsuIn ⟨l, (r.next z).next y, some op, 2, ops⟩ x) ha.rvalid rfl rfl
      have hb : bytesOf ((r.next z).next y).pendingWords = op.store (MemOp.memAfter m ops) := by
        rw [Ram1pSecure.pendingWords_next, Ram1pSecure.pendingWords_next, bytesOf_split hz hy, hr]
      have hst : Settled (op.store (MemOp.memAfter m ops))
          (((r.next z).next y).next (ramIn ⟨l, (r.next z).next y, some op, 2, ops⟩ x)) := by
        refine ⟨?_, hb, ?_⟩
        · rw [Ram1pSecure.anyOf_ohInReg_next]
          exact hd
        · rw [Ram1pSecure.pendingWords_next, store_of_not_writing _ _ (by simp [ramIn, hd]), hb]
      have hread : op.we = false → bytesOf (r.next z).pendingWords = MemOp.memAfter m ops := by
        intro hwe
        rw [Ram1pSecure.pendingWords_next, store_of_not_writing _ _ (by simp [hz.we, hwe]), hr]
      have hq : op.we = false → (l.next (lsuIn ⟨l, (r.next z).next y, some op, 2, ops⟩ x)).rdataQ
          = (memWord (MemOp.view (MemOp.memAfter m ops))
            (alignedAddr op.addr)).extractLsb 31 8 := by
        intro hwe
        rw [hq' hwe, ← ha.rdata hwe]
        rfl
      simpa [next, hn] using Inv.split3 hs hl' ho' hq (answers_next hy hread _) hst
  | @split3 l r op ops hs hl ho hq ha hr =>
      have hd : LsuRam.dataReq ⟨l, r, some op, 3, ops⟩ x = false := by
        simp [dataReq, lsuReq, Lsu.dataReqO, hl.lsFsm]
      have hl' := (hl.next (y := lsuIn ⟨l, r, some op, 3, ops⟩ x) rfl).1
      have hv : respValid ⟨l, r, some op, 3, ops⟩ x = true := by
        simp [respValid, Lsu.lsuRespValid, lsuIn, ha.rvalid, hl.lsFsm]
      obtain ⟨hr', hv'⟩ := hr.next (x := ramIn ⟨l, r, some op, 3, ops⟩ x) hd
      rw [← MemOp.memAfter_concat] at hr'
      simpa [next, hv] using Inv.idle hl' hv' hr'

/-- The first phase of every run. -/
theorem inv_start (r : Ram1pSecure a b) : Inv (bytesOf r.words) (start r) := by
  refine Inv.idle ⟨rfl, rfl, rfl, rfl⟩ rfl ⟨OneHot.anyOf_const_false, rfl, ?_⟩
  rw [Ram1pSecure.pendingWords_reset]
  rfl

/-- The control registers of a load in the words of the LSU. -/
theorem HoldsOp.ctrl {op : MemOp} {l : Lsu} (h : HoldsOp op l) (hwe : op.we = false) :
    HoldsCtrl op.load l :=
  ⟨h.rdataOffsetQ, h.dataTypeQ, h.dataSignExtQ, h.dataWeQ.trans hwe⟩

/-- The answer of an access, by its phase. -/
theorem answer_of_inv (h : Inv m s) (x : MemIn) {op : MemOp} (hop : s.op = some op) :
    (s.respValid x = true ↔ s.age = op.latency) ∧ 1 ≤ s.age ∧ s.age ≤ op.latency ∧
      (s.respValid x = true → s.rdataValid x = !op.we) ∧
      (s.rdataValid x = true → s.respValid x = true ∧
        s.rdata x = op.value (MemOp.memAfter m s.completed)) := by
  rw [MemOp.latency]
  have hval : s.rdataValid x = (s.lsu.lsFsm == .idle && s.ram.rvalid
      && !s.lsu.dataOrPmpErr (s.lsuIn x) && !s.lsu.dataWeQ) := rfl
  have hresp : s.respValid x = ((s.ram.rvalid || s.lsu.pmpErrQ) && s.lsu.lsFsm == .idle) := rfl
  cases h with
  | idle => cases hop
  | @single1 l r z op' ops hs hl ho hz hv hr =>
      obtain rfl : op' = op := Option.some.inj hop
      have hrv : (r.next z).rvalid = false := hv
      simp [hval, hresp, hs, hrv, hl.pmpErrQ]
  | @single2 l r op' ops hs hl ho ha hr =>
      obtain rfl : op' = op := Option.some.inj hop
      have herr : l.dataOrPmpErr (lsuIn ⟨l, r, some op', 2, ops⟩ x) = false := by
        simp [Lsu.dataOrPmpErr, lsuIn, hl.lsuErrQ, hl.pmpErrQ]
      simp only [hval, hresp, hs, ha.rvalid, hl.lsFsm, herr, ho.dataWeQ]
      refine ⟨by simp, by simp, by simp, by simp, fun hwe => ⟨by simp, ?_⟩⟩
      have hwe' : op'.we = false := by simpa using hwe
      exact lsuRdata_single (ho.ctrl hwe') hs (ha.rdata hwe')
  | @split1 l r z op' ops hs hl hz hv hr =>
      obtain rfl : op' = op := Option.some.inj hop
      simp [hval, hresp, hs, hl.lsFsm]
  | @split2 l r z y op' ops hs hl hz hy hr ha =>
      obtain rfl : op' = op := Option.some.inj hop
      simp [hval, hresp, hs, hl.lsFsm]
  | @split3 l r op' ops hs hl ho hq ha hr =>
      obtain rfl : op' = op := Option.some.inj hop
      have herr : l.dataOrPmpErr (lsuIn ⟨l, r, some op', 3, ops⟩ x) = false := by
        simp [Lsu.dataOrPmpErr, lsuIn, hl.lsuErrQ, hl.pmpErrQ]
      simp only [hval, hresp, hs, ha.rvalid, hl.lsFsm, herr, ho.dataWeQ]
      refine ⟨by simp, by simp, by simp, by simp, fun hwe => ⟨by simp, ?_⟩⟩
      have hwe' : op'.we = false := by simpa using hwe
      exact lsuRdata_split_kept (ho.ctrl hwe') hs (ha.rdata hwe') (hq hwe')

/-! ### The history of the accesses -/

/-- **Step lemma.** Between two accesses ID takes the next one, which is then in its second
cycle; nothing else is completed. -/
theorem next_of_idle (hop : s.op = none) :
    (s.next x).op = (if x.req then some x.op else none) ∧ (s.next x).age = 1 ∧
      (s.next x).completed = s.completed := by
  simp [next, hop]

/-- **Step lemma.** An access stays in ID until its response, with which it is completed. -/
theorem next_of_held {op : MemOp} (hop : s.op = some op) :
    (s.next x).op = (if s.respValid x then none else some op) ∧ (s.next x).age = s.age + 1 ∧
      (s.next x).completed = (if s.respValid x then s.completed ++ [op] else s.completed) := by
  simp [next, hop]

/-- What is completed or held is what was so before, with the access that is issued. -/
theorem history_next (s : LsuRam a b) (x : MemIn) :
    (s.next x).completed ++ (s.next x).op.toList
      = s.completed ++ s.op.toList ++ s.issuesNow x := by
  cases hop : s.op with
  | none =>
      obtain ⟨ho, -, hc⟩ := next_of_idle (x := x) hop
      rw [ho, hc, issuesNow, hop]
      cases x.req <;> simp
  | some op =>
      obtain ⟨ho, -, hc⟩ := next_of_held (x := x) hop
      rw [ho, hc, issuesNow, hop]
      cases s.respValid x <;> simp

/-- No access is lost, doubled or overtaken: what a run has completed and still holds is what
it began with, followed by the accesses that were issued on the way. -/
theorem history_run (s : LsuRam a b) (ins : List MemIn) :
    (Machine.run next s ins).completed ++ (Machine.run next s ins).op.toList
      = s.completed ++ s.op.toList ++ issued s ins := by
  induction ins generalizing s with
  | nil => simp [issued]
  | cons x ins ih =>
      rw [Machine.run_cons, ih, history_next, issued, List.append_assoc _ _ (issued _ _)]

/-- An access that is held is completed in the cycle of its latency, whatever comes until then. -/
theorem completes (h : Inv m s) {op : MemOp} (hop : s.op = some op) {ys : List MemIn}
    (hlen : s.age + ys.length = op.latency + 1) :
    (Machine.run next s ys).op = none ∧
      (Machine.run next s ys).completed = s.completed ++ [op] := by
  induction ys generalizing s with
  | nil =>
      obtain ⟨-, -, hle, -⟩ := answer_of_inv h ⟨false, op⟩ hop
      rw [List.length_nil] at hlen
      omega
  | cons y ys ih =>
      obtain ⟨hresp, -, -, -⟩ := answer_of_inv h y hop
      obtain ⟨ho, hage, hc⟩ := next_of_held (x := y) hop
      rw [List.length_cons] at hlen
      rw [Machine.run_cons]
      cases hv : s.respValid y with
      | true =>
          have hys : ys = [] := by
            have := hresp.mp hv
            exact List.eq_nil_of_length_eq_zero (by omega)
          rw [hv] at ho hc
          subst hys
          exact ⟨ho, hc⟩
      | false =>
          rw [hv] at ho hc
          obtain ⟨hn, hcn⟩ := ih (inv_next h y) ho (by omega)
          exact ⟨hn, hcn.trans (by rw [hc]; rfl)⟩

/-- **The LSU on the secure RAM is a memory of bytes.** For every size of the RAM, all its
contents and every run in which ID issues loads and stores one after the other, with any other
instructions between them:

* what is completed, and what ID holds, are the accesses issued so far in their order;
* an access that is issued is completed after its latency, two cycles after its first when it
  is not split and three when it is, and it stays in ID until then;
* a load writes back, then and only then, the value of the bytes stored last at its addresses,
  and a store writes nothing back;
* between the accesses the RAM has just the bytes stored so far. -/
theorem lsu_ram_bytes (r : Ram1pSecure a b) (ins : List MemIn) (x : MemIn) :
    let s := Machine.run next (start r) ins
    let m := MemOp.memAfter (bytesOf r.words) s.completed
    s.completed ++ s.op.toList = issued (start r) ins ∧
    (s.op = none →
      s.rdataValid x = false ∧ bytesOf s.ram.words = m ∧
      (x.req = true → (s.next x).op = some x.op ∧ (s.next x).age = 1 ∧
        ∀ ys, ys.length = x.op.latency →
          (Machine.run next (s.next x) ys).op = none ∧
          (Machine.run next (s.next x) ys).completed = s.completed ++ [x.op])) ∧
    (∀ op, s.op = some op →
      (s.respValid x = true ↔ s.age = op.latency) ∧ 1 ≤ s.age ∧ s.age ≤ op.latency ∧
      (s.respValid x = false → (s.next x).op = some op ∧ (s.next x).age = s.age + 1 ∧
        (s.next x).completed = s.completed) ∧
      (s.respValid x = true → (s.next x).op = none ∧
        (s.next x).completed = s.completed ++ [op]) ∧
      (s.respValid x = true → s.rdataValid x = !op.we) ∧
      (s.rdataValid x = true → s.respValid x = true ∧ s.rdata x = op.value m)) := by
  intro s m
  have hinv : Inv (bytesOf r.words) s :=
    Machine.run_invariant (Inv (bytesOf r.words)) (fun s x h => inv_next h x) ins (inv_start r)
  refine ⟨history_run (start r) ins, fun hop => ⟨?_, ?_, fun hreq => ?_⟩, fun op hop => ?_⟩
  · have hval : s.rdataValid x = (s.lsu.lsFsm == .idle && s.ram.rvalid
        && !s.lsu.dataOrPmpErr (s.lsuIn x) && !s.lsu.dataWeQ) := rfl
    rw [hval]
    clear_value s
    cases hinv with
    | idle hl hv hr => simp [hv]
    | _ => cases hop
  · clear_value s
    cases hinv with
    | idle hl hv hr => exact hr.words
    | _ => cases hop
  · obtain ⟨ho, hage, hc⟩ := next_of_idle (x := x) hop
    rw [if_pos hreq] at ho
    refine ⟨ho, hage, fun ys hys => ?_⟩
    rw [← hc]
    exact completes (inv_next hinv x) ho (by omega)
  · obtain ⟨hresp, hone, hle, hload, hval⟩ := answer_of_inv hinv x hop
    obtain ⟨ho, hage, hc⟩ := next_of_held (x := x) hop
    refine ⟨hresp, hone, hle, fun hn => ?_, fun hv => ?_, hload, hval⟩
    · rw [hn] at ho hc
      exact ⟨ho, hage, hc⟩
    · rw [hv] at ho hc
      exact ⟨ho, hc⟩

/-- A RAM of eight words whose bytes are all `0x11`. -/
def filled : Ram1pSecure 1 2 where
  mem := fun _ _ => 0x11111111#32
  ohInReg := fun _ => false
  interBlockAddrStage1 := 0#2
  interBlockAddrReg := 0#2
  gnt := false
  we := false
  wdata := 0#32
  be := 0#4
  rdataOr := fun _ => 0#32
  rvalid := false

/-- `sw` to address 3, a store in two parts. -/
def splitStore : MemOp := ⟨true, 0b00#2, false, 1#32, 2#32, 0xAABBCCDD#32⟩

/-- `lw` from address 5, a load in two parts. -/
def splitLoad : MemOp := ⟨false, 0b00#2, false, 4#32, 1#32, 0#32⟩

/-- The store, its three cycles, and the load up to its last one. -/
def splitTrace : List MemIn :=
  [⟨true, splitStore⟩, ⟨false, splitLoad⟩, ⟨false, splitLoad⟩, ⟨false, splitLoad⟩,
    ⟨true, splitLoad⟩, ⟨false, splitStore⟩, ⟨false, splitStore⟩]

/-- The load gets the two upper bytes of the stored word, and two bytes that were there before;
it is completed behind the store. -/
theorem lsu_ram_bytes_split :
    let s := Machine.run next (start filled) splitTrace
    s.completed = [splitStore] ∧ s.op = some splitLoad ∧
      s.rdataValid ⟨false, splitStore⟩ = true ∧
      s.rdata ⟨false, splitStore⟩ = 0x1111AABB#32 ∧
      (s.next ⟨false, splitStore⟩).completed = [splitStore, splitLoad] := by
  intro s
  obtain ⟨-, -, hheld⟩ := lsu_ram_bytes filled splitTrace ⟨false, splitStore⟩
  have hop : s.op = some splitLoad := by decide +kernel
  have hdone : s.completed = [splitStore] := by decide +kernel
  have hage : s.age = splitLoad.latency := by decide +kernel
  obtain ⟨hresp, -, -, -, hnext, hload, hval⟩ := hheld splitLoad hop
  have hvalid : s.rdataValid ⟨false, splitStore⟩ = true := hload (hresp.mpr hage)
  refine ⟨hdone, hop, hvalid, ?_, ?_⟩
  · rw [(hval hvalid).2, show (Machine.run next (start filled) splitTrace).completed = _ from hdone]
    decide +kernel
  · rw [(hnext (hresp.mpr hage)).2, show (Machine.run next (start filled) splitTrace).completed = _
      from hdone]
    rfl

end LsuRam

end CocoIbex
