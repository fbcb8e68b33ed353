import CocoIbex.Bits
import CocoIbex.Machine
import CocoIbex.OneHot

/-!
# The Secure RAM

`ram_1p_secure`: a memory of `2 ^ b` blocks with `2 ^ a` words each. A request is decoded to a
one-hot vector for the word in its block and a block number that is delayed; one cycle later all
blocks are read at once and written under the byte enables, and one more cycle later a tree of
multiplexers picks the block. For every request pattern this is a plain memory with byte enables
and a latency of two cycles (`ram_1p_secure_refines`).

The plain memory is a function of the list of requests: the byte at an address is that of the
last write to it, and the initial one otherwise (`byteAfter`, `after`). A write is on its way
for one cycle, so the words of the RAM and the words as they will be are two things, and it is
the second that follows the requests (`pendingWords`).

Both numbers are arbitrary, and so are the requests: any pattern of reads, writes and idle
cycles. An address outside of the memory wraps around.

## Main results

* `wordByte_wordOfBytes` and `word_ext` — words by their bytes;
* `rdataO_next_next` and `rvalid_next_next` — a request is answered two cycles later;
* `ram_1p_secure_refines` — every run is one of the plain memory.
-/

namespace CocoIbex

/-- The request port of the RAM in one cycle. -/
structure RamIn where
  req : Bool
  we : Bool
  be : BitVec 4
  addr : BitVec 32
  wdata : BitVec 32
  deriving DecidableEq

namespace RamIn

variable (x : RamIn) (a b : ℕ)

/-- `addr_idx`, the index of the addressed word. -/
def addrIdx (n : ℕ) : BitVec n := x.addr.extractLsb' 2 n

/-- `in_block_addr`. -/
def inBlockAddr : BitVec a := (x.addrIdx (a + b)).extractLsb' 0 a

/-- `inter_block_addr`. -/
def interBlockAddr : BitVec b := (x.addrIdx (a + b)).extractLsb' a b

/-- `OH_in_signal`. -/
def ohInSignal (i : Fin (2 ^ a)) : Bool := (x.inBlockAddr a b).toNat == i

end RamIn

/-! ### A plain memory with byte enables -/

/-- Byte `k` of a word. -/
def wordByte (w : BitVec 32) (k : ℕ) : BitVec 8 := w.extractLsb' (8 * k) 8

/-- The word with the bytes `f`. -/
def wordOfBytes (f : ℕ → BitVec 8) : BitVec 32 := f 3 ++ f 2 ++ f 1 ++ f 0

/-- A byte of a word that is put together from bytes. -/
theorem wordByte_wordOfBytes (f : ℕ → BitVec 8) {k : ℕ} (hk : k < 4) :
    wordByte (wordOfBytes f) k = f k := by
  have h0 := (f 0).isLt
  have h1 := (f 1).isLt
  have h2 := (f 2).isLt
  have h3 := (f 3).isLt
  refine BitVec.eq_of_toNat_eq ?_
  rw [wordByte, wordOfBytes, BitVec.extractLsb'_toNat, Nat.shiftRight_eq_div_pow]
  erw [Bits.toNat_append_eq, Bits.toNat_append_eq, Bits.toNat_append_eq]
  interval_cases k <;> simp <;> omega

/-- Words are equal when their bytes are. -/
theorem word_ext {v w : BitVec 32} (h : ∀ k < 4, wordByte v k = wordByte w k) : v = w := by
  have hk : ∀ k < 4, v.toNat / 2 ^ (8 * k) % 2 ^ 8 = w.toNat / 2 ^ (8 * k) % 2 ^ 8 := by
    intro k hk
    have := congrArg BitVec.toNat (h k hk)
    simpa [wordByte, BitVec.extractLsb'_toNat, Nat.shiftRight_eq_div_pow] using this
  have h0 := hk 0 (by omega)
  have h1 := hk 1 (by omega)
  have h2 := hk 2 (by omega)
  have h3 := hk 3 (by omega)
  have hv := v.isLt
  have hw := w.isLt
  refine BitVec.eq_of_toNat_eq ?_
  norm_num at h0 h1 h2 h3
  omega

/-- The request writes byte `k` of the word `i`. -/
def RamIn.writes {n : ℕ} (x : RamIn) (i : BitVec n) (k : ℕ) : Bool :=
  x.req && x.we && x.be.getLsbD k && x.addrIdx n == i

namespace ByteMem

variable {n : ℕ}

/-- Byte `k` of the word `i` after the requests `hist`: that of the last write to it, if
there was one. -/
def byteAfter (m : BitVec n → BitVec 32) (hist : List RamIn) (i : BitVec n) (k : ℕ) : BitVec 8 :=
  (((hist.filter fun x => x.writes i k).getLast?).map fun x => wordByte x.wdata k).getD
    (wordByte (m i) k)

/-- The memory after the requests `hist`. -/
def after (m : BitVec n → BitVec 32) (hist : List RamIn) (i : BitVec n) : BitVec 32 :=
  wordOfBytes (byteAfter m hist i)

/-- One more request writes the bytes that it names. -/
def store (m : BitVec n → BitVec 32) (x : RamIn) (i : BitVec n) : BitVec 32 :=
  wordOfBytes fun k => if x.writes i k then wordByte x.wdata k else wordByte (m i) k

/-- A byte after one more access is the written one, or what it was. -/
theorem byteAfter_concat (m : BitVec n → BitVec 32) (hist : List RamIn) (x : RamIn)
    (i : BitVec n) (k : ℕ) :
    byteAfter m (hist ++ [x]) i k
      = if x.writes i k then wordByte x.wdata k else byteAfter m hist i k := by
  cases h : x.writes i k <;> simp [byteAfter, h]

/-- Without accesses the reference memory is the initial one. -/
theorem after_nil (m : BitVec n → BitVec 32) : after m [] = m := by
  funext i
  refine word_ext fun k hk => ?_
  rw [after, wordByte_wordOfBytes _ hk]
  rfl

/-- The reference memory after one more access is that before it with the store. -/
theorem after_concat (m : BitVec n → BitVec 32) (hist : List RamIn) (x : RamIn) :
    after m (hist ++ [x]) = store (after m hist) x := by
  funext i
  refine word_ext fun k hk => ?_
  rw [after, store, wordByte_wordOfBytes _ hk, wordByte_wordOfBytes _ hk, byteAfter_concat, after,
    wordByte_wordOfBytes _ hk]

end ByteMem

/-! ### The circuit -/

/-- The registers of the RAM. -/
structure Ram1pSecure (a b : ℕ) where
  mem : Fin (2 ^ b) → Fin (2 ^ a) → BitVec 32
  ohInReg : Fin (2 ^ a) → Bool
  interBlockAddrStage1 : BitVec b
  interBlockAddrReg : BitVec b
  gnt : Bool
  we : Bool
  wdata : BitVec 32
  be : BitVec 4
  rdataOr : Fin (2 ^ b) → BitVec 32
  rvalid : Bool

namespace Ram1pSecure

variable {a b : ℕ} (s : Ram1pSecure a b) (x : RamIn)

/-- A reset clears the registers of the request and `rvalid`; the memory, the block numbers
and the read data keep what they have. -/
def reset : Ram1pSecure a b :=
  { s with
    ohInReg := fun _ => false
    gnt := false
    we := false
    wdata := 0#32
    be := 0#4
    rvalid := false }

/-- `gnt_o`. -/
def gntO : Bool := x.req

/-- `rdata_OR` of a block: the selected word, unless the request is a write. -/
def rdataOrNext (blk : Fin (2 ^ b)) : BitVec 32 :=
  OneHot.orOf s.ohInReg fun i => s.mem blk i &&& Bits.fill 32 (!s.we)

/-- Byte `k` of a word as the loop for that byte leaves it. -/
def writeByte (blk : Fin (2 ^ b)) (i : Fin (2 ^ a)) (k : ℕ) : BitVec 8 :=
  if s.be.getLsbD k && s.we && blk.val == s.interBlockAddrStage1.toNat then
    (wordByte s.wdata k &&& Bits.fill 8 (s.ohInReg i))
      ||| (wordByte (s.mem blk i) k &&& Bits.fill 8 (!s.ohInReg i))
  else wordByte (s.mem blk i) k

/-- One clock edge. -/
def next : Ram1pSecure a b where
  mem blk i := wordOfBytes (s.writeByte blk i)
  ohInReg i := x.req && x.ohInSignal a b i
  interBlockAddrStage1 := if x.req then x.interBlockAddr a b else 0#b
  interBlockAddrReg := if s.gnt then s.interBlockAddrStage1 else s.interBlockAddrReg
  gnt := x.req
  we := x.req && x.we
  wdata := if x.req then x.wdata else 0#32
  be := if x.req then x.be else 0#4
  rdataOr := s.rdataOrNext
  rvalid := OneHot.anyOf s.ohInReg

/-- `leveldata` of the lowest level. -/
def leveldata0 (m : ℕ) : BitVec 32 := if h : m < 2 ^ b then s.rdataOr ⟨m, h⟩ else 0#32

/-- `rdata_o`, the top of the tree of multiplexers. -/
def rdataO : BitVec 32 := OneHot.muxTree s.interBlockAddrReg s.leveldata0 b 0

/-! ### The words by their index -/

/-- The memory as words by their index. -/
def words (i : BitVec (a + b)) : BitVec 32 :=
  s.mem (i.extractLsb' a b).toFin (i.extractLsb' 0 a).toFin

/-- The words with the write in the request registers done. -/
def pendingWords (i : BitVec (a + b)) : BitVec 32 :=
  wordOfBytes (s.writeByte (i.extractLsb' a b).toFin (i.extractLsb' 0 a).toFin)

/-- The pending write reaches the words in the next cycle. -/
@[simp] theorem words_next : (s.next x).words = s.pendingWords := rfl

/-- An index is its block and its place there. -/
theorem index_eq_iff {i j : BitVec (a + b)} :
    i = j ↔ i.extractLsb' a b = j.extractLsb' a b ∧ i.extractLsb' 0 a = j.extractLsb' 0 a := by
  constructor
  · rintro rfl
    exact ⟨rfl, rfl⟩
  · rintro ⟨hb, ha⟩
    have hsplit : ∀ i : BitVec (a + b), i.toNat
        = (i.extractLsb' a b).toNat * 2 ^ a + (i.extractLsb' 0 a).toNat := by
      intro i
      have hlt : i.toNat / 2 ^ a < 2 ^ b := by
        rw [Nat.div_lt_iff_lt_mul (by positivity), mul_comm, ← pow_add]
        exact i.isLt
      rw [BitVec.extractLsb'_toNat, BitVec.extractLsb'_toNat, Nat.shiftRight_eq_div_pow,
        Nat.mod_eq_of_lt hlt, Nat.shiftRight_zero, Nat.div_add_mod']
    refine BitVec.eq_of_toNat_eq ?_
    rw [hsplit i, hsplit j, hb, ha]

/-- The one-hot vector of a request. -/
theorem ohInReg_next (i : BitVec a) :
    (s.next x).ohInReg i.toFin = (x.req && x.inBlockAddr a b == i) := by
  have h : ((x.inBlockAddr a b).toNat == i.toNat) = (x.inBlockAddr a b == i) := by
    rw [Bool.eq_iff_iff, beq_iff_eq, beq_iff_eq, BitVec.toNat_inj]
  simp [next, RamIn.ohInSignal, h]

/-- The write loops store what the request names. -/
theorem pendingWords_next : (s.next x).pendingWords = ByteMem.store s.pendingWords x := by
  funext i
  refine word_ext fun k hk => ?_
  rw [pendingWords, ByteMem.store, wordByte_wordOfBytes _ hk, wordByte_wordOfBytes _ hk, writeByte,
    ohInReg_next]
  have hmem : (s.next x).mem (i.extractLsb' a b).toFin (i.extractLsb' 0 a).toFin
      = s.pendingWords i := rfl
  have hidx : (x.addrIdx (a + b) == i)
      = (x.interBlockAddr a b == i.extractLsb' a b && x.inBlockAddr a b == i.extractLsb' 0 a) := by
    rw [Bool.eq_iff_iff, beq_iff_eq, Bool.and_eq_true, beq_iff_eq, beq_iff_eq]
    exact index_eq_iff
  rw [hmem, RamIn.writes, hidx]
  cases hr : x.req with
  | false => simp [next, hr]
  | true =>
      have hblk : ((i.extractLsb' a b).toFin.val == (s.next x).interBlockAddrStage1.toNat)
          = (x.interBlockAddr a b == i.extractLsb' a b) := by
        rw [Bool.eq_iff_iff, beq_iff_eq, beq_iff_eq]
        simp only [next, hr, if_true, BitVec.val_toFin, BitVec.toNat_inj]
        exact eq_comm
      rw [hblk]
      simp only [next, hr, if_true, Bool.true_and]
      cases x.we <;> cases x.be.getLsbD k <;>
        cases x.interBlockAddr a b == i.extractLsb' a b <;>
          cases x.inBlockAddr a b == i.extractLsb' 0 a <;> simp [Bits.and_fill]

/-! ### The answer of a request -/

/-- A request has a one-hot vector that is not zero. -/
theorem anyOf_ohInReg_next : OneHot.anyOf (s.next x).ohInReg = x.req := by
  cases hr : x.req with
  | false => simp [next, hr]
  | true =>
      refine OneHot.anyOf_of (i := (x.inBlockAddr a b).toFin) ?_
      rw [ohInReg_next, hr]
      simp

/-- What a block shows for a request. -/
theorem rdataOrNext_next (hr : x.req = true) (blk : Fin (2 ^ b)) :
    (s.next x).rdataOrNext blk
      = if x.we then 0#32 else (s.next x).mem blk (x.inBlockAddr a b).toFin := by
  have hsel : ∀ j, (s.next x).ohInReg j = true → j = (x.inBlockAddr a b).toFin := by
    intro j hj
    have := s.ohInReg_next x (BitVec.ofFin j)
    rw [show (BitVec.ofFin j).toFin = j from rfl, hj, hr] at this
    have heq : x.inBlockAddr a b = BitVec.ofFin j := by simpa using this.symm
    rw [heq]
  have hself : (s.next x).ohInReg (x.inBlockAddr a b).toFin = true := by
    rw [ohInReg_next, hr]
    simp
  rw [rdataOrNext, OneHot.orOf_of_unique hself hsel]
  cases hw : x.we <;> simp [next, hr, hw, Bits.and_fill]

/-- A request is answered two cycles later: a read with the word as it is then, a write
with zero. -/
theorem rdataO_next_next (y : RamIn) (hr : x.req = true) :
    ((s.next x).next y).rdataO
      = if x.we then 0#32 else (s.next x).words (x.addrIdx (a + b)) := by
  have hblk : ((s.next x).next y).interBlockAddrReg = x.interBlockAddr a b := by
    simp [next, hr]
  have hor : ((s.next x).next y).rdataOr = (s.next x).rdataOrNext := rfl
  rw [rdataO, OneHot.muxTree_top, hblk, leveldata0, dif_pos (x.interBlockAddr a b).isLt, hor,
    rdataOrNext_next s x hr]
  rfl

/-- A request is answered two cycles later. -/
theorem rvalid_next_next (y : RamIn) : ((s.next x).next y).rvalid = x.req :=
  anyOf_ohInReg_next s x

/-! ### Every run -/

/-- After a reset no write is on its way. -/
theorem pendingWords_reset : s.reset.pendingWords = s.words := by
  funext i
  refine word_ext fun k hk => ?_
  rw [pendingWords, wordByte_wordOfBytes _ hk]
  simp [writeByte, reset, words]

/-- The words with the last request done are those of the plain memory, in every run. -/
theorem pendingWords_run (hist : List RamIn) :
    (Machine.run next s.reset hist).pendingWords = ByteMem.after s.words hist := by
  refine Machine.run_trace
    (fun hist (r : Ram1pSecure a b) => r.pendingWords = ByteMem.after s.words hist) ?_ ?_ hist
  · intro hist r x h
    rw [pendingWords_next, h, ByteMem.after_concat]
  · rw [pendingWords_reset, ByteMem.after_nil]

/-- **The secure RAM is a plain memory.** After a reset with any memory contents, for every
list of requests and idle cycles: a request is granted at once; `rvalid` is high exactly in
the cycles two after a request; there a read has the word as left by all earlier requests
and a write has zero; and the memory one cycle after a request differs from the one before
in just the bytes that the request writes. -/
theorem ram_1p_secure_refines (s : Ram1pSecure a b) :
    (∀ x : RamIn, gntO x = x.req) ∧
    (Machine.run next s.reset []).rvalid = false ∧
    (∀ x, (Machine.run next s.reset [x]).rvalid = false) ∧
    (∀ hist x y,
      let r := Machine.run next s.reset (hist ++ [x, y])
      r.rvalid = x.req ∧
        (x.req = true → r.rdataO =
          if x.we then 0#32 else ByteMem.after s.words hist (x.addrIdx (a + b))) ∧
        r.words = ByteMem.after s.words (hist ++ [x])) ∧
    (∀ hist x, (Machine.run next s.reset (hist ++ [x])).words = ByteMem.after s.words hist) ∧
    (∀ hist x, ∀ i : BitVec (a + b), ∀ k < 4,
      wordByte (ByteMem.after s.words (hist ++ [x]) i) k
        = if x.writes i k then wordByte x.wdata k
          else wordByte (ByteMem.after s.words hist i) k) := by
  have hwords : ∀ hist x,
      (Machine.run next s.reset (hist ++ [x])).words = ByteMem.after s.words hist := by
    intro hist x
    rw [Machine.run_concat, words_next, pendingWords_run]
  refine ⟨fun _ => rfl, by simp [reset], fun x => by simp [next, reset], ?_, hwords, ?_⟩
  · intro hist x y
    have hsplit : hist ++ [x, y] = (hist ++ [x]) ++ [y] := by simp
    refine ⟨?_, ?_, ?_⟩
    · rw [hsplit, Machine.run_concat, Machine.run_concat]
      exact rvalid_next_next _ x y
    · intro hr
      rw [← hwords hist x, hsplit, Machine.run_concat, Machine.run_concat]
      exact rdataO_next_next _ x y hr
    · rw [hsplit, hwords]
  · intro hist x i k hk
    rw [ByteMem.after_concat, ByteMem.store, wordByte_wordOfBytes _ hk]

end Ram1pSecure

end CocoIbex
