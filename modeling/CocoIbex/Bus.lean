import CocoIbex.Priority
import CocoIbex.Ram1pSecure

/-!
# The Bus of the Simple Systems

`bus`: hosts with a static priority, and devices that are told apart by the address and answer
in the next cycle. In a cycle without a request, and for an address that no device maps, the
selections keep what they had. A grant and its answer belong together: what a host gets is the
answer of the device that has taken its last granted request.

Neither the number of the hosts nor that of the devices is fixed, and a device is whatever
answers: `Answers` is all that the bus expects of it, which is what the header of the source
asks for. The loops over hosts and devices, in which a later assignment wins, are static
priorities.

The bus has no memory of what it has granted but the two selections. `Obs` keeps that history
beside it, and `Routes` is what the bus as a whole promises in a cycle with respect to it.

## Main results

* `answers_routed` — in every run whose devices keep to `Answers`, the first host that requests
  is the one that is granted, its request reaches the device of its address and no other, and
  the answer comes to that host in the next cycle and to nobody else.
-/

namespace CocoIbex

/-- An answer of a device. -/
structure BusAnswer where
  rvalid : Bool
  rdata : BitVec 32
  err : Bool
  deriving DecidableEq

/-- No answer. -/
def BusAnswer.none : BusAnswer := ⟨false, 0#32, false⟩

/-- No request. -/
def RamIn.none : RamIn := ⟨false, false, 0#4, 0#32, 0#32⟩

/-- `cfg_device_addr_base` and `cfg_device_addr_mask`. -/
structure DeviceMap (d : ℕ) where
  base : Fin d → BitVec 32
  mask : Fin d → BitVec 32

/-- The address is in the window of a device. -/
def DeviceMap.hits {d : ℕ} (c : DeviceMap d) (a : BitVec 32) (i : Fin d) : Bool :=
  (a &&& c.mask i) == c.base i

/-- What the bus selects, and its registers. -/
structure Bus (h d : ℕ) where
  hostSelReq : Fin h
  deviceSelReq : Fin d
  hostSelResp : Fin h
  deviceSelResp : Fin d

namespace Bus

variable {h d : ℕ} (c : DeviceMap d) (s : Bus h d) (x : Fin h → RamIn)

/-- `host_sel_req`: the loop runs down to the first host. -/
def hostSel : Fin h :=
  (List.finRange h).foldr (fun i sel => if (x i).req then i else sel) s.hostSelReq

/-- The request that is selected. -/
def request : RamIn := x (s.hostSel x)

/-- `device_sel_req`: the loop runs up to the last device. -/
def deviceSel : Fin d :=
  (List.finRange d).foldl (fun sel i => if c.hits (s.request x).addr i then i else sel)
    s.deviceSelReq

/-- `host_gnt_o`. -/
def gnt (i : Fin h) : Bool := i == s.hostSel x && (x i).req

/-- What a device sees. -/
def deviceIn (i : Fin d) : RamIn := if i = s.deviceSel c x then s.request x else .none

/-- What a host sees of the answers of the devices. -/
def answer (y : Fin d → BusAnswer) (i : Fin h) : BusAnswer :=
  if i = s.hostSelResp then y s.deviceSelResp else .none

/-- One clock edge. -/
def next : Bus h d where
  hostSelReq := s.hostSel x
  deviceSelReq := s.deviceSel c x
  hostSelResp := s.hostSel x
  deviceSelResp := s.deviceSel c x

variable {c s x}

/-! ### The selections -/

/-- The first host that requests is selected. -/
theorem hostSel_spec {i : Fin h} (hi : (x i).req = true) :
    (x (s.hostSel x)).req = true ∧ ∀ j, (x j).req = true → s.hostSel x ≤ j := by
  obtain ⟨-, hno⟩ | ⟨pre, a, post, heq, ha, hpre, hsel⟩ :=
    Priority.foldr_pick (fun j => (x j).req) s.hostSelReq (List.finRange h)
  · rw [hno i (List.mem_finRange i)] at hi
    cases hi
  · have hsel : s.hostSel x = a := hsel
    rw [hsel]
    refine ⟨ha, fun j hj => ?_⟩
    have hsorted : (pre ++ a :: post).Pairwise (· < ·) := heq ▸ List.pairwise_lt_finRange h
    have hmem : j ∈ pre ++ a :: post := heq ▸ List.mem_finRange j
    obtain hjp | hja := List.mem_append.mp hmem
    · have hj' : (x j).req = false := hpre j hjp
      rw [hj'] at hj
      cases hj
    · obtain rfl | hjp := List.mem_cons.mp hja
      · exact le_rfl
      · rw [List.pairwise_append, List.pairwise_cons] at hsorted
        exact (hsorted.2.1.1 j hjp).le

/-- The last device whose window has the address is selected. -/
theorem deviceSel_spec {i : Fin d} (hi : c.hits (s.request x).addr i = true) :
    c.hits (s.request x).addr (s.deviceSel c x) = true ∧
      ∀ j, c.hits (s.request x).addr j = true → j ≤ s.deviceSel c x := by
  have hfold : s.deviceSel c x = (List.finRange d).reverse.foldr
      (fun i sel => if c.hits (s.request x).addr i then i else sel) s.deviceSelReq := by
    rw [List.foldr_reverse]
    rfl
  obtain ⟨-, hno⟩ | ⟨pre, a, post, heq, ha, hpre, hsel⟩ :=
    Priority.foldr_pick (c.hits (s.request x).addr) s.deviceSelReq (List.finRange d).reverse
  · rw [hno i (List.mem_reverse.mpr (List.mem_finRange i))] at hi
    cases hi
  · rw [hfold, hsel]
    refine ⟨ha, fun j hj => ?_⟩
    have hsorted : (pre ++ a :: post).Pairwise fun a b => b < a :=
      heq ▸ List.pairwise_reverse.mpr (List.pairwise_lt_finRange d)
    have hmem : j ∈ pre ++ a :: post := heq ▸ List.mem_reverse.mpr (List.mem_finRange j)
    obtain hjp | hja := List.mem_append.mp hmem
    · rw [hpre j hjp] at hj
      cases hj
    · obtain rfl | hjp := List.mem_cons.mp hja
      · exact le_rfl
      · rw [List.pairwise_append, List.pairwise_cons] at hsorted
        exact (hsorted.2.1.1 j hjp).le

/-- For an address outside all windows the device stays selected that was. -/
theorem deviceSel_of_unmapped (hno : ∀ i, c.hits (s.request x).addr i = false) :
    s.deviceSel c x = s.deviceSelReq := by
  have hfold : ∀ l : List (Fin d), l.foldl
      (fun sel i => if c.hits (s.request x).addr i then i else sel) s.deviceSelReq
        = s.deviceSelReq := by
    intro l
    induction l with
    | nil => rfl
    | cons i l ih => rw [List.foldl_cons, hno i, if_neg Bool.false_ne_true, ih]
  exact hfold _

/-- Only the selected host is granted. -/
theorem gnt_iff {i : Fin h} :
    s.gnt x i = true ↔ (x i).req = true ∧ ∀ j, (x j).req = true → i ≤ j := by
  rw [gnt, Bool.and_eq_true, beq_iff_eq]
  constructor
  · rintro ⟨hi, hr⟩
    refine ⟨hr, fun j hj => ?_⟩
    rw [hi]
    exact (hostSel_spec hj).2 j hj
  · rintro ⟨hr, hmin⟩
    obtain ⟨hsel, hle⟩ := hostSel_spec (s := s) hr
    exact ⟨le_antisymm (hmin _ hsel) (hle i hr), hr⟩

/-- A device gets the request of the host that is granted. -/
theorem deviceIn_of_gnt {i : Fin h} (hg : s.gnt x i = true) (j : Fin d) :
    s.deviceIn c x j = if j = s.deviceSel c x then x i else .none := by
  rw [gnt, Bool.and_eq_true, beq_iff_eq] at hg
  rw [deviceIn, request, ← hg.1]

/-! ### Answers -/

/-- The bus with the devices that have been requested in the last cycle. -/
structure Obs (h d : ℕ) where
  bus : Bus h d
  asked : Fin d → Bool

namespace Obs

variable (c : DeviceMap d) (o : Obs h d) (x : Fin h → RamIn)

/-- One clock edge. -/
def next : Obs h d where
  bus := o.bus.next c x
  asked := fun i => (o.bus.deviceIn c x i).req

/-- The devices answer in the cycle after a request, and only then. -/
def Answers (y : Fin d → BusAnswer) : Prop := ∀ i, (y i).rvalid = o.asked i

variable {c o x}

/-- What becomes of the requests `x` of a cycle and of the answers `y` of the next one, where the
bus goes from `s` to `s'`. -/
structure Routes (c : DeviceMap d) (s s' : Bus h d) (x : Fin h → RamIn) (y : Fin d → BusAnswer) :
    Prop where
  /-- The first host of those that request is granted. -/
  granted : ∀ i, s.gnt x i = true ↔ (x i).req = true ∧ ∀ j, (x j).req = true → i ≤ j
  /-- Its request goes to the selected device, and to no other one. -/
  seen : ∀ i, s.gnt x i = true → ∀ k,
    s.deviceIn c x k = if k = s.deviceSel c x then x i else .none
  /-- That is the last device whose window has the address. -/
  mapped : ∀ i, s.gnt x i = true → ∀ k, c.hits (x i).addr k = true →
    c.hits (x i).addr (s.deviceSel c x) = true ∧
      ∀ j, c.hits (x i).addr j = true → j ≤ s.deviceSel c x
  /-- An address that no device maps goes where the last request went. -/
  unmapped : ∀ i, s.gnt x i = true → (∀ k, c.hits (x i).addr k = false) →
    s.deviceSel c x = s.deviceSelReq
  /-- A host is answered in the cycle after its grant, and in no other. -/
  answered : ∀ i, (s'.answer y i).rvalid = s.gnt x i
  /-- The answer is that of the selected device. -/
  answer : ∀ i, s.gnt x i = true → s'.answer y i = y (s.deviceSel c x)

/-- What a host asks for is the request that is selected when it is granted. -/
theorem request_of_gnt {s : Bus h d} {i : Fin h} (hg : s.gnt x i = true) : s.request x = x i := by
  rw [gnt, Bool.and_eq_true, beq_iff_eq] at hg
  rw [request, ← hg.1]

/-- **Answers find their host.** In every run whose devices answer in the cycle after a request
and only then (`Answers`), the first host that requests is granted, the device that its address
selects takes the request, and this host alone gets the answer of that device, in the cycle
after the grant. -/
theorem answers_routed (c : DeviceMap d) (o : Obs h d) (ins : List (Fin h → RamIn))
    (x : Fin h → RamIn) (y : Fin d → BusAnswer)
    (hy : Answers (Machine.run (next c) o (ins ++ [x])) y) :
    Routes c (Machine.run (next c) o ins).bus (Machine.run (next c) o (ins ++ [x])).bus x y := by
  rw [Machine.run_concat] at hy ⊢
  generalize Machine.run (next c) o ins = t at hy ⊢
  have hasked : (y (t.bus.deviceSel c x)).rvalid = (t.bus.request x).req := by
    rw [hy]
    simp [next, deviceIn]
  have hans : ∀ i, (t.next c x).bus.answer y i
      = if i = t.bus.hostSel x then y (t.bus.deviceSel c x) else .none := fun i => rfl
  refine
    { granted := fun i => gnt_iff
      seen := fun i hg => deviceIn_of_gnt hg
      mapped := fun i hg k hk => ?_
      unmapped := fun i hg hno => ?_
      answered := fun i => ?_
      answer := fun i hg => ?_ }
  · rw [← request_of_gnt hg] at hk ⊢
    exact deviceSel_spec hk
  · rw [← request_of_gnt hg] at hno
    exact deviceSel_of_unmapped hno
  · rw [hans, gnt]
    by_cases hh : i = t.bus.hostSel x
    · rw [if_pos hh, hasked, request, ← hh, beq_self_eq_true, Bool.true_and]
    · rw [if_neg hh, beq_eq_false_iff_ne.mpr hh]
      rfl
  · rw [gnt, Bool.and_eq_true, beq_iff_eq] at hg
    rw [hans, if_pos hg.1]

/-- The second host reads the second device once the first host is quiet. -/
theorem answers_routed_second :
    let c : DeviceMap 2 := ⟨![0#32, 0x20000#32], fun _ => 0x3FC00#32⟩
    let o : Obs 2 2 := ⟨⟨0, 0, 0, 0⟩, fun _ => false⟩
    let load : BitVec 32 → RamIn := fun a => ⟨true, false, 0xF#4, a, 0#32⟩
    let x : Fin 2 → RamIn := ![RamIn.none, load 0x20004#32]
    let y : Fin 2 → BusAnswer := ![BusAnswer.none, ⟨true, 7#32, false⟩]
    let t := Machine.run (next c) o [![load 0#32, load 0x20004#32]]
    let t' := Machine.run (next c) o [![load 0#32, load 0x20004#32], x]
    Routes c t.bus t'.bus x y ∧ t.bus.gnt x 1 = true ∧
      t'.bus.answer y 1 = ⟨true, 7#32, false⟩ := by
  intro c o load x y t t'
  have hr : Routes c t.bus t'.bus x y :=
    answers_routed c o [![load 0#32, load 0x20004#32]] x y (by
      intro i
      fin_cases i <;> decide)
  have hg : t.bus.gnt x 1 = true := by decide
  exact ⟨hr, hg, (hr.answer 1 hg).trans (by decide)⟩

end Obs

end Bus

end CocoIbex
