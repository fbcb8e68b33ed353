import CocoIbex.OneHot

/-!
# Arbitration by Age

A buffer whose entries come and go out of order can keep, for each entry, which other entries
are older. With this matrix the oldest request is found without counters (`arb`). The matrix
stands for a list of the busy entries, the oldest first (`Aged`), which is not kept in hardware:
the grant goes to the first request of the list, entries that are done leave the list, and a new
entry is put at its end.

Nothing here is about a cache or a bus. The entries are those of an arbitrary finite type, and
an entry has whatever the circuit keeps for it; a design that stores the matrix proves `Aged`
for its registers once, step by step, and from then on argues about the list.

## Main results

* `arb_iff` — the grant goes to the first request of the list;
* `arb_unique` and `exists_arb` — there is at most one grant, and one if anything is requested;
* `strictTotal` — the age is a strict total order of the busy entries;
* `flatMap_shift` — where the entries before one have nothing, its first item is the first item
  of all. With it a queue of items is read off the list of entries.
-/

namespace OneHot

variable {n : ℕ}

/-- The grant of a request that is older than all others. -/
def arb (req : Fin n → Bool) (older : Fin n → Fin n → Bool) (i : Fin n) : Bool :=
  req i && !anyOf fun j => req j && older i j

/-- The age matrix `older` of the busy entries is that of the list `order`. -/
structure Aged (busy : Fin n → Bool) (older : Fin n → Fin n → Bool) (order : List (Fin n)) :
    Prop where
  mem : ∀ i, i ∈ order ↔ busy i = true
  pairwise : order.Pairwise fun j i => older i j = true ∧ older j i = false
  irrefl : ∀ i, busy i = true → older i i = false
  busy : ∀ i j, busy i = true → older i j = true → busy j = true

namespace Aged

variable {busy busy' req alloc done : Fin n → Bool} {older older' : Fin n → Fin n → Bool}
  {order : List (Fin n)} {new : Option (Fin n)}

/-- Without entries the list is empty. -/
theorem empty (h : ∀ i, busy i = false) : Aged busy older [] where
  mem := by simp [h]
  pairwise := List.Pairwise.nil
  irrefl := by simp [h]
  busy := by simp [h]

/-- No element is in the order twice. -/
theorem nodup (h : Aged busy older order) : order.Nodup := by
  refine List.Pairwise.imp_of_mem ?_ h.pairwise
  rintro j i hj hi ⟨hold, -⟩ rfl
  rw [h.irrefl j ((h.mem j).mp hj)] at hold
  cases hold

/-- What the matrix says of the entries before and behind an entry. -/
theorem split (h : Aged busy older order) {pre post : List (Fin n)} {i : Fin n}
    (heq : order = pre ++ i :: post) :
    (∀ j ∈ pre, older i j = true ∧ older j i = false) ∧
      ∀ j ∈ post, older j i = true ∧ older i j = false := by
  have hp := h.pairwise
  rw [heq, List.pairwise_append] at hp
  obtain ⟨-, hpost, hpre⟩ := hp
  rw [List.pairwise_cons] at hpost
  exact ⟨fun j hj => hpre j hj i (List.mem_cons_self ..), hpost.1⟩

/-- The older entries are those before it in the list. -/
theorem older_iff (h : Aged busy older order) {pre post : List (Fin n)} {i : Fin n}
    (heq : order = pre ++ i :: post) (j : Fin n) : older i j = true ↔ j ∈ pre := by
  obtain ⟨hpre, hpost⟩ := h.split heq
  constructor
  · intro hold
    have hi : busy i = true := (h.mem i).mp (by simp [heq])
    have hj : j ∈ order := (h.mem j).mpr (h.busy i j hi hold)
    rw [heq, List.mem_append, List.mem_cons] at hj
    obtain hj | rfl | hj := hj
    · exact hj
    · rw [h.irrefl j hi] at hold
      cases hold
    · rw [(hpost j hj).2] at hold
      cases hold
  · exact fun hj => (hpre j hj).1

/-- One busy entry is older than another iff it is before it in the list. -/
theorem older_of_append (h : Aged busy older order) {pre post : List (Fin n)} {i j : Fin n}
    (heq : order = pre ++ i :: post) (hj : busy j = true) (hne : j ≠ i) :
    older i j = true ∧ j ∈ pre ∨ older j i = true ∧ j ∈ post := by
  obtain ⟨hpre, hpost⟩ := h.split heq
  have hmem := (h.mem j).mpr hj
  rw [heq, List.mem_append, List.mem_cons] at hmem
  obtain hmem | rfl | hmem := hmem
  · exact Or.inl ⟨(hpre j hmem).1, hmem⟩
  · exact absurd rfl hne
  · exact Or.inr ⟨(hpost j hmem).1, hmem⟩

/-- The age is a strict total order of the busy entries. -/
theorem strictTotal (h : Aged busy older order) :
    IsStrictTotalOrder {i // busy i = true} fun j i => older i j = true where
  trichotomous := by
    rintro ⟨j, hj⟩ ⟨i, hi⟩ hji hij
    by_contra hne
    obtain ⟨pre, post, heq⟩ := List.append_of_mem ((h.mem i).mpr hi)
    obtain ⟨hold, -⟩ | ⟨hold, -⟩ :=
      h.older_of_append heq hj fun heq' => hne (Subtype.ext heq')
    · exact hji hold
    · exact hij hold
  irrefl := by
    rintro ⟨i, hi⟩ hold
    rw [h.irrefl i hi] at hold
    cases hold
  trans := by
    rintro ⟨k, hk⟩ ⟨j, hj⟩ ⟨i, hi⟩ hjk hij
    obtain ⟨pre, post, heq⟩ := List.append_of_mem ((h.mem i).mpr hi)
    obtain ⟨a, b, rfl⟩ := List.append_of_mem ((h.older_iff heq j).mp hij)
    have heq' : order = a ++ j :: (b ++ i :: post) := by simp [heq]
    have hka : k ∈ a := (h.older_iff heq' k).mp hjk
    exact (h.older_iff heq k).mpr (List.mem_append_left _ hka)

/-- **The oldest request.** The grant goes to the first request of the list. -/
theorem arb_iff (h : Aged busy older order) (hreq : ∀ i, req i = true → busy i = true)
    {i : Fin n} :
    arb req older i = true ↔
      ∃ pre post, order = pre ++ i :: post ∧ req i = true ∧ ∀ j ∈ pre, req j = false := by
  simp only [arb, Bool.and_eq_true, Bool.not_eq_true', anyOf_eq_false, Bool.and_eq_false_iff]
  constructor
  · rintro ⟨hi, hnone⟩
    obtain ⟨pre, post, heq⟩ := List.append_of_mem ((h.mem i).mpr (hreq i hi))
    refine ⟨pre, post, heq, hi, fun j hj => ?_⟩
    obtain hr | hold := hnone j
    · exact hr
    · rw [(h.older_iff heq j).mpr hj] at hold
      cases hold
  · rintro ⟨pre, post, heq, hi, hpre⟩
    refine ⟨hi, fun j => ?_⟩
    cases hold : older i j with
    | false => exact Or.inr rfl
    | true => exact Or.inl (hpre j ((h.older_iff heq j).mp hold))

/-- There is one grant only. -/
theorem arb_unique (h : Aged busy older order) (hreq : ∀ i, req i = true → busy i = true)
    {i j : Fin n} (hi : arb req older i = true) (hj : arb req older j = true) : j = i := by
  obtain ⟨pre, post, heq, hri, hpre⟩ := (h.arb_iff hreq).mp hi
  have hrj : req j = true := by
    simp only [arb, Bool.and_eq_true] at hj
    exact hj.1
  have hmem : j ∈ order := (h.mem j).mpr (hreq j hrj)
  rw [heq, List.mem_append, List.mem_cons] at hmem
  obtain hmem | rfl | hmem := hmem
  · rw [hpre j hmem] at hrj
    cases hrj
  · rfl
  · have hold := ((h.split heq).2 j hmem).1
    simp only [arb, Bool.and_eq_true, Bool.not_eq_true', anyOf_eq_false,
      Bool.and_eq_false_iff] at hj
    obtain hr | ho := hj.2 i
    · rw [hri] at hr
      cases hr
    · rw [hold] at ho
      cases ho

/-- With a request there is a grant. -/
theorem exists_arb (h : Aged busy older order) (hreq : ∀ i, req i = true → busy i = true)
    (hex : ∃ i, req i = true) : ∃ i, arb req older i = true := by
  obtain ⟨i, hi⟩ := hex
  have hlist : ∀ l : List (Fin n), i ∈ l →
      ∃ pre j post, l = pre ++ j :: post ∧ req j = true ∧ ∀ k ∈ pre, req k = false := by
    intro l
    induction l with
    | nil => simp
    | cons j l ih =>
        intro hmem
        cases hj : req j with
        | true => exact ⟨[], j, l, rfl, hj, by simp⟩
        | false =>
            obtain rfl | hmem := List.mem_cons.mp hmem
            · rw [hi] at hj
              cases hj
            · obtain ⟨pre, k, post, rfl, hk, hpre⟩ := ih hmem
              exact ⟨j :: pre, k, post, rfl, hk, List.forall_mem_cons.mpr ⟨hj, hpre⟩⟩
  obtain ⟨pre, j, post, heq, hj, hpre⟩ := hlist order ((h.mem i).mpr (hreq i hi))
  exact ⟨j, (h.arb_iff hreq).mpr ⟨pre, post, heq, hj, hpre⟩⟩

/-- The list after a step. -/
def nextOrder (order : List (Fin n)) (done : Fin n → Bool) (new : Option (Fin n)) :
    List (Fin n) :=
  order.filter (fun i => !done i) ++ new.toList

/-- A new entry takes the busy entries for its older ones, and entries that are done leave
the matrix. -/
theorem step (h : Aged busy older order) (hnew : ∀ i, alloc i = true ↔ new = some i)
    (hfree : ∀ i, alloc i = true → busy i = false)
    (hbusy : ∀ i, busy' i = (alloc i || (busy i && !done i)))
    (holder : ∀ i, busy' i = true → ∀ j,
      older' i j = ((if alloc i then busy j else older i j) && !done j)) :
    Aged busy' older' (nextOrder order done new) := by
  have hold : ∀ i, busy i = true → alloc i = false := by
    intro i hi
    by_contra hne
    rw [hfree i ((Bool.not_eq_false _).mp hne)] at hi
    cases hi
  refine ⟨fun i => ?_, ?_, fun i hi => ?_, fun i j hi hij => ?_⟩
  · rw [hbusy, nextOrder, List.mem_append, List.mem_filter, h.mem, Bool.or_eq_true, hnew,
      Bool.and_eq_true, Option.mem_toList, or_comm]
  · rw [nextOrder, List.pairwise_append]
    refine ⟨List.Pairwise.imp_of_mem ?_ (h.pairwise.filter _), ?_, ?_⟩
    · rintro j i hj hi ⟨hij, hji⟩
      rw [List.mem_filter, h.mem] at hj hi
      have hbi : busy' i = true := by simp [hbusy, hi.1, hi.2]
      have hbj : busy' j = true := by simp [hbusy, hj.1, hj.2]
      rw [holder i hbi, holder j hbj, hold i hi.1, hold j hj.1]
      simp only [Bool.false_eq_true, if_false, hij, hji, Bool.false_and, Bool.true_and]
      exact ⟨hj.2, trivial⟩
    · cases new <;> simp
    · intro j hj i hi
      rw [List.mem_filter, h.mem] at hj
      have hai : alloc i = true := (hnew i).mpr (Option.mem_toList.mp hi)
      have hbi : busy' i = true := by simp [hbusy, hai]
      have hbj : busy' j = true := by simp [hbusy, hj.1, hj.2]
      rw [holder i hbi, holder j hbj, hai, hold j hj.1]
      simp only [Bool.false_eq_true, if_true, if_false, hj.1, Bool.true_and]
      refine ⟨hj.2, ?_⟩
      cases hji : older j i with
      | false => rfl
      | true =>
          have hb := h.busy j i hj.1 hji
          rw [hfree i hai] at hb
          cases hb
  · rw [holder i hi]
    cases hai : alloc i with
    | true => simp [hfree i hai]
    | false =>
        have hb : busy i = true := by
          rw [hbusy, hai, Bool.false_or, Bool.and_eq_true] at hi
          exact hi.1
        simp [h.irrefl i hb]
  · rw [holder i hi, Bool.and_eq_true] at hij
    have hb : busy j = true := by
      cases hai : alloc i with
      | true => simpa [hai] using hij.1
      | false =>
          rw [hbusy, hai, Bool.false_or, Bool.and_eq_true] at hi
          exact h.busy i j hi.1 (by simpa [hai] using hij.1)
    rw [hbusy, hb, hij.2]
    simp

/-! ### Queues kept in the entries -/

variable {α : Type*} {f g : Fin n → List α} {pre post : List (Fin n)} {i : Fin n}

/-- Where the entries before one have nothing, its first item is the first of all. -/
theorem flatMap_shift (hnd : order.Nodup) (heq : order = pre ++ i :: post)
    (hpre : ∀ j ∈ pre, f j = []) (hne : f i ≠ []) (hg : ∀ j ∈ order, j ≠ i → g j = f j)
    (hi : g i = (f i).drop 1) : order.flatMap g = (order.flatMap f).drop 1 := by
  subst heq
  rw [List.nodup_append] at hnd
  obtain ⟨-, hcons, hdisj⟩ := hnd
  have hgpre : ∀ j ∈ pre, g j = [] := by
    intro j hj
    have hji : j ≠ i := hdisj j hj i (List.mem_cons_self ..)
    rw [hg j (List.mem_append_left _ hj) hji, hpre j hj]
  have hgpost : post.flatMap g = post.flatMap f := by
    refine List.flatMap_congr fun j hj => hg j (by simp [hj]) ?_
    rintro rfl
    exact (List.nodup_cons.mp hcons).1 hj
  have hnil : ∀ k : Fin n → List α, (∀ j ∈ pre, k j = []) → pre.flatMap k = [] :=
    fun k hk => List.flatMap_eq_nil_iff.mpr hk
  obtain ⟨a, l, hf⟩ := List.exists_cons_of_ne_nil hne
  rw [List.flatMap_append, List.flatMap_append, List.flatMap_cons, List.flatMap_cons,
    hnil g hgpre, hnil f hpre, hi, hgpost, hf]
  rfl

/-- Where the entries behind one have nothing, an item put to its end is the last of all. -/
theorem flatMap_extend (hnd : order.Nodup) (heq : order = pre ++ i :: post) {a : α}
    (hpost : ∀ j ∈ post, f j = []) (hg : ∀ j ∈ order, j ≠ i → g j = f j)
    (hi : g i = f i ++ [a]) : order.flatMap g = order.flatMap f ++ [a] := by
  subst heq
  rw [List.nodup_append] at hnd
  obtain ⟨-, hcons, hdisj⟩ := hnd
  have hgpre : pre.flatMap g = pre.flatMap f :=
    List.flatMap_congr fun j hj =>
      hg j (List.mem_append_left _ hj) (hdisj j hj i (List.mem_cons_self ..))
  have hgpost : ∀ j ∈ post, g j = [] := by
    intro j hj
    rw [hg j (by simp [hj]), hpost j hj]
    rintro rfl
    exact (List.nodup_cons.mp hcons).1 hj
  have hnil : ∀ k : Fin n → List α, (∀ j ∈ post, k j = []) → post.flatMap k = [] :=
    fun k hk => List.flatMap_eq_nil_iff.mpr hk
  rw [List.flatMap_append, List.flatMap_append, List.flatMap_cons, List.flatMap_cons,
    hnil g hgpost, hnil f hpost, hi, hgpre]
  simp

/-- An entry that has nothing may leave the list. -/
theorem flatMap_filter {q : Fin n → Bool} (h : ∀ j ∈ order, q j = false → f j = []) :
    (order.filter q).flatMap f = order.flatMap f := by
  induction order with
  | nil => rfl
  | cons j l ih =>
      have hl := ih fun k hk => h k (List.mem_cons_of_mem _ hk)
      cases hq : q j with
      | true => rw [List.filter_cons_of_pos hq, List.flatMap_cons, List.flatMap_cons, hl]
      | false =>
          rw [List.filter_cons_of_neg (by simp [hq]), List.flatMap_cons, hl,
            h j (List.mem_cons_self ..) hq, List.nil_append]

end Aged

end OneHot
