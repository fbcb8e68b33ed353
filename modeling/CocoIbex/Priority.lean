import Mathlib.Data.List.FinRange
import Mathlib.Tactic

/-!
# Static Priority

Entries `0 … n-1` of which the lowest-numbered one that matches decides, with a default when
none does. `Outcome m v d` is that decision for the matching predicate `m`, the verdicts `v` and
the default `d`; `foldr_eq_true_iff` reads it off the loop a circuit unrolls, which runs from
the last entry to the first so that the lowest one is assigned last.

A circuit may get the matches of some entries wrong and still decide as it should.
`outcome_exchange_iff` is the exact condition, and the one argument in it is about the first
entry that counts on either side. The loop also occurs where it notes the entry itself and not a
verdict, which is `foldr_pick`.

## Main results

* `exists_first` — if anything matches, something matches first;
* `foldr_eq_true_iff` and `foldr_pick` — the unrolled loop computes the outcome;
* `outcome_exchange_iff` — exchanging the matches in a set of entries leaves the outcome as it
  was exactly when the first entry that counts in either way is none of them, or its verdict is
  that of the others.
-/

namespace Priority

variable {n : ℕ} {m m' v : Fin n → Prop} {d : Prop}

/-- Entry `r` is the lowest one that matches. -/
def First (m : Fin n → Prop) (r : Fin n) : Prop :=
  m r ∧ ∀ s < r, ¬ m s

/-- The verdict of the lowest matching entry, or the default when none matches. -/
def Outcome (m v : Fin n → Prop) (d : Prop) : Prop :=
  (∃ r, First m r ∧ v r) ∨ ((∀ r, ¬ m r) ∧ d)

/-- There is one first match. -/
theorem First.unique {r s : Fin n} (hr : First m r) (hs : First m s) : r = s := by
  rcases lt_trichotomy r s with h | h | h
  · exact absurd hr.1 (hs.2 r h)
  · exact h
  · exact absurd hs.1 (hr.2 s h)

/-- If anything matches, something matches first. -/
theorem exists_first {r : Fin n} (h : m r) : ∃ s, First m s := by
  classical
  obtain ⟨s, hs, hmin⟩ := WellFounded.has_min (wellFounded_lt (α := Fin n)) {s | m s} ⟨r, h⟩
  exact ⟨s, hs, fun t ht hmt => hmin t hmt ht⟩

/-- The first match decides. -/
theorem First.outcome {r : Fin n} (h : First m r) : Outcome m v d ↔ v r := by
  constructor
  · rintro (⟨s, hs, hv⟩ | ⟨hno, -⟩)
    · rwa [h.unique hs]
    · exact absurd h.1 (hno r)
  · exact fun hv => Or.inl ⟨r, h, hv⟩

/-- Without a match the default decides. -/
theorem outcome_none (h : ∀ r, ¬ m r) : Outcome m v d ↔ d := by
  constructor
  · rintro (⟨s, hs, -⟩ | ⟨-, hd⟩)
    · exact absurd hs.1 (h s)
    · exact hd
  · exact fun hd => Or.inr ⟨h, hd⟩

/-- Matches that are the same have the same outcome. -/
theorem outcome_congr (h : ∀ r, m r ↔ m' r) : Outcome m v d ↔ Outcome m' v d := by
  rw [funext fun r => propext (h r)]

/-- Entries that do not match may be skipped. -/
theorem outcome_skip {r : Fin n} (h : ∀ s ≤ r, ¬ m s) :
    Outcome m v d ↔ Outcome (fun s => r < s ∧ m s) v d := by
  refine outcome_congr fun s => ⟨fun hs => ⟨?_, hs⟩, And.right⟩
  by_contra hle
  exact h s (not_lt.mp hle) hs

/-! ### Two matching predicates -/

/-- The entries after `r` that decide in its absence when `x` exchanges some matches of
`m`: by the exchanged predicate if `r` itself is lost, by `m` if `r` is added. -/
def RestOf (m x : Fin n → Prop) (r s : Fin n) : Prop :=
  r < s ∧ (m r → ¬ (m s ↔ x s)) ∧ (¬ m r → m s)

/-- Exchanging the matches in `x` leaves the outcome as it was exactly when the first
entry that counts in either way is not exchanged, or its verdict is also that of the
rest. -/
theorem outcome_exchange_iff {x : Fin n → Prop} :
    (Outcome (fun r => ¬ (m r ↔ x r)) v d ↔ Outcome m v d) ↔
      ∀ r, First (fun s => m s ∨ x s) r → x r → (v r ↔ Outcome (RestOf m x r) v d) := by
  -- the two outcomes when the first entry `r` is exchanged
  have hskip : ∀ r, First (fun s => m s ∨ x s) r → x r →
      ((Outcome (fun r => ¬ (m r ↔ x r)) v d ↔ Outcome m v d) ↔
        (v r ↔ Outcome (RestOf m x r) v d)) := by
    intro r hr hxr
    have hlow : ∀ s < r, ¬ m s ∧ ¬ x s := fun s hs => not_or.mp (hr.2 s hs)
    by_cases hmr : m r
    · have hno : ∀ s ≤ r, ¬ ¬ (m s ↔ x s) := by
        intro s hs
        rcases hs.lt_or_eq with hlt | rfl
        · simp [hlow s hlt]
        · simp [hmr, hxr]
      have hfirst : First m r := ⟨hmr, fun s hs => (hlow s hs).1⟩
      have hrest : Outcome (fun s => r < s ∧ ¬ (m s ↔ x s)) v d ↔ Outcome (RestOf m x r) v d :=
        outcome_congr fun s => by simp [RestOf, hmr]
      rw [outcome_skip hno, hfirst.outcome, hrest]
      exact Iff.comm
    · have hno : ∀ s ≤ r, ¬ m s := by
        intro s hs
        rcases hs.lt_or_eq with hlt | rfl
        · exact (hlow s hlt).1
        · exact hmr
      have hfirst : First (fun r => ¬ (m r ↔ x r)) r :=
        ⟨fun h => hmr (h.mpr hxr), fun s hs => by simp [hlow s hs]⟩
      have hrest : Outcome (fun s => r < s ∧ m s) v d ↔ Outcome (RestOf m x r) v d :=
        outcome_congr fun s => by simp [RestOf, hmr]
      rw [outcome_skip hno, hfirst.outcome, hrest]
  constructor
  · exact fun h r hr hxr => (hskip r hr hxr).mp h
  · intro h
    by_cases hany : ∃ r, m r ∨ x r
    · obtain ⟨r₀, hr₀⟩ := hany
      obtain ⟨r, hr⟩ := exists_first (m := fun r => m r ∨ x r) hr₀
      by_cases hxr : x r
      · exact (hskip r hr hxr).mpr (h r hr hxr)
      · have hmr : m r := hr.1.resolve_right hxr
        have hlow : ∀ s < r, ¬ m s ∧ ¬ x s := fun s hs => not_or.mp (hr.2 s hs)
        have hfirst : First m r := ⟨hmr, fun s hs => (hlow s hs).1⟩
        have hfirst' : First (fun r => ¬ (m r ↔ x r)) r :=
          ⟨fun h => hxr (h.mp hmr), fun s hs => by simp [hlow s hs]⟩
        rw [hfirst.outcome, hfirst'.outcome]
    · have hnone : ∀ r, ¬ m r ∧ ¬ x r := fun r => not_or.mp fun hr => hany ⟨r, hr⟩
      rw [outcome_none fun r => (hnone r).1, outcome_none fun r => by simp [hnone r]]

/-! ### The unrolled loop -/

/-- The loop from the last entry of an ascending list to its first. -/
theorem foldr_list_iff (p f : Fin n → Bool) (e : Bool) :
    ∀ l : List (Fin n), l.Pairwise (· < ·) →
      (l.foldr (fun r acc => if p r then f r else acc) e = true ↔
        (∃ r ∈ l, (p r = true ∧ ∀ s ∈ l, s < r → ¬ p s = true) ∧ f r = true) ∨
          ((∀ r ∈ l, ¬ p r = true) ∧ e = true)) := by
  intro l
  induction l with
  | nil => simp
  | cons x l ih =>
      intro hl
      obtain ⟨hx, hl⟩ := List.pairwise_cons.mp hl
      rw [List.foldr_cons]
      by_cases hp : p x = true
      · rw [if_pos hp]
        constructor
        · intro hf
          refine Or.inl ⟨x, List.mem_cons_self, ⟨hp, fun s hs hsx => ?_⟩, hf⟩
          rcases List.mem_cons.mp hs with rfl | hs
          · exact absurd hsx (lt_irrefl _)
          · exact absurd (hx s hs) (not_lt.mpr hsx.le)
        · rintro (⟨r, hr, ⟨-, hmin⟩, hf⟩ | ⟨hno, -⟩)
          · rcases List.mem_cons.mp hr with rfl | hr
            · exact hf
            · exact absurd hp (hmin x List.mem_cons_self (hx r hr))
          · exact absurd hp (hno x List.mem_cons_self)
      · rw [if_neg hp, ih hl]
        simp [hp]

/-- The unrolled loop computes the outcome. -/
theorem foldr_eq_true_iff (p f : Fin n → Bool) (e : Bool) :
    (List.finRange n).foldr (fun r acc => if p r then f r else acc) e = true ↔
      Outcome (fun r => p r = true) (fun r => f r = true) (e = true) := by
  rw [foldr_list_iff p f e _ (List.pairwise_lt_finRange n)]
  simp [Outcome, First]

/-- The loop from the last entry of a list to its first, when it notes every match: what
stays is the first match. -/
theorem foldr_pick {α : Type*} (p : α → Bool) (a₀ : α) (l : List α) :
    (l.foldr (fun a sel => if p a then a else sel) a₀ = a₀ ∧ ∀ a ∈ l, p a = false) ∨
      ∃ pre a post, l = pre ++ a :: post ∧ p a = true ∧ (∀ b ∈ pre, p b = false) ∧
        l.foldr (fun a sel => if p a then a else sel) a₀ = a := by
  induction l with
  | nil => exact Or.inl ⟨rfl, List.forall_mem_nil _⟩
  | cons b l ih =>
      cases hb : p b with
      | true => exact Or.inr ⟨[], b, l, rfl, hb, List.forall_mem_nil _, by simp [hb]⟩
      | false =>
          obtain ⟨hf, hl⟩ | ⟨pre, a, post, rfl, ha, hpre, hf⟩ := ih
          · refine Or.inl ⟨by simpa [hb] using hf, fun a ha => ?_⟩
            obtain rfl | ha := List.mem_cons.mp ha
            · exact hb
            · exact hl a ha
          · refine Or.inr ⟨b :: pre, a, post, rfl, ha, fun e he => ?_, by simpa [hb] using hf⟩
            obtain rfl | he := List.mem_cons.mp he
            · exact hb
            · exact hpre e he

end Priority
