import CocoIbex.Machine

/-!
# Refinement

A machine against a step relation: each of its steps either fires and is a step of the relation,
or leaves the related state as it is. Then a run of the machine makes as many steps of the
relation as it fires, as long as the relation does not get stuck.

The relation is what software sees, and the machine takes many steps for one of it. That it does
not get stuck is a property of the program: from the state in which it starts, and from every
state that its steps lead to, there is a further step (`NeverStuck`). A step of the machine that
fires may use that there is one.

The module is about arbitrary states and an arbitrary relation, which need not be a function.

## Main results

* `refines` — the refinement rule: while `R` relates the states of the machine to those of the
  relation, a run makes as many steps of the relation as it fires.
-/

namespace Machine

variable {σ ι α : Type*}

/-- `n` steps of a relation lead from `a` to the state. -/
inductive Steps (r : α → α → Prop) (a : α) : ℕ → α → Prop
  | zero : Steps r a 0 a
  | succ {n : ℕ} {b c : α} (h : Steps r a n b) (hr : r b c) : Steps r a (n + 1) c

/-- No steps of the relation from `a` end where there is no further one. -/
def NeverStuck (r : α → α → Prop) (a : α) : Prop := ∀ n b, Steps r a n b → ∃ c, r b c

/-- A relation with one next state has one run. -/
theorem Steps.unique {r : α → α → Prop} (hr : ∀ a b c, r a b → r a c → b = c) {a b c : α} {n : ℕ}
    (hb : Steps r a n b) (hc : Steps r a n c) : b = c := by
  induction hb generalizing c with
  | zero =>
      cases hc
      rfl
  | succ _ hr' ih =>
      cases hc with
      | succ h hr'' =>
          rw [← ih h] at hr''
          exact hr _ _ _ hr' hr''

/-- The steps of a relation are steps of any that has them. -/
theorem Steps.mono {r r' : α → α → Prop} (hr : ∀ a b, r a b → r' a b) {a b : α} {n : ℕ}
    (h : Steps r a n b) : Steps r' a n b := by
  induction h with
  | zero => exact .zero
  | succ _ hs ih => exact ih.succ (hr _ _ hs)

/-- **Refinement rule.** While `R` relates the states of the machine to those of the relation,
a run makes as many steps of the relation as it fires. -/
theorem refines {next : σ → ι → σ} {ok : σ → ι → Prop} {fires : σ → ι → Bool} {r : α → α → Prop}
    (R : σ → α → Prop)
    (step : ∀ s i a b, R s a → r a b → ok s i →
      if fires s i then ∃ c, r a c ∧ R (next s i) c else R (next s i) a)
    {s : σ} {a : α} (h0 : R s a) (hr : NeverStuck r a) (ins : List ι)
    (hok : Along next ok s ins) :
    ∃ b, Steps r a (fired next fires s ins) b ∧ R (run next s ins) b := by
  induction ins using List.reverseRecOn with
  | nil => exact ⟨a, .zero, h0⟩
  | append_singleton ins i ih =>
      obtain ⟨hins, hi⟩ := along_concat.mp hok
      obtain ⟨b, hsteps, hR⟩ := ih hins
      obtain ⟨c, hc⟩ := hr _ b hsteps
      have hstep := step _ i b c hR hc hi
      rw [fired_concat, run_concat]
      cases hf : fires (run next s ins) i with
      | false =>
          rw [hf] at hstep
          exact ⟨b, hsteps, hstep⟩
      | true =>
          rw [hf, if_pos rfl] at hstep
          obtain ⟨d, hd, hR'⟩ := hstep
          exact ⟨d, hsteps.succ hd, hR'⟩

end Machine
