import CocoIbex.Machine
import Mathlib.Order.Nat
import Mathlib.Data.Nat.Find
import Mathlib.Tactic.ByContra

/-!
# Streams of Inputs

A synchronous machine on an infinite stream of inputs, one a clock cycle, and the rule by which
something comes about in it: a rank that never rises while it is awaited, and falls again and
again.

A finite run cannot say that something happens in the end, so the environment is a function from
cycles to inputs here, and what it owes is stated of all cycles: whatever it delays, it does not
delay for ever. `after` is the state in a cycle of the stream, and each of its prefixes is a
run.

## Main results

* `after_invariant` — the invariant rule for streams;
* `exists_first` — what comes about comes about a first time;
* `eventually_of_rank` — where a wait lasts until its goal, and the rank does not rise meanwhile
  but falls again and again, the goal is reached.
-/

namespace Machine

variable {σ ι : Type*}

/-- The state before input `n` of the stream. -/
def after (next : σ → ι → σ) (s : σ) (ins : ℕ → ι) : ℕ → σ
  | 0 => s
  | n + 1 => next (after next s ins n) (ins n)

/-- Nothing has been seen yet. -/
@[simp] theorem after_zero (next : σ → ι → σ) (s : σ) (ins : ℕ → ι) : after next s ins 0 = s := rfl

/-- One more input has been seen. -/
@[simp] theorem after_succ (next : σ → ι → σ) (s : σ) (ins : ℕ → ι) (n : ℕ) :
    after next s ins (n + 1) = next (after next s ins n) (ins n) := rfl

/-- The invariant rule for streams. -/
theorem after_invariant {next : σ → ι → σ} (Inv : σ → Prop) (step : ∀ s i, Inv s → Inv (next s i))
    {s : σ} (h0 : Inv s) (ins : ℕ → ι) (n : ℕ) : Inv (after next s ins n) := by
  induction n with
  | zero => exact h0
  | succ n ih => exact step _ _ ih

/-- **Rule of the falling rank.** Where `Wait` lasts until `Goal` and the rank does not rise
meanwhile, but falls again and again, the wait comes to its goal. -/
theorem eventually_of_rank (Wait : ℕ → Prop) {Goal : ℕ → Prop} (rank : ℕ → ℕ)
    (stay : ∀ n, Wait n → ¬ Goal n → Wait (n + 1) ∧ rank (n + 1) ≤ rank n)
    (progress : ∀ n, Wait n → ∃ m, n ≤ m ∧ (Wait m → Goal m ∨ rank (m + 1) < rank m)) (n : ℕ)
    (h : Wait n) : ∃ m, n ≤ m ∧ Goal m := by
  induction hr : rank n using Nat.strong_induction_on generalizing n with
  | _ r ih =>
      subst hr
      by_contra hno
      have hnot : ∀ m, n ≤ m → ¬ Goal m := fun m hm hg => hno ⟨m, hm, hg⟩
      have hwait : ∀ m, n ≤ m → Wait m ∧ rank m ≤ rank n := by
        intro m hm
        induction m, hm using Nat.le_induction with
        | base => exact ⟨h, le_rfl⟩
        | succ m hm ihm =>
            obtain ⟨hw, hle⟩ := stay m ihm.1 (hnot m hm)
            exact ⟨hw, hle.trans ihm.2⟩
      obtain ⟨m, hm, hp⟩ := progress n h
      have hlt := (hp (hwait m hm).1).resolve_left (hnot m hm)
      obtain ⟨k, hk, hg⟩ := ih (rank (m + 1)) (hlt.trans_le (hwait m hm).2) (m + 1)
        (hwait (m + 1) (by omega)).1 rfl
      exact hnot k (by omega) hg

/-- What comes about comes about a first time. -/
theorem exists_first {Goal : ℕ → Prop} {n : ℕ} (h : ∃ m, n ≤ m ∧ Goal m) :
    ∃ m, n ≤ m ∧ Goal m ∧ ∀ k, n ≤ k → k < m → ¬ Goal k := by
  classical
  have hs := Nat.find_spec h
  exact ⟨Nat.find h, hs.1, hs.2, fun k hk hlt hg => Nat.find_min h hlt ⟨hk, hg⟩⟩

end Machine
