import Mathlib.Logic.Function.Basic
import CocoIbex.Machine

/-!
# Registers that Legalise what They Store

A file of registers as software sees it. A write stores what the rules of the register make of
the written word, which may depend on the other registers, and a read shows a view of what is
stored. A set or clear applies to the view and not to what is stored. A machine keeps to such a
file in every state of a run if and only if it does so in every step (`stored_run_iff`).

The addresses and the words are of arbitrary types. An operation addresses one register and
leaves the others alone, so a file is changed at one place (`eq_modify`); the rules are a
function of the whole file before the operation, with which a lock in one register can guard
another one.

The rule of the exact file is for a machine that does not always keep to it. From a step that
does not, nothing is promised of the steps behind it, and so the condition is one on all steps
of the run.

## Main results

* `eq_modify` and `modify_self` — an operation changes its register only;
* `stored_run_iff` — a run stores what the file has, in all its states, if and only if each of
  its steps meets the contract.
-/

namespace Warl

variable {A W σ ι : Type*}

/-- What a read shows of the stored words, and what a write to a register stores in it. -/
structure Rules (A W : Type*) where
  view : (A → W) → A → W
  legal : (A → W) → A → W → W

namespace Rules

variable [DecidableEq A] (R : Rules A W) (m : A → W)

/-- The file after the operation `f` on the read value of the register `a`. -/
def modify (a : A) (f : W → W) : A → W :=
  Function.update m a (R.legal m a (f (R.view m a)))

variable {R m}

/-- A register that is written is stored as its rule says. -/
@[simp] theorem modify_self (a : A) (f : W → W) :
    R.modify m a f a = R.legal m a (f (R.view m a)) :=
  Function.update_self ..

/-- An operation changes its register only, by the rules of this register. -/
theorem eq_modify {m' : A → W} {a : A} {f : W → W}
    (self : m' a = R.legal m a (f (R.view m a))) (other : ∀ b, b ≠ a → m' b = m b) :
    m' = R.modify m a f := by
  funext b
  by_cases h : b = a
  · subst h
    rw [self, modify_self]
  · rw [other b h, modify, Function.update_of_ne h]

end Rules

/-- **Rule of the exact file.** Where the steps that do to the stored words what `step` does
to a file are those that meet the contract `ok`, a run stores the words of the file
throughout if and only if all its steps meet it. -/
theorem stored_run_iff {next : σ → ι → σ} {env ok : σ → ι → Prop} {stored : σ → A → W}
    {step : (A → W) → ι → A → W}
    (h : ∀ s i, env s i → (stored (next s i) = step (stored s) i ↔ ok s i)) {s : σ}
    {ins : List ι} (henv : Machine.Along next env s ins) :
    (∀ pre, pre <+: ins → stored (Machine.run next s pre) = Machine.run step (stored s) pre)
      ↔ Machine.Along next ok s ins := by
  induction ins generalizing s with
  | nil =>
      refine ⟨fun _ => trivial, fun _ pre hpre => ?_⟩
      rw [List.prefix_nil.mp hpre]
      rfl
  | cons i ins ih =>
      constructor
      · intro hall
        have hi : stored (next s i) = step (stored s) i :=
          hall [i] (List.prefix_cons_inj i |>.mpr List.nil_prefix)
        refine ⟨(h s i henv.1).mp hi, (ih henv.2).mp fun pre hpre => ?_⟩
        rw [hi]
        exact hall (i :: pre) (List.prefix_cons_inj i |>.mpr hpre)
      · rintro ⟨hok, hrest⟩ pre hpre
        cases pre with
        | nil => rfl
        | cons j pre =>
            obtain ⟨rfl, htail⟩ := List.cons_prefix_cons.mp hpre
            rw [Machine.run_cons, Machine.run_cons, ← (h s j henv.1).mpr hok]
            exact (ih henv.2).mpr hrest pre htail

end Warl
