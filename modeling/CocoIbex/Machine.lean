import Mathlib.Logic.Basic
import Mathlib.Data.List.Induction

/-!
# Synchronous Machines

A synchronous circuit is a next-state function on states and inputs; a run feeds it a list of
inputs, one a clock cycle. This module has the run, the runs all of whose steps keep to a
contract (`Along`), and the rules that carry a fact of one step to every run: the invariant
rule, its form with a history of the inputs, and the simulation rule.

A contract is a predicate on the state and the input of a cycle, so `Along` is what an
environment promises over a run, and it is decidable where the predicate is. Several results say
exactly when something holds of a run, by a contract on its steps; `good_iff_along_of` has the
argument that they share. `fired` counts the cycles of a run in which an output is set, and
`firedSince` those since an event.

Everything is over arbitrary types of states and inputs. The lemmas at the ends of lists are in
both directions, since a run is extended at its end while an environment consumes it from the
front.

## Main results

* `run_induction` and `run_invariant` — the invariant rule, with and without a contract;
* `run_history` — the invariant rule with a history of the inputs;
* `good_iff_along_of` — the rule of the exact contract;
* `fired_once` — the rule of the single event.
-/

namespace Machine

variable {σ ι τ : Type*}

/-- The state after the inputs `ins`, the earliest first. -/
def run (next : σ → ι → σ) (s : σ) (ins : List ι) : σ :=
  ins.foldl next s

/-- Without inputs a run stays where it is. -/
@[simp] theorem run_nil (next : σ → ι → σ) (s : σ) : run next s [] = s := rfl

/-- A run takes its first input first. -/
@[simp] theorem run_cons (next : σ → ι → σ) (s : σ) (i : ι) (ins : List ι) :
    run next s (i :: ins) = run next (next s i) ins := rfl

/-- A run is extended at its end by one step. -/
theorem run_concat (next : σ → ι → σ) (s : σ) (ins : List ι) (i : ι) :
    run next s (ins ++ [i]) = next (run next s ins) i :=
  List.foldl_append

/-- A run is a run of its second part from the state after the first. -/
theorem run_append (next : σ → ι → σ) (s : σ) (ins ins' : List ι) :
    run next s (ins ++ ins') = run next (run next s ins) ins' :=
  List.foldl_append

/-- Every step of the run meets the contract `ok`. -/
def Along (next : σ → ι → σ) (ok : σ → ι → Prop) : σ → List ι → Prop
  | _, [] => True
  | s, i :: ins => ok s i ∧ Along next ok (next s i) ins

/-- A contract that can be decided in one step can be decided along a run. -/
instance instDecidableAlong {next : σ → ι → σ} {ok : σ → ι → Prop}
    [∀ s i, Decidable (ok s i)] (s : σ)
    (ins : List ι) : Decidable (Along next ok s ins) :=
  match ins with
  | [] => isTrue trivial
  | i :: ins =>
    have : Decidable (Along next ok (next s i) ins) := instDecidableAlong (next s i) ins
    inferInstanceAs (Decidable (ok s i ∧ Along next ok (next s i) ins))

/-- The contract of an extended run is that of the run and of its last step. -/
theorem along_concat {next : σ → ι → σ} {ok : σ → ι → Prop} {s : σ} {ins : List ι} {i : ι} :
    Along next ok s (ins ++ [i]) ↔ Along next ok s ins ∧ ok (run next s ins) i := by
  induction ins generalizing s with
  | nil => simp [Along]
  | cons j ins ih => simp only [List.cons_append, Along, ih, run_cons, and_assoc]

/-- Two contracts are met together. -/
theorem along_and {next : σ → ι → σ} {ok ok' : σ → ι → Prop} {s : σ} {ins : List ι} :
    Along next (fun s i => ok s i ∧ ok' s i) s ins
      ↔ Along next ok s ins ∧ Along next ok' s ins := by
  induction ins generalizing s with
  | nil => simp [Along]
  | cons i ins ih => simp only [Along, ih, and_and_and_comm]

/-- The contract of a run is that of its two parts. -/
theorem along_append {next : σ → ι → σ} {ok : σ → ι → Prop} {s : σ} {ins ins' : List ι} :
    Along next ok s (ins ++ ins') ↔ Along next ok s ins ∧ Along next ok (run next s ins) ins' := by
  induction ins generalizing s with
  | nil => simp [Along]
  | cons i ins ih => simp only [List.cons_append, Along, ih, run_cons, and_assoc]

/-- **Invariant rule.** What holds at the start and survives every step that meets the
contract holds after every run that meets it. -/
theorem run_induction {next : σ → ι → σ} {ok : σ → ι → Prop} (Inv : σ → Prop)
    (step : ∀ s i, Inv s → ok s i → Inv (next s i)) {s : σ} {ins : List ι}
    (h0 : Inv s) (hok : Along next ok s ins) : Inv (run next s ins) := by
  induction ins generalizing s with
  | nil => exact h0
  | cons i ins ih => exact ih (step s i h0 hok.1) hok.2

/-- **Rule of the exact contract.** In an environment `env`: where the invariant gives
`Good`, and a step against the contract leads to a state that is not `Good`, a run is `Good`
throughout if and only if all its steps keep to the contract. -/
theorem good_iff_along_of {next : σ → ι → σ} {env ok : σ → ι → Prop} (Inv Good : σ → Prop)
    (step : ∀ s i, Inv s → env s i → ok s i → Inv (next s i)) (good : ∀ s, Inv s → Good s)
    (bad : ∀ s i, Inv s → env s i → ¬ ok s i → ¬ Good (next s i)) {s : σ} (h0 : Inv s)
    (ins : List ι) (henv : Along next env s ins) :
    (∀ pre, pre <+: ins → Good (run next s pre)) ↔ Along next ok s ins := by
  constructor
  · intro h
    induction ins generalizing s with
    | nil => trivial
    | cons i ins ih =>
        have hok : ok s i := by
          by_contra hne
          exact bad s i h0 henv.1 hne (h [i] (List.prefix_cons_inj i |>.mpr List.nil_prefix))
        refine ⟨hok, ih (step s i h0 henv.1 hok) henv.2 fun pre hpre => ?_⟩
        exact h (i :: pre) (List.prefix_cons_inj i |>.mpr hpre)
  · intro hok
    induction ins generalizing s with
    | nil =>
        intro pre hpre
        rw [List.prefix_nil.mp hpre]
        exact good s h0
    | cons i ins ih =>
        intro pre hpre
        cases pre with
        | nil => exact good s h0
        | cons j pre =>
            obtain ⟨rfl, htail⟩ := List.cons_prefix_cons.mp hpre
            exact ih (step s j h0 henv.1 hok.1) henv.2 hok.2 pre htail

/-- A contract that every step meets is met by every run. -/
theorem along_of_forall {next : σ → ι → σ} {ok : σ → ι → Prop} (h : ∀ s i, ok s i) (s : σ)
    (ins : List ι) : Along next ok s ins := by
  induction ins generalizing s with
  | nil => trivial
  | cons i ins ih => exact ⟨h s i, ih (next s i)⟩

/-- An input that is fine wherever an invariant holds, and keeps the invariant, may come any
number of times. -/
theorem along_replicate {next : σ → ι → σ} {ok : σ → ι → Prop} (Inv : σ → Prop) {i : ι}
    (step : ∀ s, Inv s → ok s i ∧ Inv (next s i)) {s : σ} (h0 : Inv s) (n : ℕ) :
    Along next ok s (List.replicate n i) := by
  induction n generalizing s with
  | zero => trivial
  | succ n ih => exact ⟨(step s h0).1, ih (step s h0).2⟩

/-- The contract of a part of the state that steps on its own carries over to the whole. -/
theorem along_of_map {next : σ → ι → σ} {next' : τ → ι → τ} {ok : σ → ι → Prop}
    {ok' : τ → ι → Prop} (f : σ → τ) (h : ∀ s i, f (next s i) = next' (f s) i)
    (imp : ∀ s i, ok' (f s) i → ok s i) {s : σ} {ins : List ι}
    (hok : Along next' ok' (f s) ins) : Along next ok s ins := by
  induction ins generalizing s with
  | nil => trivial
  | cons i ins ih =>
      refine ⟨imp s i hok.1, ih ?_⟩
      rw [h]
      exact hok.2

/-- The rule in any environment. -/
theorem good_iff_along {next : σ → ι → σ} {ok : σ → ι → Prop} (Inv Good : σ → Prop)
    (step : ∀ s i, Inv s → ok s i → Inv (next s i)) (good : ∀ s, Inv s → Good s)
    (bad : ∀ s i, Inv s → ¬ ok s i → ¬ Good (next s i)) {s : σ} (h0 : Inv s) (ins : List ι) :
    (∀ pre, pre <+: ins → Good (run next s pre)) ↔ Along next ok s ins :=
  good_iff_along_of Inv Good (fun s i hi _ => step s i hi) good (fun s i hi _ => bad s i hi) h0
    ins (along_of_forall (fun _ _ => trivial) s ins)

/-- Contracts that agree where an invariant holds are met by the same runs. -/
theorem along_congr {next : σ → ι → σ} {ok ok' : σ → ι → Prop} (Inv : σ → Prop)
    (step : ∀ s i, Inv s → Inv (next s i)) (agree : ∀ s i, Inv s → (ok s i ↔ ok' s i)) {s : σ}
    (h0 : Inv s) (ins : List ι) : Along next ok s ins ↔ Along next ok' s ins := by
  induction ins generalizing s with
  | nil => rfl
  | cons i ins ih => simp only [Along, agree s i h0, ih (step s i h0)]

/-- The invariant rule for steps without a contract. -/
theorem run_invariant {next : σ → ι → σ} (Inv : σ → Prop)
    (step : ∀ s i, Inv s → Inv (next s i)) {s : σ} (ins : List ι) (h0 : Inv s) :
    Inv (run next s ins) := by
  induction ins generalizing s with
  | nil => exact h0
  | cons i ins ih => exact ih (step s i h0)

/-- Steps that agree where an invariant holds lead through the same states. -/
theorem run_congr {next next' : σ → ι → σ} (Inv : σ → Prop)
    (step : ∀ s i, Inv s → Inv (next s i)) (agree : ∀ s i, Inv s → next s i = next' s i) {s : σ}
    (h0 : Inv s) (ins : List ι) : run next s ins = run next' s ins := by
  induction ins generalizing s with
  | nil => rfl
  | cons i ins ih => rw [run_cons, run_cons, ← agree s i h0, ih (step s i h0)]

/-- A part of the state that steps on its own runs on its own. -/
theorem run_map {κ : Type*} {next : σ → ι → σ} {next' : τ → κ → τ} (f : σ → τ) (g : ι → κ)
    (h : ∀ s i, f (next s i) = next' (f s) (g i)) (s : σ) (ins : List ι) :
    f (run next s ins) = run next' (f s) (ins.map g) := by
  induction ins generalizing s with
  | nil => rfl
  | cons i ins ih => rw [run_cons, List.map_cons, run_cons, ih, h]

/-- **Invariant rule with a history.** The invariant may relate the state to the inputs
so far. -/
theorem run_history {next : σ → ι → σ} {ok : σ → ι → Prop} (Inv : List ι → σ → Prop)
    (step : ∀ ins s i, Inv ins s → ok s i → Inv (ins ++ [i]) (next s i)) {s : σ}
    (h0 : Inv [] s) (ins : List ι) (hok : Along next ok s ins) :
    Inv ins (run next s ins) := by
  induction ins using List.reverseRecOn with
  | nil => exact h0
  | append_singleton ins i ih =>
      rw [along_concat] at hok
      rw [run_concat]
      exact step ins _ i (ih hok.1) hok.2

/-- The rule with a history for steps without a contract. -/
theorem run_trace {next : σ → ι → σ} (Inv : List ι → σ → Prop)
    (step : ∀ ins s i, Inv ins s → Inv (ins ++ [i]) (next s i)) {s : σ} (h0 : Inv [] s)
    (ins : List ι) : Inv ins (run next s ins) := by
  induction ins using List.reverseRecOn with
  | nil => exact h0
  | append_singleton ins i ih =>
      rw [run_concat]
      exact step ins _ i ih

/-! ### Work that no input holds up -/

/-- The machine goes from the first state to the second in so many steps, whatever the
inputs are, and is `quiet` on the way. -/
inductive Goes (next : σ → ι → σ) (quiet : σ → Prop) : ℕ → σ → σ → Prop
  | refl (s : σ) : Goes next quiet 0 s s
  | step {n : ℕ} {s t u : σ} (hq : quiet s) (hs : ∀ i, next s i = t) (h : Goes next quiet n t u) :
      Goes next quiet (n + 1) s u

/-- One stretch after the other. -/
theorem Goes.trans {next : σ → ι → σ} {quiet : σ → Prop} {m n : ℕ} {s t u : σ}
    (h : Goes next quiet m s t) (h' : Goes next quiet n t u) : Goes next quiet (m + n) s u := by
  induction h with
  | refl s =>
      rw [Nat.zero_add]
      exact h'
  | step hq hs _ ih =>
      rw [Nat.add_right_comm]
      exact .step hq hs (ih h')

/-- Where a run of that length ends. -/
theorem Goes.run_eq {next : σ → ι → σ} {quiet : σ → Prop} {n : ℕ} {s t : σ}
    (h : Goes next quiet n s t) {ins : List ι} (hlen : ins.length = n) : run next s ins = t := by
  induction h generalizing ins with
  | refl s =>
      rw [List.eq_nil_of_length_eq_zero hlen]
      rfl
  | step _ hs _ ih =>
      cases ins with
      | nil => cases hlen
      | cons i ins =>
          rw [run_cons, hs i]
          exact ih (Nat.succ.inj hlen)

/-- A shorter run ends on the way. -/
theorem Goes.quiet_run {next : σ → ι → σ} {quiet : σ → Prop} {n : ℕ} {s t : σ}
    (h : Goes next quiet n s t) {ins : List ι} (hlen : ins.length < n) :
    quiet (run next s ins) := by
  induction h generalizing ins with
  | refl s => cases hlen
  | step hq hs _ ih =>
      cases ins with
      | nil => exact hq
      | cons i ins =>
          rw [run_cons, hs i]
          exact ih (Nat.lt_of_succ_lt_succ hlen)

/-- A run that does not meet the contract has a first step that breaks it. -/
theorem exists_first_break {next : σ → ι → σ} {ok : σ → ι → Prop} {s : σ} {ins : List ι}
    (h : ¬ Along next ok s ins) :
    ∃ pre i post, ins = pre ++ i :: post ∧ Along next ok s pre ∧ ¬ ok (run next s pre) i := by
  induction ins generalizing s with
  | nil => exact absurd trivial h
  | cons i ins ih =>
      by_cases hi : ok s i
      · obtain ⟨pre, j, post, rfl, hpre, hj⟩ := ih fun htail => h ⟨hi, htail⟩
        exact ⟨i :: pre, j, post, rfl, ⟨hi, hpre⟩, hj⟩
      · exact ⟨[], i, ins, rfl, trivial, hi⟩

/-! ### Events of a run -/

/-- How often `f` fires along a run. -/
def fired (next : σ → ι → σ) (f : σ → ι → Bool) : σ → List ι → ℕ
  | _, [] => 0
  | s, i :: ins => (f s i).toNat + fired next f (next s i) ins

/-- Nothing has fired without inputs. -/
@[simp] theorem fired_nil (next : σ → ι → σ) (f : σ → ι → Bool) (s : σ) :
    fired next f s [] = 0 := rfl

/-- The events of a run are those of its two parts. -/
theorem fired_append (next : σ → ι → σ) (f : σ → ι → Bool) (s : σ) (ins ins' : List ι) :
    fired next f s (ins ++ ins') = fired next f s ins + fired next f (run next s ins) ins' := by
  induction ins generalizing s with
  | nil => simp
  | cons i ins ih => simp only [List.cons_append, fired, ih, run_cons, Nat.add_assoc]

/-- One more step adds its event. -/
theorem fired_concat (next : σ → ι → σ) (f : σ → ι → Bool) (s : σ) (ins : List ι) (i : ι) :
    fired next f s (ins ++ [i]) = fired next f s ins + (f (run next s ins) i).toNat := by
  rw [fired_append]
  rfl

/-! ### Events between two starts -/

/-- How often `f` fired after the last step that fired `start`. -/
def firedSince (next : σ → ι → σ) (start f : σ → ι → Bool) (s : σ) (ins : List ι) : ℕ :=
  (ins.foldl
    (fun (p : σ × ℕ) i => (next p.1 i, if start p.1 i then 0 else p.2 + (f p.1 i).toNat))
    (s, 0)).2

/-- Nothing has fired since without inputs. -/
@[simp] theorem firedSince_nil (next : σ → ι → σ) (start f : σ → ι → Bool) (s : σ) :
    firedSince next start f s [] = 0 := rfl

/-- The count goes along with the run. -/
theorem foldl_fired (next : σ → ι → σ) (start f : σ → ι → Bool) (s : σ) (ins : List ι) (n : ℕ) :
    (ins.foldl
      (fun (p : σ × ℕ) i => (next p.1 i, if start p.1 i then 0 else p.2 + (f p.1 i).toNat))
      (s, n)).1 = run next s ins := by
  induction ins generalizing s n with
  | nil => rfl
  | cons i ins ih => exact ih _ _

/-- One more step either starts a new count or adds to the old one. -/
theorem firedSince_concat (next : σ → ι → σ) (start f : σ → ι → Bool) (s : σ) (ins : List ι)
    (i : ι) :
    firedSince next start f s (ins ++ [i])
      = if start (run next s ins) i then 0
        else firedSince next start f s ins + (f (run next s ins) i).toNat := by
  simp only [firedSince, List.foldl_append, List.foldl_cons, List.foldl_nil, foldl_fired]

/-- **Rule of the single event.** Where `f` leads to `Done`, `Done` lasts until the next
start, and `f` is silent in it, `f` fires at most once between two starts. -/
theorem fired_once {next : σ → ι → σ} {ok : σ → ι → Prop} {start f : σ → ι → Bool}
    (Inv Done : σ → Prop) (inv : ∀ s i, Inv s → ok s i → Inv (next s i))
    (fire : ∀ s i, Inv s → ok s i → start s i = false → f s i = true → Done (next s i))
    (keep : ∀ s i, Inv s → ok s i → start s i = false → Done s → Done (next s i))
    (quiet : ∀ s i, Inv s → ok s i → Done s → f s i = false) {s : σ} (h0 : Inv s)
    {ins : List ι} {i : ι} (hok : Along next ok s (ins ++ [i])) :
    firedSince next start f s ins + (f (run next s ins) i).toNat ≤ 1 := by
  obtain ⟨hins, hi⟩ := along_concat.mp hok
  have hinv : Inv (run next s ins) := run_induction Inv inv h0 hins
  have hcount : firedSince next start f s ins = 0 ∨
      (firedSince next start f s ins = 1 ∧ Done (run next s ins)) := by
    clear hok hi hinv
    induction ins using List.reverseRecOn with
    | nil => exact Or.inl rfl
    | append_singleton ins j ih =>
        obtain ⟨hins, hj⟩ := along_concat.mp hins
        have hinv : Inv (run next s ins) := run_induction Inv inv h0 hins
        rw [firedSince_concat, run_concat]
        cases hs : start (run next s ins) j with
        | true => exact Or.inl (by simp)
        | false =>
            obtain h | ⟨h, hd⟩ := ih hins
            · cases hf : f (run next s ins) j with
              | false => exact Or.inl (by simp [h])
              | true => exact Or.inr ⟨by simp [h], fire _ _ hinv hj hs hf⟩
            · have hq := quiet _ _ hinv hj hd
              exact Or.inr ⟨by simp [h, hq], keep _ _ hinv hj hs hd⟩
  obtain h | ⟨h, hd⟩ := hcount
  · have := Bool.toNat_le (f (run next s ins) i)
    omega
  · simp [h, quiet _ _ hinv hi hd]

end Machine
