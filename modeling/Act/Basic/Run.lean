import Mathlib.Algebra.BigOperators.Group.Finset

set_option autoImplicit false

/-! # Runs of a thread system

The concurrent parts of `act` are modelled as a step function `step : σ → α → Option σ`: an
action names the thread that moves and the choices the environment makes for it (the
outcome of a system call, a random number, a clock reading), and `none` means the thread
cannot take that step. `Reach step start` is every state some interleaving reaches.

Each invariant is proved once per step function and lifted to every reachable state by
`Reach.inv`; a concrete run, evaluated by `decide`, gives a reachable state
(`exists_reach_of_runSteps`). Thread states are functions of the thread's name, and
`sum_update_add` is how a count over all threads changes when one thread moves.
-/

namespace Act

open Finset

variable {σ α : Type} {step : σ → α → Option σ} {start : σ → Prop}

/-- The states reachable from a state satisfying `start` by steps of `step`. -/
inductive Reach (step : σ → α → Option σ) (start : σ → Prop) : σ → Prop where
  | init {s : σ} : start s → Reach step start s
  | step {s s' : σ} (a : α) : Reach step start s → step s a = some s' → Reach step start s'

/-- An invariant that holds at the start and is kept by every step holds at every reachable
state. -/
theorem Reach.inv {P : σ → Prop} (h0 : ∀ s, start s → P s)
    (hstep : ∀ s a s', P s → step s a = some s' → P s') {s : σ} (h : Reach step start s) :
    P s := by
  induction h with
  | init hs => exact h0 _ hs
  | step a _ hs ih => exact hstep _ a _ ih hs

/-- A map that sends the start states to reachable states of another system, and each step
to a step of it or to no move, sends every reachable state to a reachable state. -/
theorem Reach.map {τ β : Type} {step' : τ → β → Option τ} {start' : τ → Prop} (f : σ → τ)
    (h0 : ∀ s, start s → Reach step' start' (f s))
    (hstep : ∀ s a s', step s a = some s' → f s' = f s ∨ ∃ b, step' (f s) b = some (f s'))
    {s : σ} (h : Reach step start s) : Reach step' start' (f s) := by
  induction h with
  | init hs => exact h0 _ hs
  | step a _ hs ih =>
    rcases hstep _ a _ hs with he | ⟨b, hb⟩
    · exact he ▸ ih
    · exact ih.step b hb

/-- The steps of a list, in order. -/
def runSteps (step : σ → α → Option σ) : σ → List α → Option σ
  | s, [] => some s
  | s, a :: rest => (step s a).bind (runSteps step · rest)

theorem runSteps_append (s : σ) (l₁ l₂ : List α) :
    runSteps step s (l₁ ++ l₂) = (runSteps step s l₁).bind (runSteps step · l₂) := by
  induction l₁ generalizing s with
  | nil => rfl
  | cons a rest ih =>
    simp only [List.cons_append, runSteps]
    cases step s a with
    | none => rfl
    | some s₁ => exact ih s₁

theorem Reach.runSteps {s s' : σ} {l : List α} (hs : Reach step start s)
    (h : Act.runSteps step s l = some s') : Reach step start s' := by
  induction l generalizing s with
  | nil => cases h; exact hs
  | cons a rest ih =>
    simp only [Act.runSteps] at h
    cases hn : step s a with
    | none => simp [hn] at h
    | some s₁ => simp only [hn, Option.bind_some] at h; exact ih (hs.step a hn) h

/-- Among the states an invariant `P` keeps, a measure that some step lowers from every
state short of the goal `G` bounds the length of a run to the goal. -/
theorem exists_runSteps_of_measure {P G : σ → Prop} (μ : σ → Nat)
    (hstep : ∀ s, P s → ¬ G s → ∃ a s', step s a = some s' ∧ P s' ∧ μ s' < μ s)
    {s : σ} (hs : P s) :
    ∃ l s', runSteps step s l = some s' ∧ l.length ≤ μ s ∧ P s' ∧ G s' := by
  obtain ⟨n, hn⟩ : ∃ n, μ s = n := ⟨_, rfl⟩
  induction n using Nat.strong_induction_on generalizing s with
  | _ n ih =>
    by_cases hg : G s
    · exact ⟨[], s, rfl, Nat.zero_le _, hs, hg⟩
    obtain ⟨a, s1, h1, hs1, hlt⟩ := hstep s hs hg
    obtain ⟨l, s', hr, hlen, hs', hg'⟩ := ih (μ s1) (hn ▸ hlt) hs1 rfl
    refine ⟨a :: l, s', ?_, by simp only [List.length_cons]; omega, hs', hg'⟩
    simp only [runSteps, h1, Option.some_bind]
    exact hr

/-- A concrete run from a start state that ends where `p` holds. -/
theorem exists_reach_of_runSteps (s₀ : σ) (h₀ : start s₀) (l : List α) (p : σ → Bool)
    (h : (runSteps step s₀ l).map p = some true) : ∃ s, Reach step start s ∧ p s = true := by
  cases hr : runSteps step s₀ l with
  | none => simp [hr] at h
  | some s =>
    simp only [hr, Option.map_some', Option.some.injEq] at h
    exact ⟨s, (Reach.init h₀).runSteps hr, h⟩

/-! ## Counts over threads -/

/-- A sum over the threads after one thread's state is replaced. -/
theorem sum_update_add {ι β : Type} [Fintype ι] [DecidableEq ι] (g : β → Nat) (f : ι → β)
    (i : ι) (b : β) :
    ∑ j, g (Function.update f i b j) + g (f i) = ∑ j, g (f j) + g b := by
  rw [← Finset.sum_erase_add _ _ (Finset.mem_univ i),
    ← Finset.sum_erase_add (f := fun j => g (f j)) _ (Finset.mem_univ i),
    Function.update_same]
  have : ∑ j in univ.erase i, g (Function.update f i b j) = ∑ j in univ.erase i, g (f j) :=
    Finset.sum_congr rfl fun j hj => by rw [Function.update_noteq (Finset.ne_of_mem_erase hj)]
  omega

end Act
