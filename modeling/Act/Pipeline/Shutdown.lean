import Act.Pipeline.Model
import Mathlib.Algebra.Order.BigOperators.Group.Finset

set_option autoImplicit false

/-! # Shutdown

`main` clears `g_running` when the run is over, or a thread clears it on overload, and
then joins the generator, the workers and the large-block loops. Nothing sets `g_running`
again, and once it is false no thread's loop goes round again: each thread leaves after a
few more steps of its own. The generator may be between its increment and its push (four
steps to its exit), a worker may have just entered `cf_queue_pop` and still pop, read,
report and free a request (nine steps), a large-block loop may be in a transfer or not
have allocated its buffer yet (two).

So after `g_running` is cleared every interleaving takes at most `4 + 9 * Q * T + 4 * D`
thread steps (`shutdown_steps_le`), and a thread that has not left its loop can always take
its next step, so a schedule stops only when every thread has left (`joins_return`). The
one exception is the generator's remainder by zero on a device with no read offset.
-/

namespace Act.Pipeline

open Finset

variable {Q T D : Nat}

/-! ## Steps to the exit -/

/-- The generator's steps to its exit once `g_running` is false. -/
def GenPc.toExit : GenPc D → Nat
  | .loop => 1
  | .incr => 4
  | .build => 3
  | .push _ => 2
  | .stopped => 0
  | .overloaded => 0

/-- A worker's steps to its exit once `g_running` is false. -/
def WorkerPc.toExit : WorkerPc D → Nat
  | .loop => 1
  | .pop => 9
  | .popped _ => 8
  | .reading _ _ => 7
  | .readOk _ _ _ => 6
  | .rawIn _ _ _ => 5
  | .readIn _ _ _ => 4
  | .reported _ => 3
  | .freed => 2
  | .exited => 0

/-- A large-block loop's steps to its exit once `g_running` is false. -/
def LargePc.toExit : LargePc → Nat
  | .alloc => 2
  | .loop => 1
  | .busy => 2
  | .exited => 0

/-- The large-block loops' steps to their exits. -/
def largeToExit (large : Dir → Fin D → LargePc) : Nat :=
  ∑ d, (large .read d).toExit + ∑ d, (large .write d).toExit

/-- The thread steps left to the run once `g_running` is false. -/
def toExit (s : State Q T D) : Nat :=
  s.gen.toExit + ∑ w, (s.workers w).toExit + largeToExit s.large

/-- The steps of the generator, the workers and the large-block loops; not `main`'s and not
time's. -/
def Action.isThread : Action Q T D → Bool
  | .gen .. | .worker .. | .large .. => true
  | _ => false

/-- Every thread has left its loop: what `main` waits for in its `pthread_join`s. -/
def AllExited (s : State Q T D) : Prop := Joined s ∧ ∀ dir d, s.large dir d = .exited

theorem GenPc.toExit_le (pc : GenPc D) : pc.toExit ≤ 4 := by
  cases pc <;> simp [GenPc.toExit]

theorem WorkerPc.toExit_le (pc : WorkerPc D) : pc.toExit ≤ 9 := by
  cases pc <;> simp [WorkerPc.toExit]

theorem LargePc.toExit_le (pc : LargePc) : pc.toExit ≤ 2 := by
  cases pc <;> decide

theorem toExit_le (s : State Q T D) : toExit s ≤ 4 + 9 * (Q * T) + 4 * D := by
  have hw := Finset.sum_le_card_nsmul univ (fun w => (s.workers w).toExit) 9
    fun w _ => WorkerPc.toExit_le _
  have hl : ∀ dir, ∑ d, (s.large dir d).toExit ≤ D * 2 := fun dir => by
    simpa using Finset.sum_le_card_nsmul univ (fun d => (s.large dir d).toExit) 2
      fun d _ => LargePc.toExit_le _
  have := hl .read
  have := hl .write
  have := s.gen.toExit_le
  simp only [card_univ, Fintype.card_prod, Fintype.card_fin, Nat.nsmul_eq_mul] at hw
  unfold toExit largeToExit
  omega

/-! ## After `g_running` is cleared -/

section Cleared

variable {cfg : Config Q D} {s s' : State Q T D}

theorem genStep_toExit {rand31 : U32} {rand48 : U64} (hs : s.running = false)
    (h : genStep cfg s rand31 rand48 = some s') : s'.running = false ∧ toExit s' < toExit s := by
  unfold genStep at h
  dsimp only at h
  repeat' split at h
  all_goals cases h
  all_goals simp_all [toExit, GenPc.toExit]

/-- Worker `w` moving closer to its exit, and nothing else the measure reads changing. -/
theorem toExit_setWorker {w : Worker Q T} {pc : WorkerPc D} (hg : s'.gen = s.gen)
    (hw : s'.workers = Function.update s.workers w pc) (hl : s'.large = s.large)
    (hpc : pc.toExit < (s.workers w).toExit) : toExit s' < toExit s := by
  have := sum_update_add WorkerPc.toExit s.workers w pc
  unfold toExit
  rw [hg, hw, hl]
  omega

theorem workerStep_toExit {w : Worker Q T} {ok : Bool} (hs : s.running = false)
    (h : workerStep s w ok = some s') : s'.running = false ∧ toExit s' < toExit s := by
  unfold workerStep at h
  repeat' split at h
  all_goals cases h
  all_goals first
    | exact absurd hs (by simp only [‹s.running = true›]; decide)
    | exact ⟨hs, toExit_setWorker rfl rfl rfl (by simp [*, WorkerPc.toExit])⟩

/-- The large-block loop `dir` of device `d` moving closer to its exit, and nothing else the
measure reads changing. -/
theorem toExit_setLarge {dir : Dir} {d : Fin D} {pc : LargePc} (hg : s'.gen = s.gen)
    (hw : s'.workers = s.workers)
    (hl : s'.large = Function.update s.large dir (Function.update (s.large dir) d pc))
    (hpc : pc.toExit < (s.large dir d).toExit) : toExit s' < toExit s := by
  have := sum_update_add LargePc.toExit (s.large dir) d pc
  unfold toExit largeToExit
  rw [hg, hw, hl]
  cases dir <;> rw [Function.update_same, Function.update_noteq (by decide)] <;> omega

theorem largeStep_toExit {dir : Dir} {d : Fin D} {ok : Bool} {start : U64} {lag : Bool}
    (hs : s.running = false) (h : largeStep s dir d ok start lag = some s') :
    s'.running = false ∧ toExit s' < toExit s := by
  unfold largeStep at h
  split at h
  next hpc =>
    cases h
    exact ⟨hs, toExit_setLarge rfl rfl rfl (by cases ok <;> simp [hpc, LargePc.toExit])⟩
  next hpc =>
    cases h
    exact ⟨hs, toExit_setLarge rfl rfl rfl (by simp [hs, hpc, LargePc.toExit])⟩
  next hpc =>
    split at h <;> cases h
    exact ⟨by simp [hs], toExit_setLarge rfl rfl rfl (by simp [hpc, LargePc.toExit])⟩
  next => cases h

/-- Once `g_running` is false it stays false, and a thread step brings the run one step
closer to every thread's exit while `main`'s steps and time leave the distance alone. -/
theorem step_toExit {a : Action Q T D} (hs : s.running = false)
    (h : step cfg s a = some s') :
    s'.running = false ∧ toExit s' + (if a.isThread then 1 else 0) ≤ toExit s := by
  cases a with
  | gen devRand hiRand loRand =>
    obtain ⟨h1, h2⟩ := genStep_toExit hs h
    exact ⟨h1, by simp only [Action.isThread, if_true]; omega⟩
  | worker w ok =>
    obtain ⟨h1, h2⟩ := workerStep_toExit hs h
    exact ⟨h1, by simp only [Action.isThread, if_true]; omega⟩
  | large dir d ok start lag =>
    obtain ⟨h1, h2⟩ := largeStep_toExit hs h
    exact ⟨h1, by simp only [Action.isThread, if_true]; omega⟩
  | stop => cases h; exact ⟨rfl, Nat.le_refl _⟩
  | tick t =>
    simp only [step] at h
    split at h <;> cases h
    exact ⟨hs, Nat.le_refl _⟩

/-- Along a run that starts with `g_running` false, the thread steps and the distance left
at the end add up to at most the distance at the start. -/
theorem run_toExit {l : List (Action Q T D)} (hs : s.running = false)
    (h : run cfg s l = some s') : l.countP Action.isThread + toExit s' ≤ toExit s := by
  induction l generalizing s with
  | nil => cases h; simp
  | cons a rest ih =>
    simp only [run, runSteps] at h
    cases h1 : step cfg s a with
    | none => simp [h1] at h
    | some s1 =>
      simp only [h1, Option.some_bind] at h
      obtain ⟨hs1, hle⟩ := step_toExit hs h1
      have := ih hs1 h
      rw [List.countP_cons]
      generalize (if a.isThread = true then 1 else 0) = k at hle ⊢
      omega

end Cleared

/-- After `g_running` is cleared, every interleaving of the generator, the workers and the
large-block loops takes at most `4 + 9 * Q * T + 4 * D` thread steps, whatever the clock and
the outcomes of the transfers. -/
theorem shutdown_steps_le {cfg : Config Q D} {s s' : State Q T D} {l : List (Action Q T D)}
    (hs : s.running = false) (h : run cfg s l = some s') :
    l.countP Action.isThread ≤ 4 + 9 * (Q * T) + 4 * D := by
  have := run_toExit hs h
  have := toExit_le s
  omega

/-- Midway through a run of `cfgOne`: the worker has popped the first request, the generator
is past its increment and holds the second, stamped and not yet pushed, when `main` clears
`g_running`. -/
def stopMidway : List (Action 1 1 1) :=
  [.gen 0 0 0, .gen 0 0 0, .gen 0 0 0, .gen 0 0 0, .worker (0, 0) true, .worker (0, 0) true,
    .gen 0 0 0, .gen 0 0 0, .gen 0 0 0, .stop]

/-- The state `stopMidway` leads to. -/
def stoppedMidway : State 1 1 1 := (run cfgOne (init cfgOne 0) stopMidway).getD (init cfgOne 0)

theorem reachable_stoppedMidway : Reachable cfgOne stoppedMidway :=
  (Reachable.init 0).run (l := stopMidway) rfl

/-- The generator pushes its request and leaves; the worker reads its request, reports it,
frees it and leaves. -/
def exitMidway : List (Action 1 1 1) :=
  [.gen 0 0 0, .gen 0 0 0] ++ List.replicate 8 (.worker (0, 0) true)

/-- From `stoppedMidway` ten thread steps bring the generator and the worker to their exits,
within the bound. -/
theorem shutdown_steps_le_midway :
    Reachable cfgOne stoppedMidway ∧ stoppedMidway.running = false ∧
      stoppedMidway.workers (0, 0) = .popped ⟨0, 0, 0, 4096, 0⟩ ∧
      stoppedMidway.gen = .push ⟨1, 0, 0, 4096, 0⟩ ∧
      (∃ s', run cfgOne stoppedMidway exitMidway = some s' ∧ Joined s' ∧
        exitMidway.countP Action.isThread ≤ 4 + 9 * (1 * 1) + 4 * 1) := by
  obtain ⟨s', hrun, hj⟩ := Option.map_eq_some'.1
    (show (run cfgOne stoppedMidway exitMidway).map (fun s => decide (Joined s)) = some true
      by decide)
  exact ⟨reachable_stoppedMidway, rfl, by decide, by decide, s', hrun, of_decide_eq_true hj,
    shutdown_steps_le rfl hrun⟩

/-! ## No thread is ever stuck -/

/-- A state where no thread can take a step is one where every thread has left its loop,
provided no device has zero read offsets (else the generator's `random_read_offset` divides
by zero). -/
theorem allExited_of_stuck {cfg : Config Q D} {s : State Q T D}
    (hdev : ∀ d, (cfg.devices d).numReadOffsets ≠ 0)
    (hstuck : ∀ a : Action Q T D, a.isThread → step cfg s a = none) : AllExited s := by
  refine ⟨⟨?_, fun w => ?_⟩, fun dir d => ?_⟩
  · have h := hstuck (.gen 0 0 0) rfl
    simp only [step, genStep] at h
    repeat' split at h
    all_goals simp_all [randomReadOffset]
  · have h := hstuck (.worker w true) rfl
    simp only [step, workerStep] at h
    repeat' split at h
    all_goals simp_all
  · have h := hstuck (.large dir d true s.clock false) rfl
    simp only [step, largeStep] at h
    repeat' split at h
    all_goals simp_all

/-- From a state where `g_running` is false some schedule brings every thread to its exit,
in at most as many steps as the distance left. -/
theorem exists_run_allExited {cfg : Config Q D} (hdev : ∀ d, (cfg.devices d).numReadOffsets ≠ 0)
    {s : State Q T D} (hs : s.running = false) :
    ∃ l s', run cfg s l = some s' ∧ l.length ≤ toExit s ∧ AllExited s' := by
  -- some thread can move, and moving brings it closer to its exit
  have hstep : ∀ s : State Q T D, s.running = false → ¬ AllExited s →
      ∃ a s', step cfg s a = some s' ∧ s'.running = false ∧ toExit s' < toExit s := by
    intro s hs hx
    obtain ⟨a, ha⟩ := Classical.not_forall.1 fun h => hx (allExited_of_stuck hdev h)
    obtain ⟨hth, hne⟩ := Classical.not_imp.1 ha
    obtain ⟨s1, h1⟩ := Option.ne_none_iff_exists'.1 hne
    obtain ⟨hs1, hle⟩ := step_toExit hs h1
    rw [if_pos hth] at hle
    exact ⟨a, s1, h1, hs1, by omega⟩
  obtain ⟨l, s', hr, hlen, -, hx⟩ := exists_runSteps_of_measure toExit hstep hs
  exact ⟨l, s', hr, hlen, hx⟩

/-- `main`'s joins return: once `g_running` is false, some schedule of at most
`4 + 9 * Q * T + 4 * D` steps brings every thread to its exit, and every schedule that comes
to a state where no thread can move has brought every thread to its exit. With the step
bound of `shutdown_steps_le`, every schedule reaches that state. -/
theorem joins_return {cfg : Config Q D} {s : State Q T D}
    (hdev : ∀ d, (cfg.devices d).numReadOffsets ≠ 0) (hs : s.running = false) :
    (∃ l s', run cfg s l = some s' ∧ l.length ≤ 4 + 9 * (Q * T) + 4 * D ∧ AllExited s') ∧
      ∀ l s', run cfg s l = some s' →
        (∀ a : Action Q T D, a.isThread → step cfg s' a = none) → AllExited s' := by
  obtain ⟨l, s', hr, hlen, hx⟩ := exists_run_allExited hdev hs
  exact ⟨⟨l, s', hr, le_trans hlen (toExit_le s), hx⟩,
    fun _ _ _ hstuck => allExited_of_stuck hdev hstuck⟩

/-- The joins return from `stoppedMidway`. -/
theorem joins_return_midway :
    Reachable cfgOne stoppedMidway ∧ stoppedMidway.workers (0, 0) = .popped ⟨0, 0, 0, 4096, 0⟩ ∧
      stoppedMidway.gen = .push ⟨1, 0, 0, 4096, 0⟩ ∧
      (∀ d, (cfgOne.devices d).numReadOffsets ≠ 0) ∧ stoppedMidway.running = false ∧
      (∃ l s', run cfgOne stoppedMidway l = some s' ∧
        l.length ≤ 4 + 9 * (1 * 1) + 4 * 1 ∧ AllExited s') ∧
      ∀ l s', run cfgOne stoppedMidway l = some s' →
        (∀ a : Action 1 1 1, a.isThread → step cfgOne s' a = none) → AllExited s' :=
  ⟨reachable_stoppedMidway, by decide, by decide, fun d => by simp [cfgOne], rfl,
    joins_return (fun d => by simp [cfgOne]) rfl⟩

end Act.Pipeline
