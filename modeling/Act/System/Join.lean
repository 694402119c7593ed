import Act.System.Io
import Mathlib.Data.Fintype.Sum

set_option autoImplicit false

/-! # The composed system shuts down

`fd_get` never waits: it pops the pool with `CF_QUEUE_NOWAIT` and opens the device when the
pool is empty; `fd_put` and `close` never wait either. So the descriptor pools add no wait to
the shutdown of `Pipeline/Shutdown.lean`. Once `g_running` is false, a thread in a transfer
has at most two descriptor steps left (`fd_get`, then `fd_put` or `close`) before the step
that reports the transfer, and a thread enters a transfer only by a step of its own.

Three of the pipeline's steps to the exit pay for one of them and for the two descriptor
steps of a transfer it may enter. So every interleaving of the composed system takes at most
`3 * (4 + 9 * Q * T + 4 * D) + 2 * (Q * T + 2 * D)` thread steps once `g_running` is
cleared (`system_shutdown_steps_le`). A thread that has not left can always move, so some
schedule of that length brings every thread to its exit, after which the `fd_close_all`
loops close every descriptor (`system_shutdown_closes_all`).

`main` does not wait for every thread before it closes anything: it runs `fd_close_all(d)`
right after joining device `d`'s loops, while the loops of later devices still run. A loop
holds descriptors of its own device only, so from then on nothing of `d` is held or opened,
and `main`'s passes close all of `d`'s descriptors (`device_closed_after_join`).
-/

namespace Act.Io

open Pipeline Finset

variable {Q T D C : Nat}

/-! ## Counting the I/O threads -/

instance : Fintype Dir where
  elems := {.read, .write}
  complete x := by cases x <;> simp

/-- The I/O threads are the workers and the two large-block loops of each device. -/
def IoThread.equiv : IoThread Q T D ≃ Worker Q T ⊕ Dir × Fin D where
  toFun
    | .worker w => .inl w
    | .large dir d => .inr (dir, d)
  invFun
    | .inl w => .worker w
    | .inr (dir, d) => .large dir d
  left_inv t := by cases t <;> rfl
  right_inv x := by rcases x with w | ⟨dir, d⟩ <;> rfl

instance : Fintype (IoThread Q T D) := Fintype.ofEquiv _ IoThread.equiv.symm

theorem card_dir : Fintype.card Dir = 2 := rfl

theorem card_ioThread : Fintype.card (IoThread Q T D) = Q * T + 2 * D := by
  rw [Fintype.card_congr IoThread.equiv, Fintype.card_sum, Fintype.card_prod,
    Fintype.card_prod, Fintype.card_fin, Fintype.card_fin, Fintype.card_fin, card_dir]

/-! ## Steps to the exit -/

/-- The descriptor steps thread `t` has left in its transfer: two while it holds nothing and
has no outcome, one while it holds a descriptor. -/
def ioLeft (m : Slots Q T D C) (s : State Q T D C) (t : IoThread Q T D) : Nat :=
  if transferDevice s.pipe t = none then 0
  else
    match s.outcome t, s.fds.threads (m.slot t) with
    | some _, _ => 0
    | none, .holding _ _ => 1
    | none, .idle => 2

/-- The steps left to the composed system once `g_running` is false: three per step left to
the pipeline, and the descriptor steps left in the transfers under way. -/
def stepsLeft (m : Slots Q T D C) (s : State Q T D C) : Nat :=
  3 * Pipeline.toExit s.pipe + ∑ t, ioLeft m s t

/-- The steps of the threads; not `main`'s and not time's. -/
def Action.isThread : Action Q T D → Bool
  | .pipe a => a.isThread
  | .closeOne _ => false
  | _ => true

theorem ioLeft_le (m : Slots Q T D C) (s : State Q T D C) (t : IoThread Q T D) :
    ioLeft m s t ≤ 2 := by
  unfold ioLeft
  split
  · omega
  · split <;> omega

theorem stepsLeft_le (m : Slots Q T D C) (s : State Q T D C) :
    stepsLeft m s ≤ 3 * (4 + 9 * (Q * T) + 4 * D) + 2 * (Q * T + 2 * D) := by
  have h1 := Pipeline.toExit_le s.pipe
  have h2 := Finset.sum_le_card_nsmul univ (fun t => ioLeft m s t) 2 fun t _ => ioLeft_le m s t
  rw [card_univ, card_ioThread, Nat.nsmul_eq_mul] at h2
  unfold stepsLeft
  omega

/-- A thread whose transfer, outcome and descriptor are as before has as many descriptor
steps left. -/
theorem ioLeft_congr {m : Slots Q T D C} {s s' : State Q T D C} {t : IoThread Q T D}
    (hd : transferDevice s'.pipe t = transferDevice s.pipe t) (ho : s'.outcome t = s.outcome t)
    (hh : s'.fds.threads (m.slot t) = s.fds.threads (m.slot t)) : ioLeft m s' t = ioLeft m s t := by
  simp only [ioLeft, hd, ho, hh]

/-- The descriptor steps left when only thread `t`'s may have changed. -/
theorem sum_ioLeft {m : Slots Q T D C} {s s' : State Q T D C} {t : IoThread Q T D}
    (h : ∀ t', t' ≠ t → ioLeft m s' t' = ioLeft m s t') :
    ∑ t', ioLeft m s' t' + ioLeft m s t = ∑ t', ioLeft m s t' + ioLeft m s' t := by
  have hf : Function.update (ioLeft m s) t (ioLeft m s' t) = ioLeft m s' := by
    funext t'
    by_cases ht : t' = t
    · subst ht; exact Function.update_same _ _ _
    · rw [Function.update_noteq ht, h t' ht]
  have := sum_update_add id (ioLeft m s) t (ioLeft m s' t)
  simpa only [hf, id] using this

/-- The thread a step reports is the thread it moves. -/
theorem mover_of_reports {p : Pipeline.State Q T D} {a : Pipeline.Action Q T D}
    {t : IoThread Q T D} {ok : Bool} (hr : reports p a = some (t, ok)) : mover a = some t := by
  cases a <;> simp only [reports] at hr <;> (try split at hr) <;> cases hr <;> rfl

/-- The thread a step reports is in a transfer. -/
theorem transferDevice_of_reports {p : Pipeline.State Q T D} {a : Pipeline.Action Q T D}
    {t : IoThread Q T D} {ok : Bool} (hr : reports p a = some (t, ok)) :
    transferDevice p t ≠ none := by
  cases a <;> simp only [reports] at hr <;> (try split at hr) <;> cases hr <;>
    simp [transferDevice, *]

/-- A step that reports a transfer can report it with either outcome. -/
theorem reports_retarget {cfg : Config Q D} {p p' : Pipeline.State Q T D}
    {a : Pipeline.Action Q T D} {t : IoThread Q T D} {ok : Bool}
    (hr : reports p a = some (t, ok)) (h : Pipeline.step cfg p a = some p') (ok' : Bool) :
    ∃ a', a'.isThread ∧ reports p a' = some (t, ok') ∧
      ∃ p'', Pipeline.step cfg p a' = some p'' := by
  cases a with
  | worker w ok0 =>
    refine ⟨.worker w ok', rfl, ?_⟩
    simp only [reports] at hr ⊢
    split at hr
    next r t0 hw =>
      cases hr
      refine ⟨by simp only [hw], ?_⟩
      simp only [Pipeline.step, workerStep, hw]
      split <;> exact ⟨_, rfl⟩
    next => cases hr
  | large dir d ok0 start lag =>
    refine ⟨.large dir d ok' start lag, rfl, ?_⟩
    simp only [reports] at hr ⊢
    split at hr
    next hl =>
      cases hr
      refine ⟨by simp only [hl], ?_⟩
      simp only [Pipeline.step, largeStep, hl] at h ⊢
      split at h
      · exact ⟨_, if_pos ‹_›⟩
      · cases h
    next => cases hr
  | _ => simp [reports] at hr

/-! ## Every thread step brings the exit closer -/

section Cleared

variable {cfg : Config Q D} {m : Slots Q T D C} {s s' : State Q T D C}

theorem stepsLeft_pipe {a : Pipeline.Action Q T D} (hs : s.pipe.running = false)
    (h : step cfg m s (.pipe a) = some s') :
    s'.pipe.running = false ∧ stepsLeft m s' + (if a.isThread then 1 else 0) ≤ stepsLeft m s := by
  obtain ⟨hf, hp, ho⟩ := step_pipe h
  obtain ⟨hrun, hle⟩ := Pipeline.step_toExit hs hp
  refine ⟨hrun, ?_⟩
  -- only the thread the step moves may change its descriptor steps
  have hother : ∀ t, mover a ≠ some t → ioLeft m s' t = ioLeft m s t := by
    intro t ht
    refine ioLeft_congr (transferDevice_frame hp ht) ?_ (by rw [hf])
    rcases ho with ⟨-, he⟩ | ⟨t0, ok, hr, -, he⟩
    · rw [he]
    · rw [he, Function.update_noteq fun htt => ht (by rw [htt]; exact mover_of_reports hr)]
  unfold stepsLeft
  cases hm : mover a with
  | none =>
    have hsum : ∑ t, ioLeft m s' t = ∑ t, ioLeft m s t :=
      Finset.sum_congr rfl fun t _ => hother t (by simp [hm])
    rw [hsum]
    generalize (if a.isThread = true then 1 else 0) = k at hle ⊢
    omega
  | some t0 =>
    -- a step of an I/O thread; it may enter a transfer, with two descriptor steps
    have hsum := sum_ioLeft fun t ht => hother t fun he =>
      ht (Option.some.inj (hm ▸ he)).symm
    have := ioLeft_le m s' t0
    have hth : a.isThread = true := by cases a <;> simp_all [mover, Pipeline.Action.isThread]
    rw [hth, if_pos rfl] at hle ⊢
    omega

theorem stepsLeft_get {t : IoThread Q T D} {fd : Nat} {openOk : Bool}
    (h : step cfg m s (.get t fd openOk) = some s') :
    s'.pipe = s.pipe ∧ stepsLeft m s' + 1 ≤ stepsLeft m s := by
  obtain ⟨d, htd, hot, hp, hget, ho⟩ := step_get h
  obtain ⟨hidle, hth⟩ := fdGet_threads hget
  refine ⟨hp, ?_⟩
  have hother : ∀ t', t' ≠ t → ioLeft m s' t' = ioLeft m s t' := by
    intro t' ht'
    refine ioLeft_congr (by rw [hp]) ?_ ?_
    · rcases ho with ⟨-, he⟩ | ⟨-, he⟩ <;> rw [he]
      exact Function.update_noteq ht' _ _
    · have hne : m.slot t' ≠ m.slot t := fun he => ht' (m.injective he)
      rcases hth with ⟨fd', he⟩ | he <;> rw [he]
      exact Function.update_noteq hne _ _
  -- the thread had two descriptor steps left, and has one or none
  have hbefore : ioLeft m s t = 2 := by simp [ioLeft, htd, hot, hidle]
  have hafter : ioLeft m s' t ≤ 1 := by
    rcases ho with ⟨hn, he⟩ | ⟨-, he⟩
    · cases hh : s'.fds.threads (m.slot t) with
      | idle => exact absurd hh hn
      | holding d' fd' => simp [ioLeft, hp, he, hot, hh, htd]
    · simp [ioLeft, hp, he]
  have := sum_ioLeft hother
  unfold stepsLeft
  rw [hp]
  omega

theorem stepsLeft_put {t : IoThread Q T D} {ok : Bool} (hi : Coupled m s)
    (h : step cfg m s (.put t) = some s' ∧ ok = true ∨
      step cfg m s (.close t) = some s' ∧ ok = false) :
    s'.pipe = s.pipe ∧ stepsLeft m s' + 1 ≤ stepsLeft m s := by
  obtain ⟨hsome, hp, hput, ho⟩ := step_put h
  obtain ⟨⟨d, fd, hh⟩, hth⟩ := fdPut_threads hput
  refine ⟨hp, ?_⟩
  have hother : ∀ t', t' ≠ t → ioLeft m s' t' = ioLeft m s t' := fun t' ht' =>
    ioLeft_congr (by rw [hp]) (by rw [ho]; exact Function.update_noteq ht' _ _)
      (by rw [hth]; exact Function.update_noteq (fun he => ht' (m.injective he)) _ _)
  -- the thread held its descriptor with no outcome, and now has its outcome
  obtain ⟨hd, hn⟩ := hi.held t d fd hh
  have hbefore : ioLeft m s t = 1 := by simp [ioLeft, hd, hn, hh]
  have hafter : ioLeft m s' t = 0 := by simp [ioLeft, ho]
  have := sum_ioLeft hother
  unfold stepsLeft
  rw [hp]
  omega

/-- Once `g_running` is false it stays false, and every thread step of the composed system
brings it one step closer to every thread's exit. -/
theorem stepsLeft_step {a : Action Q T D} (hi : Coupled m s) (hs : s.pipe.running = false)
    (h : step cfg m s a = some s') :
    s'.pipe.running = false ∧ stepsLeft m s' + (if a.isThread then 1 else 0) ≤ stepsLeft m s := by
  cases a with
  | pipe a => exact stepsLeft_pipe hs h
  | get t fd openOk =>
    obtain ⟨hp, hle⟩ := stepsLeft_get h
    exact ⟨hp ▸ hs, hle⟩
  | put t =>
    obtain ⟨hp, hle⟩ := stepsLeft_put hi (.inl ⟨h, rfl⟩)
    exact ⟨hp ▸ hs, hle⟩
  | close t =>
    obtain ⟨hp, hle⟩ := stepsLeft_put hi (.inr ⟨h, rfl⟩)
    exact ⟨hp ▸ hs, hle⟩
  | closeOne d =>
    -- `main`'s pass touches no thread
    obtain ⟨-, hp, ho, hf⟩ := step_closeOne h
    have hth := fdCloseOne_threads hf
    refine ⟨hp ▸ hs, ?_⟩
    simp only [stepsLeft, ioLeft, hp, ho, hth, Action.isThread, Bool.false_eq_true, if_false]
    omega

/-- Along a run from a reachable state with `g_running` false, the thread steps and the
steps left at the end add up to at most the steps left at the start. -/
theorem run_stepsLeft {l : List (Action Q T D)} (h : Reachable cfg m s)
    (hs : s.pipe.running = false) (hr : runSteps (step cfg m) s l = some s') :
    l.countP Action.isThread + stepsLeft m s' ≤ stepsLeft m s := by
  induction l generalizing s with
  | nil => cases hr; simp
  | cons a rest ih =>
    simp only [runSteps] at hr
    cases h1 : step cfg m s a with
    | none => simp [h1] at hr
    | some s1 =>
      simp only [h1, Option.some_bind] at hr
      obtain ⟨hs1, hle⟩ := stepsLeft_step (coupled_reachable h) hs h1
      have := ih (h.step a h1) hs1 hr
      rw [List.countP_cons]
      generalize (if a.isThread = true then 1 else 0) = k at hle ⊢
      omega

end Cleared

/-! ## No thread is ever stuck -/

/-- A thread that has not left its loop can always move: by a pipeline step, or, in a
transfer, by its `fd_get` (which does not wait), its `fd_put` or the step that reports the
transfer. -/
theorem exists_step {cfg : Config Q D} {m : Slots Q T D C} {s : State Q T D C}
    (hdev : ∀ d, (cfg.devices d).numReadOffsets ≠ 0) (hx : ¬ AllExited s.pipe) :
    ∃ a, a.isThread ∧ step cfg m s a ≠ none := by
  obtain ⟨a, ha⟩ := Classical.not_forall.1 fun h => hx (allExited_of_stuck hdev h)
  obtain ⟨hth, hne⟩ := Classical.not_imp.1 ha
  obtain ⟨p', hp'⟩ := Option.ne_none_iff_exists'.1 hne
  cases hr : reports s.pipe a with
  | none => exact ⟨.pipe a, hth, by simp [step, hr, hp']⟩
  | some tok =>
    obtain ⟨t, ok⟩ := tok
    obtain ⟨d, hd⟩ := Option.ne_none_iff_exists'.1 (transferDevice_of_reports hr)
    cases ho : s.outcome t with
    | some ok' =>
      -- the transfer is over: report it
      obtain ⟨a', hth', hr', p'', hp''⟩ := reports_retarget hr hp' ok'
      exact ⟨.pipe a', hth', by simp [step, hr', ho, hp'']⟩
    | none =>
      cases hh : s.fds.threads (m.slot t) with
      | holding d' fd => exact ⟨.put t, rfl, by simp [step, hd, FdPool.fdPut, hh]⟩
      | idle =>
        -- `fd_get` with a failing `open` always returns
        refine ⟨.get t 0 false, rfl, ?_⟩
        simp only [step, hd, ho, FdPool.fdGet, hh]
        split <;> simp

/-- From a reachable state where `g_running` is false some schedule brings every thread to
its exit, in at most as many steps as are left. -/
theorem exists_run_allExited {cfg : Config Q D} {m : Slots Q T D C}
    (hdev : ∀ d, (cfg.devices d).numReadOffsets ≠ 0) {s : State Q T D C}
    (h : Reachable cfg m s) (hs : s.pipe.running = false) :
    ∃ l s', runSteps (step cfg m) s l = some s' ∧ l.length ≤ stepsLeft m s ∧
      Reachable cfg m s' ∧ AllExited s'.pipe := by
  -- some thread can move, and moving brings it closer to its exit
  have hstep : ∀ s : State Q T D C, Reachable cfg m s ∧ s.pipe.running = false →
      ¬ AllExited s.pipe → ∃ a s', step cfg m s a = some s' ∧
        (Reachable cfg m s' ∧ s'.pipe.running = false) ∧ stepsLeft m s' < stepsLeft m s := by
    rintro s ⟨h, hs⟩ hx
    obtain ⟨a, hth, hne⟩ := exists_step (m := m) hdev hx
    obtain ⟨s1, h1⟩ := Option.ne_none_iff_exists'.1 hne
    obtain ⟨hs1, hle⟩ := stepsLeft_step (coupled_reachable h) hs h1
    rw [if_pos hth] at hle
    exact ⟨a, s1, h1, ⟨h.step a h1, hs1⟩, by omega⟩
  obtain ⟨l, s', hr, hlen, ⟨hreach, -⟩, hx⟩ := exists_runSteps_of_measure (stepsLeft m) hstep ⟨h, hs⟩
  exact ⟨l, s', hr, hlen, hreach, hx⟩

/-! ## Shutdown -/

/-- Once `g_running` is cleared, every interleaving of the composed system, whatever the
clock, the outcomes of the transfers and of `open`, takes at most
`3 * (4 + 9 * Q * T + 4 * D) + 2 * (Q * T + 2 * D)` thread steps: the descriptor pools never
make a thread wait. -/
theorem system_shutdown_steps_le {cfg : Config Q D} {m : Slots Q T D C} {s s' : State Q T D C}
    {l : List (Action Q T D)} (h : Reachable cfg m s) (hs : s.pipe.running = false)
    (hr : runSteps (step cfg m) s l = some s') :
    l.countP Action.isThread ≤ 3 * (4 + 9 * (Q * T) + 4 * D) + 2 * (Q * T + 2 * D) := by
  have := run_stepsLeft h hs hr
  have := stepsLeft_le m s
  omega

/-- When no device has zero read offsets, from every reachable state where `g_running` is
false some schedule of at most `3 * (4 + 9 * Q * T + 4 * D) + 2 * (Q * T + 2 * D)` steps
brings every thread to its exit; `main`'s joins then return, and its `fd_close_all` loops
close every descriptor the run opened. -/
theorem system_shutdown_closes_all {cfg : Config Q D} {m : Slots Q T D C}
    {s : State Q T D C} (hdev : ∀ d, (cfg.devices d).numReadOffsets ≠ 0)
    (h : Reachable cfg m s) (hs : s.pipe.running = false) :
    ∃ l s', runSteps (step cfg m) s l = some s' ∧
      l.length ≤ 3 * (4 + 9 * (Q * T) + 4 * D) + 2 * (Q * T + 2 * D) ∧ AllExited s'.pipe ∧
      ∃ f', runSteps FdPool.step s'.fds (FdPool.closeAll s'.fds (List.finRange D)) = some f' ∧
        (∀ d, f'.pools d = []) ∧ ∀ fd, f'.opened fd = none := by
  obtain ⟨l, s', hr, hlen, hreach, hx⟩ := exists_run_allExited hdev h hs
  exact ⟨l, s', hr, le_trans hlen (stepsLeft_le m s), hx,
    closeAll_closes (reachable_fds hreach) (idle_of_allExited hreach hx)⟩

/-! ## Device by device

`main` joins device `d`'s two large-block loops and runs `fd_close_all(d)` before it joins
the next device's loops, which may still be in their transfers meanwhile. A loop only ever
holds descriptors of its own device, so nothing of `d` is held once `d`'s loops have
joined, and nothing of `d` is opened again. -/

section Device

variable {cfg : Config Q D} {m : Slots Q T D C} {s : State Q T D C} {d : Fin D}

/-- Once `main` has joined the generator, the workers and device `d`'s loops, no thread holds
a descriptor of `d`. -/
theorem not_holding_of_joinedDevice (h : Reachable cfg m s) (hj : JoinedDevice s.pipe d)
    (c : Fin C) (fd : Nat) : s.fds.threads c ≠ .holding d fd := by
  intro hh
  have hc := coupled_reachable h
  by_cases hs : ∃ t, m.slot t = c
  · obtain ⟨t, rfl⟩ := hs
    have ht := (hc.held t d fd hh).1
    cases t with
    | worker w => simp [transferDevice, hj.1.2 w] at ht
    | large dir d' =>
      -- a large-block loop in a transfer is on its own device, which is not `d`
      simp only [transferDevice] at ht
      split at ht
      · next hb =>
        cases ht
        cases dir
        · exact absurd (hb ▸ hj.2.1.symm) (by simp)
        · exact absurd (hb ▸ hj.2.2.symm) (by simp)
      · cases ht
  · rw [hc.others c fun t ht => hs ⟨t, ht⟩] at hh
    cases hh

/-- From then on every descriptor open on `d` is in `d`'s pool. -/
theorem pooled_of_joinedDevice (h : Reachable cfg m s) (hj : JoinedDevice s.pipe d) {fd : Nat}
    (ho : s.fds.opened fd = some d) : fd ∈ s.fds.pools d := by
  by_contra hp
  obtain ⟨c, hc⟩ := (FdPool.exclusive_reachable (reachable_fds h)).held_of_not_pooled ho hp
  exact not_holding_of_joinedDevice h hj c fd hc

/-- `main`'s passes of `fd_close_all(d)` are those of the descriptor model. -/
theorem runSteps_closeOne :
    ∀ (n : Nat) (s : State Q T D C) {f' : FdPool.State C D}, JoinedDevice s.pipe d →
      runSteps FdPool.step s.fds (List.replicate n (.closeOne d)) = some f' →
      runSteps (step cfg m) s (List.replicate n (.closeOne d)) = some { s with fds := f' }
  | 0, s, f', _, hr => by cases hr; rfl
  | n + 1, s, f', hj, hr => by
    simp only [List.replicate_succ, runSteps, FdPool.step] at hr ⊢
    obtain ⟨f1, h1, hr⟩ := Option.bind_eq_some.1 hr
    have hs1 : step cfg m s (.closeOne d) = some { s with fds := f1 } := by
      simp [step, hj, h1]
    rw [hs1, Option.some_bind]
    exact runSteps_closeOne n { s with fds := f1 } hj hr

/-- `main` runs `fd_close_all(d)` once it has joined the generator, the workers and device
`d`'s two large-block loops, while the loops of the devices after `d` may still run. At
every state any interleaving reaches from then on, no thread holds a descriptor of `d` and
every descriptor open on `d` is in `d`'s pool, so once `fd_close_all(d)` has emptied the
pool nothing of `d` is open. The loop never waits: `main`'s passes over the descriptors
pooled there run to their end and close every descriptor of `d`. -/
theorem device_closed_after_join (h : Reachable cfg m s) (hj : JoinedDevice s.pipe d) :
    (∀ c fd, s.fds.threads c ≠ .holding d fd) ∧
      (∀ fd, s.fds.opened fd = some d → fd ∈ s.fds.pools d) ∧
      ∃ s', runSteps (step cfg m) s
          (List.replicate (s.fds.pools d).length (.closeOne d)) = some s' ∧
        s'.fds.pools d = [] ∧ ∀ fd, s'.fds.opened fd ≠ some d := by
  obtain ⟨f', hrun, hempty, -, -⟩ := FdPool.drain_run d _ s.fds rfl
  have hrun' : runSteps (step cfg m) s _ = some { s with fds := f' } :=
    runSteps_closeOne _ s hj hrun
  have hreach : Reachable cfg m { s with fds := f' } := Reach.runSteps h hrun'
  refine ⟨not_holding_of_joinedDevice h hj, fun fd => pooled_of_joinedDevice h hj,
    _, hrun', hempty, fun fd ho => ?_⟩
  have := pooled_of_joinedDevice hreach hj ho
  simp [hempty] at this

end Device

/-! ## One worker, one device -/

/-- `main` clears `g_running` while the worker holds descriptor `7` in its read. -/
def stopInRead : List (Action 1 1 1) := openSeven ++ [.pipe .stop]

/-- From the middle of the worker's read the shutdown finishes and closes `7`. -/
theorem system_shutdown_closes_all_inRead :
    ∃ s : State 1 1 1 3, Reachable cfgOne slotsOne s ∧ s.pipe.running = false ∧
      s.fds.threads 0 = .holding 0 7 ∧ (∀ d, (cfgOne.devices d).numReadOffsets ≠ 0) ∧
      ∃ l s', runSteps (step cfgOne slotsOne) s l = some s' ∧
        l.length ≤ 3 * (4 + 9 * (1 * 1) + 4 * 1) + 2 * (1 * 1 + 2 * 1) ∧ AllExited s'.pipe ∧
        ∃ f', runSteps FdPool.step s'.fds (FdPool.closeAll s'.fds (List.finRange 1)) = some f' ∧
          (∀ d, f'.pools d = []) ∧ ∀ fd, f'.opened fd = none := by
  obtain ⟨s, hs, hp⟩ : ∃ s, Reachable cfgOne slotsOne s ∧
      decide (s.pipe.running = false ∧ s.fds.threads 0 = .holding 0 7) = true :=
    exists_reach_of_runSteps startOne start_startOne stopInRead _ (by decide)
  have hp := of_decide_eq_true hp
  have hdev : ∀ d, (cfgOne.devices d).numReadOffsets ≠ 0 := fun d => by simp [cfgOne]
  exact ⟨s, hs, hp.1, hp.2, hdev, system_shutdown_closes_all hdev hs hp.1⟩

/-- `startOne` after `main` clears `g_running`. -/
def stoppedOne : State 1 1 1 3 :=
  ⟨{ Pipeline.init cfgOne 0 with running := false }, FdPool.init, fun _ => none⟩

/-- The generator and the worker leave. -/
def twoExits : List (Action 1 1 1) := [.pipe (.gen 0 0 0), .pipe (.worker (0, 0) true)]

/-- From `stoppedOne` the generator and the worker leave in one step each. -/
theorem system_shutdown_steps_le_stopped :
    ∃ s', Reachable cfgOne slotsOne stoppedOne ∧ stoppedOne.pipe.running = false ∧
      runSteps (step cfgOne slotsOne) stoppedOne twoExits = some s' ∧
      twoExits.countP Action.isThread ≤ 3 * (4 + 9 * (1 * 1) + 4 * 1) + 2 * (1 * 1 + 2 * 1) := by
  have hreach : Reachable cfgOne slotsOne stoppedOne :=
    (Reach.init start_startOne).step (.pipe .stop) rfl
  obtain ⟨s', hrun⟩ : ∃ s', runSteps (step cfgOne slotsOne) stoppedOne twoExits = some s' :=
    ⟨_, rfl⟩
  exact ⟨s', hreach, rfl, hrun, system_shutdown_steps_le hreach rfl hrun⟩

/-! ## Two devices -/

/-- One queue with one worker over two devices like `cfgOne`'s, with their large-block
loops. -/
def cfgTwo : Config 1 2 where
  devices := fun _ => ⟨8192, 262144, 4096, 4096⟩
  largeBlocks := true
  queues_pos := by decide
  devices_pos := by decide

/-- The worker has slot `0`, the large-block readers `1` and `2`, the writers `3` and `4`. -/
def slotsTwo : Slots 1 1 2 5 where
  slot
    | .worker _ => 0
    | .large .read d => ⟨1 + d.val, by have := d.isLt; omega⟩
    | .large .write d => ⟨3 + d.val, by have := d.isLt; omega⟩
  injective := by decide

/-- `cfgTwo` with nothing pooled and nothing open. -/
def startTwo : State 1 1 2 5 := ⟨Pipeline.init cfgTwo 0, FdPool.init, fun _ => none⟩

theorem start_startTwo : Start cfgTwo startTwo :=
  ⟨⟨0, rfl⟩, Reach.init rfl, fun _ => rfl, fun _ => rfl⟩

/-- The loops allocate their buffers, but device `1`'s writer, whose `cf_valloc` fails and
which returns. Device `0`'s reader opens descriptor `4`, reads and puts it back; device
`1`'s reader opens `5` and is still reading when `main` clears `g_running`; device `0`'s
loops, the generator and the worker leave. -/
def joinFirstDevice : List (Action 1 1 2) :=
  [.pipe (.large .read 0 true 0 false), .pipe (.large .read 1 true 0 false),
    .pipe (.large .write 0 true 0 false), .pipe (.large .write 1 false 0 false),
    .pipe (.large .read 0 true 0 false), .get (.large .read 0) 4 true, .put (.large .read 0),
    .pipe (.large .read 0 true 0 false), .pipe (.large .read 1 true 0 false),
    .get (.large .read 1) 5 true, .pipe .stop, .pipe (.large .read 0 true 0 false),
    .pipe (.large .write 0 true 0 false), .pipe (.gen 0 0 0), .pipe (.worker (0, 0) true)]

/-- After `joinFirstDevice`, `main`'s `fd_close_all(0)` closes descriptor `4` while device
`1`'s reader still holds `5`. -/
theorem device_closed_after_join_firstDevice :
    ∃ s : State 1 1 2 5, Reachable cfgTwo slotsTwo s ∧ JoinedDevice s.pipe 0 ∧
      s.fds.pools 0 = [4] ∧ s.fds.opened 4 = some 0 ∧ s.fds.threads 2 = .holding 1 5 ∧
      ((∀ c fd, s.fds.threads c ≠ .holding 0 fd) ∧
        (∀ fd, s.fds.opened fd = some 0 → fd ∈ s.fds.pools 0) ∧
        ∃ s', runSteps (step cfgTwo slotsTwo) s
            (List.replicate (s.fds.pools 0).length (.closeOne 0)) = some s' ∧
          s'.fds.pools 0 = [] ∧ ∀ fd, s'.fds.opened fd ≠ some 0) := by
  obtain ⟨s, hs, hp⟩ : ∃ s, Reachable cfgTwo slotsTwo s ∧
      decide (JoinedDevice s.pipe 0 ∧ s.fds.pools 0 = [4] ∧ s.fds.opened 4 = some 0 ∧
        s.fds.threads 2 = .holding 1 5) = true :=
    exists_reach_of_runSteps startTwo start_startTwo joinFirstDevice _ (by decide)
  obtain ⟨hj, hpool, hopen, hheld⟩ := of_decide_eq_true hp
  exact ⟨s, hs, hj, hpool, hopen, hheld, device_closed_after_join hs hj⟩

end Act.Io
