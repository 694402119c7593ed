import Act.Device.Descriptor
import Act.Pipeline.Shutdown

set_option autoImplicit false

/-! # Transfers through the descriptor pools

`Pipeline/Model.lean` takes `read_from_device` as one step whose outcome the action chooses,
and `Device/Descriptor.lean` models `fd_get`, `fd_put` and the error-path `close` over any
interleaving of any threads. Here the two run together. A worker in `read_from_device`
(`WorkerPc.reading`) or a large-block loop in its transfer (`LargePc.busy`) calls `fd_get`
on the device of the transfer, and then `fd_put` after a transfer that succeeded or `close`
after one that failed, unless `open` failed and `fd_get` returned `-1`. Only then does its
pipeline step report the outcome: the `cf_getns` reading for a transfer that succeeded,
`-1` otherwise. That reading is taken at the reporting step, right after the `fd_put`.

`main`'s shutdown is part of the system: once it has joined the generator, the workers and
device `d`'s two large-block loops, it runs the passes of `fd_close_all(d)`, while the loops
of the devices it has not joined yet may still run.

Every run of the composed system is a run of both models (`reachable_pipe`,
`reachable_fds`), so what is proved of either holds of it. Beyond that, a thread holds a
descriptor only inside a transfer, and the descriptor is open on the device of the transfer
(`transfer_on_device`). Once `main` has joined every thread no thread holds a descriptor,
so the `fd_close_all` loops of the shutdown close every descriptor the run opened
(`joined_closeAll`).
-/

namespace Act.Io

open Pipeline

variable {Q T D C : Nat}

/-- The threads that call `read_from_device` or `write_to_device`: the workers, and the
large-block loops when they run. -/
inductive IoThread (Q T D : Nat) where
  | worker (w : Worker Q T)
  | large (dir : Dir) (d : Fin D)
deriving DecidableEq

/-- The slot of each I/O thread among the `C` threads of the descriptor model; no two I/O
threads share one. The slots of no I/O thread are `main`'s (`discover_num_blocks`), idle
once the threads start. -/
structure Slots (Q T D C : Nat) where
  slot : IoThread Q T D → Fin C
  injective : Function.Injective slot

/-- The device of the transfer thread `t` is in, if it is in one. -/
def transferDevice (p : Pipeline.State Q T D) : IoThread Q T D → Option (Fin D)
  | .worker w =>
    match p.workers w with
    | .reading r _ => some r.device
    | _ => none
  | .large dir d =>
    match p.large dir d with
    | .busy => some d
    | _ => none

/-- The thread whose transfer a pipeline step reports, with the outcome it reports. -/
def reports (p : Pipeline.State Q T D) : Pipeline.Action Q T D → Option (IoThread Q T D × Bool)
  | .worker w ok =>
    match p.workers w with
    | .reading _ _ => some (.worker w, ok)
    | _ => none
  | .large dir d ok _ _ =>
    match p.large dir d with
    | .busy => some (.large dir d, ok)
    | _ => none
  | _ => none

/-- The pipeline, the pools, and the outcome of each transfer that is finished and not yet
reported. -/
structure State (Q T D C : Nat) where
  pipe : Pipeline.State Q T D
  fds : FdPool.State C D
  /-- `some true` once the transfer has returned its `cf_getns` reading, `some false` once it
  has returned `-1`, until the pipeline step that reports it. -/
  outcome : IoThread Q T D → Option Bool

/-- One step of the composed system. -/
inductive Action (Q T D : Nat) where
  /-- A step of the pipeline. -/
  | pipe (a : Pipeline.Action Q T D)
  /-- Thread `t` calls `fd_get` on the device of its transfer; `fd` and `openOk` as in
  `FdPool.Action.get`. -/
  | get (t : IoThread Q T D) (fd : Nat) (openOk : Bool)
  /-- Thread `t` calls `fd_put` after its transfer succeeded. -/
  | put (t : IoThread Q T D)
  /-- Thread `t` closes its descriptor after its seek or transfer failed. -/
  | close (t : IoThread Q T D)
  /-- `main` makes one pass of `fd_close_all` on device `d`. -/
  | closeOne (d : Fin D)

/-- `main` is past its joins of the generator, of the workers and of device `d`'s two
large-block loops. -/
def JoinedDevice (p : Pipeline.State Q T D) (d : Fin D) : Prop :=
  Joined p ∧ p.large .read d = .exited ∧ p.large .write d = .exited

instance (p : Pipeline.State Q T D) (d : Fin D) : Decidable (JoinedDevice p d) :=
  inferInstanceAs (Decidable (_ ∧ _))

/-- The step of the composed system: a pipeline step that reports a transfer needs the
transfer finished with that outcome. -/
def step (cfg : Config Q D) (m : Slots Q T D C) (s : State Q T D C) :
    Action Q T D → Option (State Q T D C)
  | .pipe a =>
    match reports s.pipe a with
    | none => (Pipeline.step cfg s.pipe a).map fun p => { s with pipe := p }
    | some (t, ok) =>
      if s.outcome t = some ok then
        (Pipeline.step cfg s.pipe a).map fun p =>
          { s with pipe := p, outcome := Function.update s.outcome t none }
      else none
  | .get t fd openOk =>
    match transferDevice s.pipe t, s.outcome t with
    | some d, none =>
      (FdPool.fdGet s.fds (m.slot t) d fd openOk).map fun f =>
        -- `fd_get` returns `-1`: the pool was empty and `open` failed
        if f.threads (m.slot t) = .idle then
          { s with fds := f, outcome := Function.update s.outcome t (some false) }
        else { s with fds := f }
    | _, _ => none
  | .put t =>
    if (transferDevice s.pipe t).isSome then
      (FdPool.fdPut s.fds (m.slot t)).map fun f =>
        { s with fds := f, outcome := Function.update s.outcome t (some true) }
    else none
  | .close t =>
    if (transferDevice s.pipe t).isSome then
      (FdPool.closeHeld s.fds (m.slot t)).map fun f =>
        { s with fds := f, outcome := Function.update s.outcome t (some false) }
    else none
  | .closeOne d =>
    if JoinedDevice s.pipe d then (FdPool.fdCloseOne s.fds d).map fun f => { s with fds := f }
    else none

/-- The states the threads start in: the pipeline's start, and pools that
`discover_num_blocks` has left with no thread holding a descriptor. -/
def Start (cfg : Config Q D) (s : State Q T D C) : Prop :=
  (∃ c0, s.pipe = Pipeline.init cfg c0) ∧ FdPool.Reachable s.fds ∧
    (∀ c, s.fds.threads c = .idle) ∧ ∀ t, s.outcome t = none

/-- The states some interleaving of the composed system reaches. -/
def Reachable (cfg : Config Q D) (m : Slots Q T D C) : State Q T D C → Prop :=
  Reach (step cfg m) (Start cfg)

/-! ## Frames -/

/-- A worker step changes no other thread's program counter. -/
theorem workerStep_frame {p p' : Pipeline.State Q T D} {w : Worker Q T} {ok : Bool}
    (h : workerStep p w ok = some p') :
    ∃ pc, p'.workers = Function.update p.workers w pc ∧ p'.large = p.large := by
  unfold workerStep at h
  repeat' split at h
  all_goals cases h
  all_goals exact ⟨_, rfl, rfl⟩

/-- A large-block step changes no other thread's program counter. -/
theorem largeStep_frame {p p' : Pipeline.State Q T D} {dir : Dir} {d : Fin D} {ok : Bool}
    {start : U64} {lag : Bool} (h : largeStep p dir d ok start lag = some p') :
    ∃ pc, p'.large = Function.update p.large dir (Function.update (p.large dir) d pc) ∧
      p'.workers = p.workers := by
  unfold largeStep at h
  repeat' split at h
  all_goals cases h
  all_goals exact ⟨_, rfl, rfl⟩

/-- The I/O thread a pipeline step moves, if any. -/
def mover : Pipeline.Action Q T D → Option (IoThread Q T D)
  | .worker w _ => some (.worker w)
  | .large dir d _ _ _ => some (.large dir d)
  | _ => none

/-- A pipeline step leaves every I/O thread but the one it moves where it is. -/
theorem transferDevice_frame {cfg : Config Q D} {p p' : Pipeline.State Q T D}
    {a : Pipeline.Action Q T D} (h : Pipeline.step cfg p a = some p') {t : IoThread Q T D}
    (ht : mover a ≠ some t) : transferDevice p' t = transferDevice p t := by
  cases a with
  | gen devRand hiRand loRand =>
    obtain ⟨_, _, _, _, _, _, rfl⟩ := genStep_eq h
    cases t <;> rfl
  | worker w ok =>
    obtain ⟨pc, hw, hl⟩ := workerStep_frame h
    cases t with
    | worker w' =>
      have hww : w' ≠ w := fun he => ht (by subst he; rfl)
      simp only [transferDevice, hw, Function.update_noteq hww]
    | large dir d => simp only [transferDevice, hl]
  | large dir d ok start lag =>
    obtain ⟨pc, hl, hw⟩ := largeStep_frame h
    cases t with
    | worker w => simp only [transferDevice, hw]
    | large dir' d' =>
      have : p'.large dir' d' = p.large dir' d' := by
        rw [hl]
        by_cases hd : dir' = dir
        · subst hd
          rw [Function.update_same, Function.update_noteq fun he => ht (by subst he; rfl)]
        · rw [Function.update_noteq hd]
      simp only [transferDevice, this]
  | stop => cases h; cases t <;> rfl
  | tick t' =>
    simp only [Pipeline.step] at h
    split at h <;> cases h
    cases t <;> rfl

/-- The thread a step moves, if it is in a transfer, is the thread the step reports. -/
theorem reports_of_mover {p : Pipeline.State Q T D} {a : Pipeline.Action Q T D}
    {t : IoThread Q T D} (hm : mover a = some t) (ht : transferDevice p t ≠ none) :
    ∃ ok, reports p a = some (t, ok) := by
  cases a <;> simp only [mover, Option.some.injEq, reduceCtorEq] at hm <;> subst hm <;>
    simp only [transferDevice, reports] at ht ⊢ <;> split <;> simp_all

/-- A pipeline step leaves every transfer under way where it is, but the one it reports. -/
theorem transferDevice_step {cfg : Config Q D} {p p' : Pipeline.State Q T D}
    {a : Pipeline.Action Q T D} (h : Pipeline.step cfg p a = some p') {t : IoThread Q T D}
    (hr : ∀ ok, reports p a ≠ some (t, ok)) (ht : transferDevice p t ≠ none) :
    transferDevice p' t = transferDevice p t :=
  transferDevice_frame h fun hm => let ⟨ok, hr'⟩ := reports_of_mover hm ht; hr ok hr'

/-- The descriptor model's `fd_get` by an idle thread gives it a descriptor of the device, or
leaves every thread as it was. -/
theorem fdGet_threads {f f' : FdPool.State C D} {c : Fin C} {d : Fin D} {fd : Nat}
    {openOk : Bool} (h : FdPool.fdGet f c d fd openOk = some f') :
    f.threads c = .idle ∧
      ((∃ fd', f'.threads = Function.update f.threads c (.holding d fd')) ∨
        f'.threads = f.threads) := by
  unfold FdPool.fdGet at h
  split at h
  · cases h
  next hc =>
    refine ⟨hc, ?_⟩
    repeat' split at h
    all_goals cases h
    all_goals first | exact .inl ⟨_, rfl⟩ | exact .inr rfl

/-- `fd_put` and the error-path `close` take a thread's descriptor out of its hands. -/
theorem fdPut_threads {f f' : FdPool.State C D} {c : Fin C}
    (h : FdPool.fdPut f c = some f' ∨ FdPool.closeHeld f c = some f') :
    (∃ d fd, f.threads c = .holding d fd) ∧
      f'.threads = Function.update f.threads c .idle := by
  rcases h with h | h <;>
  · first | unfold FdPool.fdPut at h | unfold FdPool.closeHeld at h
    split at h <;> cases h
    exact ⟨⟨_, _, ‹_›⟩, rfl⟩

/-! ## What a step does -/

section Steps

variable {cfg : Config Q D} {m : Slots Q T D C} {s s' : State Q T D C}

/-- A pipeline step leaves the pools alone; if it reports a transfer, the transfer is
finished with the outcome it reports, and the outcome is consumed. -/
theorem step_pipe {a : Pipeline.Action Q T D} (h : step cfg m s (.pipe a) = some s') :
    s'.fds = s.fds ∧ Pipeline.step cfg s.pipe a = some s'.pipe ∧
      ((reports s.pipe a = none ∧ s'.outcome = s.outcome) ∨
        ∃ t ok, reports s.pipe a = some (t, ok) ∧ s.outcome t = some ok ∧
          s'.outcome = Function.update s.outcome t none) := by
  simp only [step] at h
  split at h
  next hr =>
    obtain ⟨p, hp, rfl⟩ := Option.map_eq_some'.1 h
    exact ⟨rfl, hp, .inl ⟨hr, rfl⟩⟩
  next t ok hr =>
    split at h
    next ho =>
      obtain ⟨p, hp, rfl⟩ := Option.map_eq_some'.1 h
      exact ⟨rfl, hp, .inr ⟨t, ok, hr, ho, rfl⟩⟩
    next => cases h

/-- A thread's `fd_get` happens inside a transfer not yet finished, on its device; it leaves
the pipeline alone, and records the outcome `-1` when it returns no descriptor. -/
theorem step_get {t : IoThread Q T D} {fd : Nat} {openOk : Bool}
    (h : step cfg m s (.get t fd openOk) = some s') :
    ∃ d, transferDevice s.pipe t = some d ∧ s.outcome t = none ∧ s'.pipe = s.pipe ∧
      FdPool.fdGet s.fds (m.slot t) d fd openOk = some s'.fds ∧
      ((s'.fds.threads (m.slot t) ≠ .idle ∧ s'.outcome = s.outcome) ∨
        (s'.fds.threads (m.slot t) = .idle ∧
          s'.outcome = Function.update s.outcome t (some false))) := by
  simp only [step] at h
  split at h
  next d ht ho =>
    obtain ⟨f, hf, rfl⟩ := Option.map_eq_some'.1 h
    refine ⟨d, ht, ho, ?_⟩
    split
    next hi => exact ⟨rfl, hf, .inr ⟨hi, rfl⟩⟩
    next hi => exact ⟨rfl, hf, .inl ⟨hi, rfl⟩⟩
  next => cases h

/-- A thread's `fd_put` or `close` happens inside a transfer; it leaves the pipeline alone and
records the outcome. -/
theorem step_put {t : IoThread Q T D} {ok : Bool}
    (h : step cfg m s (.put t) = some s' ∧ ok = true ∨ step cfg m s (.close t) = some s' ∧
      ok = false) :
    (transferDevice s.pipe t).isSome ∧ s'.pipe = s.pipe ∧
      (FdPool.fdPut s.fds (m.slot t) = some s'.fds ∨
        FdPool.closeHeld s.fds (m.slot t) = some s'.fds) ∧
      s'.outcome = Function.update s.outcome t (some ok) := by
  rcases h with ⟨h, rfl⟩ | ⟨h, rfl⟩ <;> simp only [step] at h <;> split at h <;>
    first
      | cases h
      | obtain ⟨f, hf, rfl⟩ := Option.map_eq_some'.1 h
        first | exact ⟨‹_›, rfl, .inl hf, rfl⟩ | exact ⟨‹_›, rfl, .inr hf, rfl⟩

/-- A pass of `fd_close_all` comes after `main`'s joins of the device, and touches the pools
only. -/
theorem step_closeOne {d : Fin D} (h : step cfg m s (.closeOne d) = some s') :
    JoinedDevice s.pipe d ∧ s'.pipe = s.pipe ∧ s'.outcome = s.outcome ∧
      FdPool.fdCloseOne s.fds d = some s'.fds := by
  simp only [step] at h
  split at h
  next hj =>
    obtain ⟨f, hf, rfl⟩ := Option.map_eq_some'.1 h
    exact ⟨hj, rfl, rfl, hf⟩
  next => cases h

end Steps

/-- A pass of `fd_close_all` leaves every thread as it was. -/
theorem fdCloseOne_threads {f f' : FdPool.State C D} {d : Fin D}
    (h : FdPool.fdCloseOne f d = some f') : f'.threads = f.threads := by
  unfold FdPool.fdCloseOne at h
  split at h <;> cases h
  rfl

/-! ## The coupling invariant -/

/-- How the pipeline and the pools agree. -/
structure Coupled (m : Slots Q T D C) (s : State Q T D C) : Prop where
  /-- A thread holds a descriptor only in a transfer not yet finished, on its device. -/
  held : ∀ t d fd, s.fds.threads (m.slot t) = .holding d fd →
    transferDevice s.pipe t = some d ∧ s.outcome t = none
  /-- An outcome waits only in a transfer. -/
  pending : ∀ t, s.outcome t ≠ none → transferDevice s.pipe t ≠ none
  /-- The slots of no I/O thread never move. -/
  others : ∀ c, (∀ t, m.slot t ≠ c) → s.fds.threads c = .idle

/-- A thread out of every transfer holds no descriptor. -/
theorem Coupled.idle_of_none {m : Slots Q T D C} {s : State Q T D C} (hi : Coupled m s)
    {t : IoThread Q T D} (ht : transferDevice s.pipe t = none) :
    s.fds.threads (m.slot t) = .idle := by
  cases hh : s.fds.threads (m.slot t) with
  | idle => rfl
  | holding d fd => simp [(hi.held t d fd hh).1] at ht

theorem coupled_start {cfg : Config Q D} {m : Slots Q T D C} {s : State Q T D C}
    (hs : Start cfg s) : Coupled m s where
  held t d fd hh := by simp [hs.2.2.1] at hh
  pending t ho := absurd (hs.2.2.2 t) ho
  others c _ := hs.2.2.1 c

section Steps

variable {cfg : Config Q D} {m : Slots Q T D C} {s s' : State Q T D C}

theorem coupled_pipe {a : Pipeline.Action Q T D} (hi : Coupled m s)
    (h : step cfg m s (.pipe a) = some s') : Coupled m s' := by
  obtain ⟨hf, hp, ho⟩ := step_pipe h
  -- the thread a step reports had its outcome recorded, and has it consumed
  have hrep : ∀ t ok, reports s.pipe a = some (t, ok) →
      s.outcome t ≠ none ∧ s'.outcome t = none := by
    intro t ok hr
    obtain ⟨t0, ok0, hr0, ho0, he⟩ := ho.resolve_left fun ⟨hn, _⟩ => by simp [hn] at hr
    rw [hr] at hr0
    cases hr0
    exact ⟨by simp [ho0], by simp [he]⟩
  -- so every other transfer stays where it is, with its outcome
  have keep : ∀ t, (s.outcome t = none ∨ s'.outcome t ≠ none) → transferDevice s.pipe t ≠ none →
      transferDevice s'.pipe t = transferDevice s.pipe t := fun t hn =>
    transferDevice_step hp fun ok hr => by
      have := hrep t ok hr
      rcases hn with hn | hn <;> simp_all
  have hout : ∀ t, s'.outcome t ≠ none → s'.outcome t = s.outcome t := by
    intro t ht
    rcases ho with ⟨-, he⟩ | ⟨t0, ok, -, -, he⟩
    · rw [he]
    · rw [he] at ht ⊢
      by_cases htt : t = t0
      · subst htt; simp at ht
      · exact Function.update_noteq htt _ _
  refine ⟨fun t d fd hh => ?_, fun t ht => ?_, fun c hc => hf ▸ hi.others c hc⟩
  · rw [hf] at hh
    obtain ⟨hd, hn⟩ := hi.held t d fd hh
    refine ⟨(keep t (.inl hn) (by simp [hd])).trans hd, ?_⟩
    by_contra hne
    exact hne ((hout t hne).trans hn)
  · have hpend := hi.pending t (by rwa [hout t ht] at ht)
    rwa [keep t (.inr ht) hpend]

theorem coupled_get {t : IoThread Q T D} {fd : Nat} {openOk : Bool} (hi : Coupled m s)
    (h : step cfg m s (.get t fd openOk) = some s') : Coupled m s' := by
  obtain ⟨d, htd, hot, hp, hget, ho⟩ := step_get h
  obtain ⟨hidle, hth⟩ := fdGet_threads hget
  -- every other thread keeps its descriptor and its outcome
  have hout : ∀ t', t' ≠ t → s'.outcome t' = s.outcome t' := by
    intro t' ht'
    rcases ho with ⟨-, he⟩ | ⟨-, he⟩ <;> rw [he]
    exact Function.update_noteq ht' _ _
  have hth' : ∀ c, c ≠ m.slot t → s'.fds.threads c = s.fds.threads c := by
    intro c hc
    rcases hth with ⟨fd', he⟩ | he <;> rw [he]
    exact Function.update_noteq hc _ _
  refine ⟨fun t' d' fd' hh => ?_, fun t' ht' => ?_, fun c hc => ?_⟩
  · rw [hp]
    by_cases htt : t' = t
    · subst htt
      -- the thread's new descriptor is of the device of its transfer
      rcases hth with ⟨fd'', he⟩ | he
      · rw [he, Function.update_same] at hh
        cases hh
        refine ⟨htd, ?_⟩
        rcases ho with ⟨-, he'⟩ | ⟨hi', -⟩
        · rw [he']; exact hot
        · rw [he, Function.update_same] at hi'; cases hi'
      · rw [he, hidle] at hh; cases hh
    · rw [hth' _ fun he => htt (m.injective he)] at hh
      obtain ⟨hd, hn⟩ := hi.held t' d' fd' hh
      exact ⟨hd, (hout t' htt).trans hn⟩
  · rw [hp]
    by_cases htt : t' = t
    · subst htt; simp [htd]
    · exact hi.pending t' (by rwa [hout t' htt] at ht')
  · rw [hth' c fun he => hc t he.symm]
    exact hi.others c hc

theorem coupled_put {t : IoThread Q T D} {ok : Bool} (hi : Coupled m s)
    (h : step cfg m s (.put t) = some s' ∧ ok = true ∨
      step cfg m s (.close t) = some s' ∧ ok = false) : Coupled m s' := by
  obtain ⟨hsome, hp, hput, ho⟩ := step_put h
  have hth := (fdPut_threads hput).2
  have hout : ∀ t', t' ≠ t → s'.outcome t' = s.outcome t' := fun t' ht' => by
    rw [ho]; exact Function.update_noteq ht' _ _
  refine ⟨fun t' d fd hh => ?_, fun t' ht' => ?_, fun c hc => ?_⟩
  · rw [hp]
    by_cases htt : t' = t
    · subst htt; rw [hth, Function.update_same] at hh; cases hh
    · rw [hth, Function.update_noteq fun he => htt (m.injective he)] at hh
      obtain ⟨hd, hn⟩ := hi.held t' d fd hh
      exact ⟨hd, (hout t' htt).trans hn⟩
  · rw [hp]
    by_cases htt : t' = t
    · subst htt; exact Option.isSome_iff_ne_none.1 hsome
    · exact hi.pending t' (by rwa [hout t' htt] at ht')
  · rw [hth, Function.update_noteq fun he => hc t he.symm]
    exact hi.others c hc

theorem coupled_step {a : Action Q T D} (hi : Coupled m s) (h : step cfg m s a = some s') :
    Coupled m s' := by
  cases a with
  | pipe a => exact coupled_pipe hi h
  | get t fd openOk => exact coupled_get hi h
  | put t => exact coupled_put hi (.inl ⟨h, rfl⟩)
  | close t => exact coupled_put hi (.inr ⟨h, rfl⟩)
  | closeOne d =>
    obtain ⟨-, hp, ho, hf⟩ := step_closeOne h
    have hth := fdCloseOne_threads hf
    exact ⟨fun t d fd hh => hp ▸ ho ▸ hi.held t d fd (hth ▸ hh),
      fun t ht => hp ▸ hi.pending t (ho ▸ ht), fun c hc => hth ▸ hi.others c hc⟩

end Steps

theorem coupled_reachable {cfg : Config Q D} {m : Slots Q T D C} {s : State Q T D C}
    (h : Reachable cfg m s) : Coupled m s :=
  Reach.inv (fun _ hs => coupled_start hs) (fun _ _ _ => coupled_step) h

/-! ## Both models, and the shutdown -/

section Projections

variable {cfg : Config Q D} {m : Slots Q T D C} {s : State Q T D C}

/-- The pipeline makes the composed system's pipeline steps and none of the others. -/
theorem reachable_pipe (h : Reachable cfg m s) : Pipeline.Reachable cfg s.pipe :=
  Reach.map State.pipe (fun _ hs => Reach.init hs.1) (fun s a s' hs => by
    cases a with
    | pipe a => exact .inr ⟨a, (step_pipe hs).2.1⟩
    | get t fd openOk => obtain ⟨_, _, _, hp, -⟩ := step_get hs; exact .inl hp
    | put t => exact .inl (step_put (.inl ⟨hs, rfl⟩)).2.1
    | close t => exact .inl (step_put (.inr ⟨hs, rfl⟩)).2.1
    | closeOne d => exact .inl (step_closeOne hs).2.1) h

/-- The descriptor model makes the composed system's `fd_get`, `fd_put` and `close` steps, by
the slots of the threads that make them, on the devices of their transfers. -/
theorem reachable_fds (h : Reachable cfg m s) : FdPool.Reachable s.fds :=
  Reach.map State.fds (fun _ hs => hs.2.1) (fun s a s' hs => by
    cases a with
    | pipe a => exact .inl (step_pipe hs).1
    | get t fd openOk =>
      obtain ⟨d, -, -, -, hget, -⟩ := step_get hs
      exact .inr ⟨.get (m.slot t) d fd openOk, hget⟩
    | put t =>
      rcases (step_put (.inl ⟨hs, rfl⟩)).2.2.1 with hput | hput
      exacts [.inr ⟨.put (m.slot t), hput⟩, .inr ⟨.close (m.slot t), hput⟩]
    | close t =>
      rcases (step_put (.inr ⟨hs, rfl⟩)).2.2.1 with hput | hput
      exacts [.inr ⟨.put (m.slot t), hput⟩, .inr ⟨.close (m.slot t), hput⟩]
    | closeOne d => exact .inr ⟨.closeOne d, (step_closeOne hs).2.2.2⟩) h

/-- Once every thread has left its loop, no thread holds a descriptor. -/
theorem idle_of_allExited (h : Reachable cfg m s) (hx : AllExited s.pipe) (c : Fin C) :
    s.fds.threads c = .idle := by
  have hc := coupled_reachable h
  by_cases hs : ∃ t, m.slot t = c
  · obtain ⟨t, rfl⟩ := hs
    refine hc.idle_of_none ?_
    cases t with
    | worker w => simp [transferDevice, hx.1.2 w]
    | large dir d => simp [transferDevice, hx.2 dir d]
  · exact hc.others c fun t ht => hs ⟨t, ht⟩

end Projections

/-- From a reachable state of the descriptor model where no thread holds a descriptor, the
`fd_close_all` loops on all devices run to their end, empty the pools and leave nothing
open. -/
theorem closeAll_closes {f : FdPool.State C D} (hf : FdPool.Reachable f)
    (hidle : ∀ c, f.threads c = .idle) :
    ∃ f', runSteps FdPool.step f (FdPool.closeAll f (List.finRange D)) = some f' ∧
      (∀ d, f'.pools d = []) ∧ ∀ fd, f'.opened fd = none := by
  obtain ⟨f', hrun, hempty, -, hth⟩ := FdPool.closeAll_run _ (List.nodup_finRange D) f
  have hempty' : ∀ d, f'.pools d = [] := fun d => hempty d (List.mem_finRange d)
  exact ⟨f', hrun, hempty', (FdPool.exclusive_reachable (Reach.runSteps hf hrun)).nothing_open
    (fun c => by rw [hth]; exact hidle c) hempty'⟩

/-- At every state of every run, a thread outside a transfer holds no descriptor, and a
thread holding one is in a transfer on the device of that descriptor, which is open on that
device: a worker reads request `r` through a descriptor of `r`'s device. -/
theorem transfer_on_device {cfg : Config Q D} {m : Slots Q T D C} {s : State Q T D C}
    (h : Reachable cfg m s) (t : IoThread Q T D) :
    (transferDevice s.pipe t = none → s.fds.threads (m.slot t) = .idle) ∧
      ∀ d fd, s.fds.threads (m.slot t) = .holding d fd →
        transferDevice s.pipe t = some d ∧ s.fds.opened fd = some d := by
  have hc := coupled_reachable h
  have hx := FdPool.exclusive_reachable (reachable_fds h)
  exact ⟨hc.idle_of_none, fun d fd hh => ⟨(hc.held t d fd hh).1, hx.held _ d fd hh⟩⟩

/-- Once `main` has joined the generator, the workers and the large-block loops, no thread
holds a descriptor, and the `fd_close_all` loops on the devices run to their end, empty the
pools and leave no descriptor of the run open. -/
theorem joined_closeAll {cfg : Config Q D} {m : Slots Q T D C} {s : State Q T D C}
    (h : Reachable cfg m s) (hx : AllExited s.pipe) :
    (∀ c, s.fds.threads c = .idle) ∧
      ∃ f', runSteps FdPool.step s.fds (FdPool.closeAll s.fds (List.finRange D)) = some f' ∧
        (∀ d, f'.pools d = []) ∧ ∀ fd, f'.opened fd = none :=
  ⟨idle_of_allExited h hx, closeAll_closes (reachable_fds h) (idle_of_allExited h hx)⟩

/-! ## One worker, one device -/

/-- The worker has slot `0`, the large-block reader `1` and the writer `2`. -/
def slotsOne : Slots 1 1 1 3 where
  slot
    | .worker _ => 0
    | .large .read _ => 1
    | .large .write _ => 2
  injective := by
    rintro (w | ⟨_ | _, d⟩) (w' | ⟨_ | _, d'⟩) h <;>
      first | exact congrArg _ (Subsingleton.elim _ _) | simp at h

/-- `cfgOne` with nothing pooled and nothing open. -/
def startOne : State 1 1 1 3 := ⟨Pipeline.init cfgOne 0, FdPool.init, fun _ => none⟩

theorem start_startOne : Start cfgOne startOne :=
  ⟨⟨0, rfl⟩, Reach.init rfl, fun _ => rfl, fun _ => rfl⟩

/-- The generator pushes a request; the worker pops it, starts its read and opens
descriptor `7` of the device. -/
def openSeven : List (Action 1 1 1) :=
  [.pipe (.gen 0 0 0), .pipe (.gen 0 0 0), .pipe (.gen 0 0 0), .pipe (.gen 0 0 0),
    .pipe (.worker (0, 0) true), .pipe (.worker (0, 0) true), .pipe (.worker (0, 0) true),
    .get (.worker (0, 0)) 7 true]

/-- The worker's descriptor after `openSeven`. -/
theorem transfer_on_device_openSeven :
    ∃ s : State 1 1 1 3, Reachable cfgOne slotsOne s ∧ s.fds.threads 0 = .holding 0 7 ∧
      ((transferDevice s.pipe (.worker (0, 0)) = none →
          s.fds.threads (slotsOne.slot (.worker (0, 0))) = .idle) ∧
        ∀ d fd, s.fds.threads (slotsOne.slot (.worker (0, 0))) = .holding d fd →
          transferDevice s.pipe (.worker (0, 0)) = some d ∧ s.fds.opened fd = some d) := by
  obtain ⟨s, hs, hp⟩ : ∃ s, Reachable cfgOne slotsOne s ∧
      decide (s.fds.threads 0 = .holding 0 7) = true :=
    exists_reach_of_runSteps startOne start_startOne openSeven _ (by decide)
  exact ⟨s, hs, of_decide_eq_true hp, transfer_on_device hs (.worker (0, 0))⟩

/-- After `openSeven` the read succeeds, the worker puts `7` back, reports, frees the
request and finds `g_running` cleared; the generator leaves too. -/
def putSevenAndJoin : List (Action 1 1 1) :=
  openSeven ++ [.put (.worker (0, 0)), .pipe (.worker (0, 0) true), .pipe (.worker (0, 0) true),
    .pipe (.worker (0, 0) true), .pipe (.worker (0, 0) true), .pipe (.worker (0, 0) true),
    .pipe (.worker (0, 0) true), .pipe .stop, .pipe (.worker (0, 0) true), .pipe (.gen 0 0 0)]

/-- After `putSevenAndJoin` every thread has left, `7` is pooled and open, and the shutdown
closes it. -/
theorem joined_closeAll_putSeven :
    ∃ s : State 1 1 1 3, Reachable cfgOne slotsOne s ∧ s.fds.pools 0 = [7] ∧
      s.fds.opened 7 = some 0 ∧ AllExited s.pipe ∧
      ((∀ c, s.fds.threads c = .idle) ∧
        ∃ f', runSteps FdPool.step s.fds (FdPool.closeAll s.fds (List.finRange 1)) = some f' ∧
          (∀ d, f'.pools d = []) ∧ ∀ fd, f'.opened fd = none) := by
  obtain ⟨s, hs, hp⟩ : ∃ s, Reachable cfgOne slotsOne s ∧
      decide (s.fds.pools 0 = [7] ∧ s.fds.opened 7 = some 0 ∧ s.pipe.gen = .stopped ∧
        s.pipe.workers (0, 0) = .exited ∧ s.pipe.large .read 0 = .exited ∧
        s.pipe.large .write 0 = .exited) = true :=
    exists_reach_of_runSteps startOne start_startOne putSevenAndJoin _ (by decide)
  obtain ⟨hpool, hopen, hg, hw, hr, hwr⟩ := of_decide_eq_true hp
  have hx : AllExited s.pipe :=
    ⟨⟨.inl hg, fun w => Subsingleton.elim (0, 0) w ▸ hw⟩,
      fun dir d => by cases dir <;> rwa [Subsingleton.elim d 0]⟩
  exact ⟨s, hs, hpool, hopen, hx, joined_closeAll hs hx⟩

end Act.Io
