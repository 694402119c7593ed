import Act.Pipeline.Model

set_option autoImplicit false

/-! # The transaction histograms

`read_and_report` inserts one sample into `g_p_raw_read_histogram`, then one into
`g_p_read_histogram`, then one into the histogram of the request's device, and only when
the read returned a stop time. Counting each insertion as one atomic increment, at every
state of every run the three counts differ by exactly the workers caught between two of
the insertions, each device's histogram counts the successful reads of its own requests
that have reached it, and a large-block transfer touches none of the three
(`histograms_agree`). With every worker joined the three totals are equal.
-/

namespace Act.Pipeline

open Finset

variable {Q T D : Nat}

/-! ## Workers between two insertions -/

/-- `1` for a worker whose read succeeded and which has not inserted anything yet. -/
def WorkerPc.owesRaw : WorkerPc D → Nat
  | .readOk _ _ _ => 1
  | _ => 0

/-- `1` between the raw and the end-to-end insertion. -/
def WorkerPc.owesRead : WorkerPc D → Nat
  | .rawIn _ _ _ => 1
  | _ => 0

/-- `1` between the end-to-end and the per-device insertion. -/
def WorkerPc.owesDev : WorkerPc D → Nat
  | .readIn _ _ _ => 1
  | _ => 0

/-- `1` for a worker whose successful read of a request on device `d` has not reached
`d`'s histogram yet. -/
def WorkerPc.pendingOn (d : Fin D) : WorkerPc D → Nat
  | .readOk r _ _ => if r.device = d then 1 else 0
  | .rawIn r _ _ => if r.device = d then 1 else 0
  | .readIn r _ _ => if r.device = d then 1 else 0
  | _ => 0

/-- The histogram invariant: every sample in the three histograms stands for one read
that returned a stop time, and each histogram lags the one before by the workers between
the two insertions. -/
structure Tallied (s : State Q T D) : Prop where
  raw_eq : s.rawHist.length + ∑ w, (s.workers w).owesRaw = s.succeeded.length
  read_eq : s.readHist.length + ∑ w, (s.workers w).owesRead = s.rawHist.length
  dev_eq : ∑ d, (s.devHist d).length + ∑ w, (s.workers w).owesDev = s.readHist.length
  on_eq : ∀ d, (s.devHist d).length + ∑ w, (s.workers w).pendingOn d =
    s.succeeded.countP (·.device = d)

theorem tallied_init (cfg : Config Q D) (c0 : U64) : Tallied (init (T := T) cfg c0) := by
  refine ⟨?_, ?_, ?_, fun d => ?_⟩ <;>
    simp [init, WorkerPc.owesRaw, WorkerPc.owesRead, WorkerPc.owesDev, WorkerPc.pendingOn]

/-- A worker step keeps the invariant when each balance holds locally: what the step adds
to a histogram is what the worker stops owing to it. -/
theorem Tallied.update {s s' : State Q T D} {w : Worker Q T} {pc : WorkerPc D} (hi : Tallied s)
    (hw : s'.workers = Function.update s.workers w pc)
    (h1 : s'.rawHist.length + pc.owesRaw + s.succeeded.length =
      s.rawHist.length + (s.workers w).owesRaw + s'.succeeded.length)
    (h2 : s'.readHist.length + pc.owesRead + s.rawHist.length =
      s.readHist.length + (s.workers w).owesRead + s'.rawHist.length)
    (h3 : ∑ d, (s'.devHist d).length + pc.owesDev + s.readHist.length =
      ∑ d, (s.devHist d).length + (s.workers w).owesDev + s'.readHist.length)
    (h4 : ∀ d, (s'.devHist d).length + pc.pendingOn d + s.succeeded.countP (·.device = d) =
      (s.devHist d).length + (s.workers w).pendingOn d + s'.succeeded.countP (·.device = d)) :
    Tallied s' := by
  obtain ⟨e1, e2, e3, e4⟩ := hi
  have u1 := sum_update_add WorkerPc.owesRaw s.workers w pc
  have u2 := sum_update_add WorkerPc.owesRead s.workers w pc
  have u3 := sum_update_add WorkerPc.owesDev s.workers w pc
  rw [← hw] at u1 u2 u3
  refine ⟨by omega, by omega, by omega, fun d => ?_⟩
  have u4 := sum_update_add (WorkerPc.pendingOn d) s.workers w pc
  rw [← hw] at u4
  have := e4 d
  have := h4 d
  omega

theorem tallied_worker {s s' : State Q T D} {w : Worker Q T} {ok : Bool}
    (hi : Tallied s) (h : workerStep s w ok = some s') : Tallied s' := by
  unfold workerStep at h
  split at h
  next hw =>
    cases h
    refine hi.update rfl ?_ ?_ ?_ fun d => ?_ <;> rw [hw] <;> split <;> rfl
  next hw =>
    split at h <;> cases h <;> exact hi.update rfl (by rw [hw]; rfl) (by rw [hw]; rfl)
      (by rw [hw]; rfl) fun d => by rw [hw]; rfl
  next r hw =>
    cases h
    exact hi.update rfl (by rw [hw]; rfl) (by rw [hw]; rfl) (by rw [hw]; rfl)
      fun d => by rw [hw]; rfl
  next r t hw =>
    split at h <;> cases h
    · refine hi.update rfl ?_ (by rw [hw]; rfl) (by rw [hw]; rfl) fun d => ?_ <;>
        simp only [hw, WorkerPc.owesRaw, WorkerPc.pendingOn, List.length_append,
          List.length_singleton, List.countP_append, List.countP_singleton,
          decide_eq_true_eq] <;> omega
    · exact hi.update rfl (by rw [hw]; rfl) (by rw [hw]; rfl) (by rw [hw]; rfl)
        fun d => by rw [hw]; rfl
  next r t stop hw =>
    cases h
    refine hi.update rfl ?_ ?_ (by rw [hw]; rfl) (fun d => by rw [hw]; rfl)
    · simp only [hw, WorkerPc.owesRaw, List.length_append, List.length_singleton]
    · simp only [hw, WorkerPc.owesRead, List.length_append, List.length_singleton]; omega
  next r t stop hw =>
    cases h
    refine hi.update rfl (by rw [hw]; rfl) ?_ ?_ (fun d => by rw [hw]; rfl)
    · simp only [hw, WorkerPc.owesRead, List.length_append, List.length_singleton]
    · simp only [hw, WorkerPc.owesDev, List.length_append, List.length_singleton]; omega
  next r t stop hw =>
    cases h
    refine hi.update rfl (by rw [hw]; rfl) (by rw [hw]; rfl) ?_ fun d => ?_
    · have := sum_update_add List.length s.devHist r.device
        (s.devHist r.device ++ [(r.id, safeDeltaNs t stop)])
      simp only [hw, WorkerPc.owesDev, List.length_append, List.length_singleton] at this ⊢
      omega
    · rw [hw]
      by_cases hd : r.device = d
      · subst hd
        simp [WorkerPc.pendingOn]
      · simp [WorkerPc.pendingOn, Function.update_noteq (Ne.symm hd), hd]
  next r hw =>
    cases h
    exact hi.update rfl (by rw [hw]; rfl) (by rw [hw]; rfl) (by rw [hw]; rfl)
      fun d => by rw [hw]; rfl
  next hw =>
    cases h
    exact hi.update rfl (by rw [hw]; rfl) (by rw [hw]; rfl) (by rw [hw]; rfl)
      fun d => by rw [hw]; rfl
  next => cases h

/-- A step that moves no worker and records nothing keeps the invariant. -/
theorem Tallied.of_eq {s s' : State Q T D} (hi : Tallied s) (hw : s'.workers = s.workers)
    (hr : s'.rawHist = s.rawHist) (hd : s'.readHist = s.readHist) (hv : s'.devHist = s.devHist)
    (hs : s'.succeeded = s.succeeded) : Tallied s' := by
  obtain ⟨e1, e2, e3, e4⟩ := hi
  exact ⟨by rw [hw, hr, hs, e1], by rw [hw, hr, hd, e2], by rw [hw, hd, hv, e3],
    fun d => by rw [hw, hv, hs, e4]⟩

theorem tallied_step {cfg : Config Q D} {s s' : State Q T D} {a : Action Q T D}
    (hi : Tallied s) (h : step cfg s a = some s') : Tallied s' := by
  cases a with
  | gen devRand hiRand loRand =>
    obtain ⟨_, _, _, _, _, _, rfl⟩ := genStep_eq h
    exact hi.of_eq rfl rfl rfl rfl rfl
  | worker w ok => exact tallied_worker hi h
  | large dir d ok start lag =>
    obtain ⟨_, _, _, rfl⟩ := largeStep_eq h
    exact hi.of_eq rfl rfl rfl rfl rfl
  | stop => cases h; exact hi.of_eq rfl rfl rfl rfl rfl
  | tick t =>
    simp only [step] at h
    split at h <;> cases h
    exact hi.of_eq rfl rfl rfl rfl rfl

theorem tallied_reachable {cfg : Config Q D} {s : State Q T D} (h : Reachable cfg s) :
    Tallied s :=
  h.inv (tallied_init cfg) tallied_step

/-! ## The three histograms agree -/

/-- At every state of every run the raw histogram has one sample per read that returned a
stop time, bar the workers that have not inserted it yet; the end-to-end histogram lags the
raw one by exactly the workers between the two insertions, and the device histograms lag
the end-to-end one by the workers between those two; each device's histogram counts the
successful reads of the requests on that device that have reached it. Neither a
large-block transfer nor a read whose stop time is `-1` inserts into any of the three.
Once every worker has left its loop the three totals are equal, and equal to the number of
successful reads. -/
theorem histograms_agree {cfg : Config Q D} {s : State Q T D} (h : Reachable cfg s) :
    s.rawHist.length + ∑ w, (s.workers w).owesRaw = s.succeeded.length ∧
      s.readHist.length ≤ s.rawHist.length ∧
      s.rawHist.length - s.readHist.length = ∑ w, (s.workers w).owesRead ∧
      ∑ d, (s.devHist d).length ≤ s.readHist.length ∧
      s.readHist.length - ∑ d, (s.devHist d).length = ∑ w, (s.workers w).owesDev ∧
      (∀ d, (s.devHist d).length + ∑ w, (s.workers w).pendingOn d =
        s.succeeded.countP (·.device = d)) ∧
      (∀ dir d ok start lag s', largeStep s dir d ok start lag = some s' →
        s'.rawHist = s.rawHist ∧ s'.readHist = s.readHist ∧ s'.devHist = s.devHist) ∧
      (∀ w ok r rawStart s', s.workers w = .reading r rawStart →
        readFromDevice ok s.clock = -1 → workerStep s w ok = some s' →
        s'.rawHist = s.rawHist ∧ s'.readHist = s.readHist ∧ s'.devHist = s.devHist ∧
          s'.succeeded = s.succeeded) ∧
      ((∀ w, s.workers w = .exited) →
        s.rawHist.length = s.succeeded.length ∧ s.readHist.length = s.rawHist.length ∧
          ∑ d, (s.devHist d).length = s.readHist.length ∧
          ∀ d, (s.devHist d).length = s.succeeded.countP (·.device = d)) := by
  obtain ⟨e1, e2, e3, e4⟩ := tallied_reachable h
  refine ⟨e1, by omega, by omega, by omega, by omega, e4, fun dir d ok start lag s' hl => ?_,
    fun w ok r rawStart s' hw hf hs => ?_, fun hx => ?_⟩
  · obtain ⟨_, _, _, rfl⟩ := largeStep_eq hl
    exact ⟨rfl, rfl, rfl⟩
  · simp only [workerStep, hw, hf, ne_eq, not_true_eq_false, if_false,
      Option.some.injEq] at hs
    subst hs
    exact ⟨rfl, rfl, rfl, rfl⟩
  · simp only [hx, WorkerPc.owesRaw, WorkerPc.owesRead, WorkerPc.owesDev, WorkerPc.pendingOn,
      sum_const_zero, add_zero] at e1 e2 e3 e4
    exact ⟨e1, e2, e3, e4⟩

/-- The histograms after the run `oneRead`: one sample in each. -/
theorem histograms_agree_oneRead :
    ∃ s : State 1 1 1, Reachable cfgOne s ∧ s.rawHist.length = 1 ∧
      (s.rawHist.length + ∑ w, (s.workers w).owesRaw = s.succeeded.length ∧
      s.readHist.length ≤ s.rawHist.length ∧
      s.rawHist.length - s.readHist.length = ∑ w, (s.workers w).owesRead ∧
      ∑ d, (s.devHist d).length ≤ s.readHist.length ∧
      s.readHist.length - ∑ d, (s.devHist d).length = ∑ w, (s.workers w).owesDev ∧
      (∀ d, (s.devHist d).length + ∑ w, (s.workers w).pendingOn d =
        s.succeeded.countP (·.device = d)) ∧
      (∀ dir d ok start lag s', largeStep s dir d ok start lag = some s' →
        s'.rawHist = s.rawHist ∧ s'.readHist = s.readHist ∧ s'.devHist = s.devHist) ∧
      (∀ w ok r rawStart s', s.workers w = .reading r rawStart →
        readFromDevice ok s.clock = -1 → workerStep s w ok = some s' →
        s'.rawHist = s.rawHist ∧ s'.readHist = s.readHist ∧ s'.devHist = s.devHist ∧
          s'.succeeded = s.succeeded) ∧
      ((∀ w, s.workers w = .exited) →
        s.rawHist.length = s.succeeded.length ∧ s.readHist.length = s.rawHist.length ∧
          ∑ d, (s.devHist d).length = s.readHist.length ∧
          ∀ d, (s.devHist d).length = s.succeeded.countP (·.device = d))) := by
  obtain ⟨s, hs, hp⟩ := exists_reachable_of_run cfgOne 0 oneRead
    (fun s => decide (s.rawHist.length = 1)) (by decide)
  exact ⟨s, hs, of_decide_eq_true hp, histograms_agree hs⟩

end Act.Pipeline
