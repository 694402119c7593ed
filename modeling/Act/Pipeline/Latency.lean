import Act.Pipeline.Model

set_option autoImplicit false

/-! # End-to-end and raw read latency

`read_and_report` times a request twice, both up to the same `stop_time`: from the
`start_time` the generator stamped before pushing it (the end-to-end sample, into
`g_p_read_histogram`), and from the `raw_start_time` the worker took after popping it (the
raw sample, into `g_p_raw_read_histogram` and the device's histogram). The push comes
before the pop and the clock never goes back, so `start_time ≤ raw_start_time`, and
`safe_delta_ns` is antitone in its first argument: the end-to-end sample is never below
the raw one (`readLatency_ge_rawLatency`).

Every sample carries the number of its request, so the statement is made of the histograms
themselves: every end-to-end sample has a raw sample of the same request that is not
larger, and every device sample is a raw sample, not larger than an end-to-end sample of
the same request.

For the same reason the `stop_time` is never before the `raw_start_time`: the clamp of
`safe_delta_ns` to `0` never fires on a worker's sample, and both samples are the exact
times elapsed (`workerSamples_exact`).
-/

namespace Act.Pipeline

variable {Q T D : Nat}

/-! ## `safe_delta_ns` -/

/-- `safe_delta_ns` is antitone in its first argument, over all 64-bit readings. -/
theorem safeDeltaNs_antitone {a b c : U64} (h : a ≤ b) : safeDeltaNs b c ≤ safeDeltaNs a c := by
  unfold safeDeltaNs
  split <;> split <;> bv_omega

/-! ## What each thread knows about the times it holds -/

/-- What a worker's locals say about the clock `clock` and the histograms: the request it
holds was stamped no later than now, or no later than its `raw_start_time`; and the
samples it has inserted are there. -/
def WorkerPc.Stamped (clock : U64) (rawHist readHist : List (Nat × U64)) :
    WorkerPc D → Prop
  | .popped r => r.startTime ≤ clock
  | .reading r rawStart => r.startTime ≤ rawStart
  | .readOk r rawStart _ => r.startTime ≤ rawStart
  | .rawIn r rawStart stop =>
    r.startTime ≤ rawStart ∧ (r.id, safeDeltaNs rawStart stop) ∈ rawHist
  | .readIn r rawStart stop =>
    r.startTime ≤ rawStart ∧ (r.id, safeDeltaNs rawStart stop) ∈ rawHist ∧
      (r.id, safeDeltaNs r.startTime stop) ∈ readHist
  | _ => True

/-- A later clock and longer histograms keep what a worker knows. -/
theorem WorkerPc.Stamped.mono {pc : WorkerPc D} {c c' : U64} {rh rh' dh dh' : List (Nat × U64)}
    (h : pc.Stamped c rh dh) (hc : c ≤ c') (hr : rh ⊆ rh') (hd : dh ⊆ dh') :
    pc.Stamped c' rh' dh' := by
  cases pc with
  | popped r => exact BitVec.le_trans h hc
  | rawIn r t stop => exact ⟨h.1, hr h.2⟩
  | readIn r t stop => exact ⟨h.1, hr h.2.1, hd h.2.2⟩
  | _ => exact h

/-- The request the generator is about to push was stamped no later than now. -/
def GenPc.Stamped (clock : U64) : GenPc D → Prop
  | .push r => r.startTime ≤ clock
  | _ => True

theorem GenPc.Stamped.mono {pc : GenPc D} {c c' : U64} (h : pc.Stamped c) (hc : c ≤ c') :
    pc.Stamped c' := by
  cases pc with
  | push r => exact BitVec.le_trans h hc
  | _ => exact h

/-- The latency invariant: every request in a queue, in the generator's hands or in a
worker's was stamped no later than now, and the histograms pair up by request. -/
structure Stamped (s : State Q T D) : Prop where
  queues_le : ∀ q, ∀ r ∈ s.queues q, r.startTime ≤ s.clock
  gen_le : s.gen.Stamped s.clock
  workers_ok : ∀ w, (s.workers w).Stamped s.clock s.rawHist s.readHist
  read_paired : ∀ i e, (i, e) ∈ s.readHist → ∃ v, (i, v) ∈ s.rawHist ∧ v ≤ e
  dev_paired : ∀ d i v, (i, v) ∈ s.devHist d →
    (i, v) ∈ s.rawHist ∧ ∃ e, (i, e) ∈ s.readHist ∧ v ≤ e

/-! ## The invariant holds at every reachable state -/

theorem stamped_init (cfg : Config Q D) (c0 : U64) : Stamped (init (T := T) cfg c0) where
  queues_le := by simp [init]
  gen_le := trivial
  workers_ok := fun _ => trivial
  read_paired := by simp [init]
  dev_paired := by simp [init]

/-- After worker `w` moves to `pc`, every worker knows what it knew, under a later clock and
longer histograms, provided `pc` holds there. -/
theorem stamped_update {s : State Q T D} {w : Worker Q T} {pc : WorkerPc D} {c : U64}
    {rh dh : List (Nat × U64)} (hi : Stamped s) (hc : s.clock ≤ c) (hr : s.rawHist ⊆ rh)
    (hd : s.readHist ⊆ dh) (hpc : pc.Stamped c rh dh) (w' : Worker Q T) :
    (Function.update s.workers w pc w').Stamped c rh dh := by
  by_cases hw : w' = w
  · subst hw; rwa [Function.update_same]
  · rw [Function.update_noteq hw]; exact (hi.workers_ok w').mono hc hr hd

theorem stamped_worker {s s' : State Q T D} {w : Worker Q T} {ok : Bool}
    (hi : Stamped s) (h : workerStep s w ok = some s') : Stamped s' := by
  have hc := BitVec.le_refl s.clock
  have hs := List.Subset.refl s.rawHist
  have hd := List.Subset.refl s.readHist
  -- worker `w` moves to a place whose facts hold now; the others keep theirs
  have keep : ∀ {pc : WorkerPc D}, pc.Stamped s.clock s.rawHist s.readHist →
      ∀ w', (Function.update s.workers w pc w').Stamped s.clock s.rawHist s.readHist :=
    stamped_update hi hc hs hd
  have ⟨hq, hg, hw, hrp, hdp⟩ := hi
  unfold workerStep at h
  split at h
  next hpc =>
    cases h
    exact ⟨hq, hg, keep (by split <;> trivial), hrp, hdp⟩
  next hpc =>
    split at h
    next => cases h; exact ⟨hq, hg, keep trivial, hrp, hdp⟩
    next r rest hqw =>
      cases h
      exact ⟨fun q r' hr' => hq q r' (mem_update_pop hqw hr'), hg,
        keep (hq w.1 r (by simp [hqw])), hrp, hdp⟩
  next r hpc =>
    cases h
    have hr : r.startTime ≤ s.clock := by simpa [hpc, WorkerPc.Stamped] using hw w
    exact ⟨hq, hg, keep hr, hrp, hdp⟩
  next r t hpc =>
    have hr : r.startTime ≤ t := by simpa [hpc, WorkerPc.Stamped] using hw w
    split at h <;> cases h
    · exact ⟨hq, hg, keep hr, hrp, hdp⟩
    · exact ⟨hq, hg, keep trivial, hrp, hdp⟩
  next r t stop hpc =>
    -- the raw sample goes in
    cases h
    have hr : r.startTime ≤ t := by simpa [hpc, WorkerPc.Stamped] using hw w
    have hs' : s.rawHist ⊆ s.rawHist ++ [(r.id, safeDeltaNs t stop)] :=
      List.subset_append_left _ _
    refine ⟨hq, hg, stamped_update hi hc hs' hd ⟨hr, by simp⟩,
      fun i e he => ?_, fun d i v hv => ?_⟩
    · obtain ⟨v, hv, hle⟩ := hrp i e he
      exact ⟨v, hs' hv, hle⟩
    · obtain ⟨hv, hpair⟩ := hdp d i v hv
      exact ⟨hs' hv, hpair⟩
  next r t stop hpc =>
    -- the end-to-end sample goes in, not below the raw one
    cases h
    obtain ⟨hr, hraw⟩ : r.startTime ≤ t ∧ (r.id, safeDeltaNs t stop) ∈ s.rawHist := by
      simpa [hpc, WorkerPc.Stamped] using hw w
    have hd' : s.readHist ⊆ s.readHist ++ [(r.id, safeDeltaNs r.startTime stop)] :=
      List.subset_append_left _ _
    refine ⟨hq, hg, stamped_update hi hc hs hd' ⟨hr, hraw, by simp⟩,
      fun i e he => ?_, fun d i v hv => ?_⟩
    · rcases List.mem_append.1 he with he | he
      · exact hrp i e he
      · obtain ⟨rfl, rfl⟩ : i = r.id ∧ e = safeDeltaNs r.startTime stop := by simpa using he
        exact ⟨_, hraw, safeDeltaNs_antitone hr⟩
    · obtain ⟨hv, e, he, hle⟩ := hdp d i v hv
      exact ⟨hv, e, hd' he, hle⟩
  next r t stop hpc =>
    -- the raw sample goes into the device's histogram
    cases h
    obtain ⟨hr, hraw, hread⟩ : r.startTime ≤ t ∧
        (r.id, safeDeltaNs t stop) ∈ s.rawHist ∧
        (r.id, safeDeltaNs r.startTime stop) ∈ s.readHist := by
      simpa [hpc, WorkerPc.Stamped] using hw w
    refine ⟨hq, hg, keep trivial, hrp, fun d i v hv => ?_⟩
    dsimp only at hv ⊢
    by_cases hdd : d = r.device
    · subst hdd
      rw [Function.update_same] at hv
      rcases List.mem_append.1 hv with hv | hv
      · exact hdp _ i v hv
      · obtain ⟨rfl, rfl⟩ : i = r.id ∧ v = safeDeltaNs t stop := by simpa using hv
        exact ⟨hraw, _, hread, safeDeltaNs_antitone hr⟩
    · rw [Function.update_noteq hdd] at hv
      exact hdp d i v hv
  next r hpc => cases h; exact ⟨hq, hg, keep trivial, hrp, hdp⟩
  next hpc => cases h; exact ⟨hq, hg, keep trivial, hrp, hdp⟩
  next => cases h

/-- A step that moves the clock on, if anything, and changes nothing else the invariant
reads. -/
theorem Stamped.of_later {s s' : State Q T D} (hi : Stamped s) (hq : s'.queues = s.queues)
    (hg : s'.gen = s.gen) (hw : s'.workers = s.workers) (hr : s'.rawHist = s.rawHist)
    (hd : s'.readHist = s.readHist) (hv : s'.devHist = s.devHist) (hc : s.clock ≤ s'.clock) :
    Stamped s' where
  queues_le q r h := BitVec.le_trans (hi.queues_le q r (hq ▸ h)) hc
  gen_le := hg ▸ hi.gen_le.mono hc
  workers_ok w := by
    rw [hw, hr, hd]
    exact (hi.workers_ok w).mono hc (List.Subset.refl _) (List.Subset.refl _)
  read_paired := by rw [hr, hd]; exact hi.read_paired
  dev_paired := by rw [hr, hd, hv]; exact hi.dev_paired

theorem stamped_gen {cfg : Config Q D} {s s' : State Q T D} {r31 : U32} {r48 : U64}
    (hi : Stamped s) (h : genStep cfg s r31 r48 = some s') : Stamped s' := by
  obtain ⟨hq, hg, hw, hrp, hdp⟩ := hi
  unfold genStep at h
  split at h
  next => cases h; exact ⟨hq, by dsimp only; split <;> trivial, hw, hrp, hdp⟩
  next => split at h <;> cases h <;> exact ⟨hq, trivial, hw, hrp, hdp⟩
  next =>
    dsimp only at h
    split at h <;> cases h
    exact ⟨hq, BitVec.le_refl _, hw, hrp, hdp⟩
  next r hpc =>
    cases h
    have hr : r.startTime ≤ s.clock := by simpa [hpc, GenPc.Stamped] using hg
    exact ⟨fun q r' hr' => (mem_update_push hr').elim (hq q r') (· ▸ hr), trivial, hw, hrp,
      hdp⟩
  next => cases h
  next => cases h

theorem stamped_step {cfg : Config Q D} {s s' : State Q T D} {a : Action Q T D}
    (hi : Stamped s) (h : step cfg s a = some s') : Stamped s' := by
  cases a with
  | gen devRand hiRand loRand => exact stamped_gen hi h
  | worker w ok => exact stamped_worker hi h
  | large dir d ok start lag =>
    obtain ⟨_, _, _, rfl⟩ := largeStep_eq h
    exact hi.of_later rfl rfl rfl rfl rfl rfl (BitVec.le_refl _)
  | stop => cases h; exact hi.of_later rfl rfl rfl rfl rfl rfl (BitVec.le_refl _)
  | tick t =>
    simp only [step] at h
    split at h <;> cases h
    exact hi.of_later rfl rfl rfl rfl rfl rfl ‹_›

theorem stamped_reachable {cfg : Config Q D} {s : State Q T D} (h : Reachable cfg s) :
    Stamped s :=
  h.inv (stamped_init cfg) stamped_step

/-! ## The end-to-end sample bounds the raw one -/

/-- `safe_delta_ns` is antitone in its first argument. At every state of every run, a
worker past a successful read holds a request stamped no later than its
`raw_start_time`, so the end-to-end sample it inserts is at least the raw one, and once
it has inserted both they are in their histograms. Every end-to-end sample has a raw
sample of the same request that is not larger, and every device sample is a raw sample not
larger than an end-to-end sample of the same request. -/
theorem readLatency_ge_rawLatency {cfg : Config Q D} {s : State Q T D} (h : Reachable cfg s) :
    (∀ a b c : U64, a ≤ b → safeDeltaNs b c ≤ safeDeltaNs a c) ∧
      (∀ w r rawStart stop, (s.workers w = .readOk r rawStart stop ∨
          s.workers w = .rawIn r rawStart stop ∨ s.workers w = .readIn r rawStart stop) →
        r.startTime ≤ rawStart ∧ safeDeltaNs rawStart stop ≤ safeDeltaNs r.startTime stop) ∧
      (∀ w r rawStart stop, s.workers w = .readIn r rawStart stop →
        (r.id, safeDeltaNs rawStart stop) ∈ s.rawHist ∧
          (r.id, safeDeltaNs r.startTime stop) ∈ s.readHist) ∧
      (∀ i e, (i, e) ∈ s.readHist → ∃ v, (i, v) ∈ s.rawHist ∧ v ≤ e) ∧
      (∀ d i v, (i, v) ∈ s.devHist d →
        (i, v) ∈ s.rawHist ∧ ∃ e, (i, e) ∈ s.readHist ∧ v ≤ e) := by
  obtain ⟨-, -, hw, hrp, hdp⟩ := stamped_reachable h
  have hle : ∀ w r rawStart stop, (s.workers w = .readOk r rawStart stop ∨
      s.workers w = .rawIn r rawStart stop ∨ s.workers w = .readIn r rawStart stop) →
      r.startTime ≤ rawStart := by
    rintro w r t stop (hpc | hpc | hpc) <;> have := hw w <;> rw [hpc] at this
    exacts [this, this.1, this.1]
  refine ⟨fun _ _ _ => safeDeltaNs_antitone, fun w r t stop hpc => ?_,
    fun w r t stop hpc => ?_, hrp, hdp⟩
  · have := hle w r t stop hpc
    exact ⟨this, safeDeltaNs_antitone this⟩
  · have := hw w
    rw [hpc] at this
    exact this.2

/-- A request stamped at time `0` and popped at time `3`, whose read takes no time. -/
def lateRead : List (Action 1 1 1) :=
  [.gen 0 0 0, .gen 0 0 0, .gen 0 0 0, .gen 0 0 0, .tick 3, .worker (0, 0) true,
    .worker (0, 0) true, .worker (0, 0) true, .worker (0, 0) true, .worker (0, 0) true,
    .worker (0, 0) true, .worker (0, 0) true]

/-- The latency facts after `lateRead`: the request's end-to-end sample is `3`, its raw
sample `0`. -/
theorem readLatency_ge_rawLatency_lateRead :
    ∃ s : State 1 1 1, Reachable cfgOne s ∧ s.readHist = [(0, 3)] ∧ s.rawHist = [(0, 0)] ∧
      s.devHist 0 = [(0, 0)] ∧
      ((∀ a b c : U64, a ≤ b → safeDeltaNs b c ≤ safeDeltaNs a c) ∧
      (∀ w r rawStart stop, (s.workers w = .readOk r rawStart stop ∨
          s.workers w = .rawIn r rawStart stop ∨ s.workers w = .readIn r rawStart stop) →
        r.startTime ≤ rawStart ∧ safeDeltaNs rawStart stop ≤ safeDeltaNs r.startTime stop) ∧
      (∀ w r rawStart stop, s.workers w = .readIn r rawStart stop →
        (r.id, safeDeltaNs rawStart stop) ∈ s.rawHist ∧
          (r.id, safeDeltaNs r.startTime stop) ∈ s.readHist) ∧
      (∀ i e, (i, e) ∈ s.readHist → ∃ v, (i, v) ∈ s.rawHist ∧ v ≤ e) ∧
      (∀ d i v, (i, v) ∈ s.devHist d →
        (i, v) ∈ s.rawHist ∧ ∃ e, (i, e) ∈ s.readHist ∧ v ≤ e)) := by
  obtain ⟨s, hs, hp⟩ := exists_reachable_of_run cfgOne 0 lateRead
    (fun s => decide (s.readHist = [(0, 3)] ∧ s.rawHist = [(0, 0)] ∧ s.devHist 0 = [(0, 0)]))
    (by decide)
  obtain ⟨hr, hw, hd⟩ := of_decide_eq_true hp
  exact ⟨s, hs, hr, hw, hd, readLatency_ge_rawLatency hs⟩

/-! ## No sample is clamped -/

/-- `safe_delta_ns` of two readings in order is the exact time between them. -/
theorem safeDeltaNs_add {a b : U64} (h : a ≤ b) : (safeDeltaNs a b).toNat + a.toNat = b.toNat := by
  unfold safeDeltaNs
  split <;> bv_omega

/-- A transfer that did not fail returns the clock. -/
theorem readFromDevice_eq_clock {ok : Bool} {c : U64} (h : readFromDevice ok c ≠ -1) :
    readFromDevice ok c = c := by
  cases ok
  · exact absurd rfl h
  · rfl

/-- What a worker's locals say about the order of its readings: its `raw_start_time` is no
later than now, and its `stop_time` no earlier than its `raw_start_time`. -/
def WorkerPc.Timed (clock : U64) : WorkerPc D → Prop
  | .reading _ rawStart => rawStart ≤ clock
  | .readOk _ rawStart stop => rawStart ≤ stop
  | .rawIn _ rawStart stop => rawStart ≤ stop
  | .readIn _ rawStart stop => rawStart ≤ stop
  | _ => True

theorem WorkerPc.Timed.mono {pc : WorkerPc D} {c c' : U64} (h : pc.Timed c) (hc : c ≤ c') :
    pc.Timed c' := by
  cases pc with
  | reading r t => exact BitVec.le_trans h hc
  | _ => exact h

/-- Every worker's readings are in order. -/
def Timed (s : State Q T D) : Prop :=
  ∀ w, (s.workers w).Timed s.clock

theorem timed_worker {s s' : State Q T D} {w : Worker Q T} {ok : Bool}
    (hi : Timed s) (h : workerStep s w ok = some s') : Timed s' := by
  -- worker `w` moves to a place whose readings are in order; the others keep theirs
  have keep : ∀ {pc : WorkerPc D}, pc.Timed s.clock →
      ∀ w', (Function.update s.workers w pc w').Timed s.clock := by
    intro pc hpc w'
    by_cases hw : w' = w
    · subst hw; rwa [Function.update_same]
    · rw [Function.update_noteq hw]; exact hi w'
  unfold workerStep at h
  split at h
  next => cases h; exact keep (by split <;> trivial)
  next => split at h <;> cases h <;> exact keep trivial
  next => cases h; exact keep (BitVec.le_refl _)
  next r t hpc =>
    -- the `stop_time` of a transfer that did not fail is the clock
    have ht : t ≤ s.clock := by simpa [hpc, WorkerPc.Timed] using hi w
    split at h <;> cases h
    · exact keep (show t ≤ _ by rwa [readFromDevice_eq_clock ‹_›])
    · exact keep trivial
  next r t stop hpc => cases h; exact keep (by simpa [hpc, WorkerPc.Timed] using hi w)
  next r t stop hpc => cases h; exact keep (by simpa [hpc, WorkerPc.Timed] using hi w)
  next => cases h; exact keep trivial
  next => cases h; exact keep trivial
  next => cases h; exact keep trivial
  next => cases h

theorem timed_step {cfg : Config Q D} {s s' : State Q T D} {a : Action Q T D}
    (hi : Timed s) (h : step cfg s a = some s') : Timed s' := by
  cases a with
  | gen devRand hiRand loRand => obtain ⟨_, _, _, _, _, _, rfl⟩ := genStep_eq h; exact hi
  | worker w ok => exact timed_worker hi h
  | large dir d ok start lag => obtain ⟨_, _, _, rfl⟩ := largeStep_eq h; exact hi
  | stop => cases h; exact hi
  | tick t =>
    simp only [step] at h
    split at h <;> cases h
    exact fun w => (hi w).mono ‹_›

/-- The clock never goes back, so at every state of every run a worker past a successful
read has its `stop_time` no earlier than its `raw_start_time`, nor than its request's
`start_time`: `safe_delta_ns` never clamps a worker's sample to `0`, and the raw and the
end-to-end sample it inserts are the exact times elapsed since the two readings. -/
theorem workerSamples_exact {cfg : Config Q D} {s : State Q T D} (h : Reachable cfg s)
    {w : Worker Q T} {r : ReadReq D} {rawStart stop : U64}
    (hpc : s.workers w = .readOk r rawStart stop ∨ s.workers w = .rawIn r rawStart stop ∨
      s.workers w = .readIn r rawStart stop) :
    (safeDeltaNs rawStart stop).toNat + rawStart.toNat = stop.toNat ∧
      (safeDeltaNs r.startTime stop).toNat + r.startTime.toNat = stop.toNat := by
  have ht := h.inv (fun _ _ => trivial) timed_step w
  have hs := (stamped_reachable h).workers_ok w
  obtain ⟨hraw, hstart⟩ : rawStart ≤ stop ∧ r.startTime ≤ rawStart := by
    rcases hpc with hpc | hpc | hpc <;> rw [hpc] at ht hs
    exacts [⟨ht, hs⟩, ⟨ht, hs.1⟩, ⟨ht, hs.1⟩]
  exact ⟨safeDeltaNs_add hraw, safeDeltaNs_add (BitVec.le_trans hstart hraw)⟩

/-- A request popped at time `0` whose transfer ends at time `5`. -/
def fiveNsRead : List (Action 1 1 1) :=
  [.gen 0 0 0, .gen 0 0 0, .gen 0 0 0, .gen 0 0 0, .worker (0, 0) true, .worker (0, 0) true,
    .worker (0, 0) true, .tick 5, .worker (0, 0) true]

/-- After `fiveNsRead` both samples are `5`. -/
theorem workerSamples_exact_fiveNs :
    ∃ s : State 1 1 1, Reachable cfgOne s ∧
      s.workers (0, 0) = .readOk ⟨0, 0, 0, 4096, 0⟩ 0 5 ∧
      ((safeDeltaNs 0 5).toNat + BitVec.toNat (0 : U64) = BitVec.toNat (5 : U64) ∧
        (safeDeltaNs (⟨0, 0, 0, 4096, 0⟩ : ReadReq 1).startTime 5).toNat +
          (⟨0, 0, 0, 4096, 0⟩ : ReadReq 1).startTime.toNat = BitVec.toNat (5 : U64)) := by
  obtain ⟨s, hs, hp⟩ := exists_reachable_of_run cfgOne 0 fiveNsRead
    (fun s => decide (s.workers (0, 0) = .readOk ⟨0, 0, 0, 4096, 0⟩ 0 5)) (by decide)
  have hw := of_decide_eq_true hp
  exact ⟨s, hs, hw, workerSamples_exact hs (.inl hw)⟩

end Act.Pipeline
