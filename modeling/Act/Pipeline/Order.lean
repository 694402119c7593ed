import Act.Pipeline.Offsets

set_option autoImplicit false

/-! # Oldest request first

`cf_queue_push` appends and `cf_queue_pop` takes the head, and `run_add_readreqs` stamps
each request with `cf_getns()` just before it pushes it, from a clock that never goes back.
So the request the generator is about to push is the newest in flight, every queue holds its
requests oldest first, and the request a worker holds was stamped no later than any request
still waiting in its queue (`queues_oldestFirst`): no request of a queue waits while a
younger one of the same queue is served.
-/

namespace Act.Pipeline

variable {Q T D : Nat}

/-- The order invariant. -/
structure OldestFirst (s : State Q T D) : Prop where
  /-- Every request in flight was stamped no later than now. -/
  stamped_le : ∀ r, InFlight s r → r.startTime ≤ s.clock
  /-- The request the generator is about to push is the newest in flight. -/
  gen_newest : ∀ r, s.gen.req = some r → ∀ r', InFlight s r' → r'.startTime ≤ r.startTime
  /-- Each queue holds its requests oldest first. -/
  sorted : ∀ q, (s.queues q).Pairwise fun r r' => r.startTime ≤ r'.startTime
  /-- A worker's request is no newer than any request left in its queue. -/
  served_oldest : ∀ w r, (s.workers w).req = some r →
    ∀ r' ∈ s.queues w.1, r.startTime ≤ r'.startTime

/-! ## What a worker step does to the requests -/

/-- A worker step leaves the clock and the generator alone, and either keeps the queues
while every worker keeps or drops its request, or pops the head of the worker's queue into
its hands. -/
theorem workerStep_req {s s' : State Q T D} {w : Worker Q T} {ok : Bool}
    (h : workerStep s w ok = some s') :
    s'.clock = s.clock ∧ s'.gen = s.gen ∧
      ((s'.queues = s.queues ∧ ∀ w', (s'.workers w').req = none ∨
          (s'.workers w').req = (s.workers w').req) ∨
        ∃ r rest, s.queues w.1 = r :: rest ∧ s'.queues = Function.update s.queues w.1 rest ∧
          s'.workers = Function.update s.workers w (.popped r)) := by
  unfold workerStep at h
  repeat' split at h
  all_goals cases h
  all_goals first
    | exact ⟨rfl, rfl, .inr ⟨_, _, ‹_›, rfl, rfl⟩⟩
    | exact ⟨rfl, rfl, .inl ⟨rfl, req_update s w (.inl rfl)⟩⟩
    | exact ⟨rfl, rfl, .inl ⟨rfl, req_update s w (.inr (by rw [‹s.workers w = _›]; rfl))⟩⟩

/-! ## The invariant holds at every reachable state -/

theorem oldestFirst_init (cfg : Config Q D) (c0 : U64) :
    OldestFirst (init (T := T) cfg c0) where
  stamped_le r hr := by simp [InFlight, init, GenPc.req, WorkerPc.req] at hr
  gen_newest r hr := by simp [init, GenPc.req] at hr
  sorted q := by simp [init]
  served_oldest w r hr := by simp [init, WorkerPc.req] at hr

theorem oldestFirst_worker {s s' : State Q T D} {w : Worker Q T} {ok : Bool}
    (hi : OldestFirst s) (h : workerStep s w ok = some s') : OldestFirst s' := by
  obtain ⟨hc, hg, hstep⟩ := workerStep_req h
  have hstamp : ∀ r, InFlight s' r → r.startTime ≤ s'.clock :=
    fun r hr => hc ▸ hi.stamped_le r (inFlight_worker h hr)
  have hnew : ∀ r, s'.gen.req = some r → ∀ r', InFlight s' r' → r'.startTime ≤ r.startTime :=
    fun r hr r' hr' => hi.gen_newest r (hg ▸ hr) r' (inFlight_worker h hr')
  rcases hstep with ⟨hq, hw⟩ | ⟨r, rest, hqw, hq, hw⟩
  · refine ⟨hstamp, hnew, hq ▸ hi.sorted, fun w' r0 hr0 r' hr' => ?_⟩
    rcases hw w' with h0 | h0 <;> rw [h0] at hr0
    · cases hr0
    · exact hi.served_oldest w' r0 hr0 r' (hq ▸ hr')
  · -- the pop: the head of a queue sorted oldest first is its oldest request
    have hsort := hi.sorted w.1
    rw [hqw] at hsort
    refine ⟨hstamp, hnew, fun q => ?_, fun w' r0 hr0 r' hr' => ?_⟩
    · rw [hq]
      by_cases hqq : q = w.1
      · subst hqq; rw [Function.update_same]; exact hsort.of_cons
      · rw [Function.update_noteq hqq]; exact hi.sorted q
    · rw [hw] at hr0
      rw [hq] at hr'
      by_cases hww : w' = w
      · subst hww
        rw [Function.update_same] at hr0 hr'
        cases hr0
        exact List.rel_of_pairwise_cons hsort hr'
      · rw [Function.update_noteq hww] at hr0
        exact hi.served_oldest w' r0 hr0 r' (mem_update_pop hqw hr')

theorem oldestFirst_gen {cfg : Config Q D} {s s' : State Q T D} {r31 : U32} {r48 : U64}
    (hi : OldestFirst s) (h : genStep cfg s r31 r48 = some s') : OldestFirst s' := by
  obtain ⟨hstamp, hnew, hsort, hserved⟩ := hi
  -- a step that only moves the generator to a place without a request
  have idle : ∀ {s' : State Q T D}, s'.gen.req = none → s'.queues = s.queues →
      s'.workers = s.workers → s'.clock = s.clock → OldestFirst s' :=
    fun hg hq hw hc => ⟨fun r hr => hc ▸ hstamp r (inFlight_of_drop hr (.inl hg) hq
      fun _ => .inr (by rw [hw])), fun r hr => by simp [hg] at hr, hq ▸ hsort, hw ▸ hq ▸ hserved⟩
  unfold genStep at h
  split at h
  next => cases h; exact idle (by dsimp only; split <;> rfl) rfl rfl rfl
  next => split at h <;> cases h <;> exact idle rfl rfl rfl rfl
  next =>
    -- the new request is stamped now, after every request in flight
    dsimp only at h
    split at h <;> cases h
    have hold : ∀ r', InFlight s r' → r'.startTime ≤ s.clock := hstamp
    refine ⟨fun r' hr' => ?_, fun r hr r' hr' => ?_, hsort, hserved⟩
    · rcases hr' with hr' | hr'
      · cases hr'; exact BitVec.le_refl _
      · exact hold r' (.inr hr')
    · cases hr
      rcases hr' with hr' | hr'
      · cases hr'; exact BitVec.le_refl _
      · exact hold r' (.inr hr')
  next r hpc =>
    -- the push: the newest request goes to the back of its queue
    cases h
    have hr : s.gen.req = some r := by rw [hpc]; rfl
    refine ⟨fun r' hr' => ?_, fun r0 hr0 => by simp [GenPc.req] at hr0, fun q => ?_,
      fun w r0 hr0 r' hr' => ?_⟩
    · rcases hr' with hr' | ⟨q, hr'⟩ | hr'
      · cases hr'
      · rcases mem_update_push hr' with hr' | rfl
        · exact hstamp r' (.inr (.inl ⟨q, hr'⟩))
        · exact hstamp _ (.inl hr)
      · exact hstamp r' (.inr (.inr hr'))
    · dsimp only
      by_cases hq : q = ⟨s.count.toNat % Q, Nat.mod_lt _ cfg.queues_pos⟩
      · subst hq
        rw [Function.update_same, List.pairwise_append]
        exact ⟨hsort _, List.pairwise_singleton _ _, fun a ha b hb => by
          rw [List.mem_singleton.1 hb]; exact hnew r hr a (.inr (.inl ⟨_, ha⟩))⟩
      · rw [Function.update_noteq hq]; exact hsort q
    · rcases mem_update_push hr' with hr' | rfl
      · exact hserved w r0 hr0 r' hr'
      · exact hnew _ hr r0 (.inr (.inr ⟨w, hr0⟩))
  next => cases h
  next => cases h

theorem oldestFirst_step {cfg : Config Q D} {s s' : State Q T D} {a : Action Q T D}
    (hi : OldestFirst s) (h : step cfg s a = some s') : OldestFirst s' := by
  cases a with
  | gen devRand hiRand loRand => exact oldestFirst_gen hi h
  | worker w ok => exact oldestFirst_worker hi h
  | large dir d ok start lag =>
    obtain ⟨_, _, _, rfl⟩ := largeStep_eq h
    exact ⟨hi.1, hi.2, hi.3, hi.4⟩
  | stop => cases h; exact ⟨hi.1, hi.2, hi.3, hi.4⟩
  | tick t =>
    simp only [step] at h
    split at h <;> cases h
    exact ⟨fun r hr => BitVec.le_trans (hi.stamped_le r hr) ‹_›, hi.gen_newest, hi.sorted,
      hi.served_oldest⟩

/-! ## Oldest first -/

/-- At every state of every run with a monotone clock, the request the generator is about to
push was stamped no earlier than any request in flight, every queue holds its requests in
the order of their `start_time`, and the request each worker holds was stamped no later
than any request still waiting in its queue. -/
theorem queues_oldestFirst {cfg : Config Q D} {s : State Q T D} (h : Reachable cfg s) :
    (∀ r, s.gen.req = some r → ∀ r', InFlight s r' → r'.startTime ≤ r.startTime) ∧
      (∀ q, (s.queues q).Pairwise fun r r' => r.startTime ≤ r'.startTime) ∧
      ∀ w r, (s.workers w).req = some r → ∀ r' ∈ s.queues w.1, r.startTime ≤ r'.startTime :=
  have hi := h.inv (oldestFirst_init cfg) oldestFirst_step
  ⟨hi.gen_newest, hi.sorted, hi.served_oldest⟩

/-- Three requests, stamped at times `0`, `3` and `5`: the worker pops the first, the second
waits, and the generator is about to push the third. -/
def threeStamps : List (Action 1 1 1) :=
  [.gen 0 0 0, .gen 0 0 0, .gen 0 0 0, .gen 0 0 0, .tick 3, .gen 0 0 0, .gen 0 0 0,
    .gen 0 0 0, .gen 0 0 0, .worker (0, 0) true, .worker (0, 0) true, .tick 5, .gen 0 0 0,
    .gen 0 0 0, .gen 0 0 0]

/-- After `threeStamps` the worker holds the request of time `0`, the one of time `3` waits
and the generator holds the one of time `5`. -/
theorem queues_oldestFirst_threeStamps :
    ∃ s : State 1 1 1, Reachable cfgOne s ∧
      (s.workers (0, 0)).req = some ⟨0, 0, 0, 4096, 0⟩ ∧ s.queues 0 = [⟨1, 0, 0, 4096, 3⟩] ∧
      s.gen.req = some ⟨2, 0, 0, 4096, 5⟩ ∧
      ((∀ r, s.gen.req = some r → ∀ r', InFlight s r' → r'.startTime ≤ r.startTime) ∧
        (∀ q, (s.queues q).Pairwise fun r r' => r.startTime ≤ r'.startTime) ∧
        ∀ w r, (s.workers w).req = some r → ∀ r' ∈ s.queues w.1,
          r.startTime ≤ r'.startTime) := by
  obtain ⟨s, hs, hp⟩ := exists_reachable_of_run cfgOne 0 threeStamps
    (fun s => decide ((s.workers (0, 0)).req = some ⟨0, 0, 0, 4096, 0⟩ ∧
      s.queues 0 = [⟨1, 0, 0, 4096, 3⟩] ∧ s.gen.req = some ⟨2, 0, 0, 4096, 5⟩)) (by decide)
  obtain ⟨hw, hq, hg⟩ := of_decide_eq_true hp
  exact ⟨s, hs, hw, hq, hg, queues_oldestFirst hs⟩

end Act.Pipeline
