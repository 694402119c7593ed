import Act.Pipeline.Model

set_option autoImplicit false

/-! # The request counter

`g_read_reqs_queued` is raised by the generator before it builds a request and lowered by
a worker after it has freed one. Between the two the request is in exactly one place: the
generator's hands, one queue slot, or one worker's hands. So at every state of every run
the counter is the number of requests in the queues, plus the workers between their pop and
their decrement, plus one for the generator between its increment and its push, plus one
for good once the generator has left through the overload exit
(`readReqsQueued_counts_requests`). The overload check then bounds everything by
`MAX_READ_REQS_QUEUED`, and it fires exactly when that many requests are queued or in a
worker's hands (`overload_iff_full`).

The workers leave their loop as soon as they see `g_running` false, without draining
their queue, and nothing undoes the increment of the overload exit. So once `main` has
joined the threads the counter is the number of requests left in the queues (plus the
overload increment), and exactly those requests were never freed
(`joined_queued_eq`, `joined_with_request_left`).
-/

namespace Act.Pipeline

open Finset

variable {Q T D : Nat}

/-! ## What the counter counts -/

/-- `1` from a worker's `cf_queue_pop` to its `cf_atomic32_decr`. -/
def WorkerPc.charged : WorkerPc D → Nat
  | .loop => 0
  | .pop => 0
  | .exited => 0
  | _ => 1

/-- The request a worker holds, from its `cf_queue_pop` to its `free`. -/
def WorkerPc.held : WorkerPc D → List Nat
  | .popped r => [r.id]
  | .reading r _ => [r.id]
  | .readOk r _ _ => [r.id]
  | .rawIn r _ _ => [r.id]
  | .readIn r _ _ => [r.id]
  | .reported r => [r.id]
  | _ => []

/-- `1` from the generator's `cf_atomic32_incr` to its `cf_queue_push`, and for good after
the overload exit. -/
def GenPc.charged : GenPc D → Nat
  | .build => 1
  | .push _ => 1
  | .overloaded => 1
  | _ => 0

/-- The request the generator holds, from its `malloc` to its `cf_queue_push`. -/
def GenPc.held : GenPc D → List Nat
  | .push r => [r.id]
  | _ => []

/-- What `g_read_reqs_queued` should be. -/
def charged (s : State Q T D) : Nat :=
  ∑ q, (s.queues q).length + ∑ w, (s.workers w).charged + s.gen.charged

/-- How many places hold request `i`: the generator, queue slots and workers. -/
def holders (s : State Q T D) (i : Nat) : Nat :=
  s.gen.held.count i + ∑ q, ((s.queues q).map ReadReq.id).count i +
    ∑ w, (s.workers w).held.count i

/-- The counter invariant: the counter counts what `charged` says, stays within the
overload bound, and every request allocated so far is in exactly one place or freed
exactly once. -/
structure Accounted (s : State Q T D) : Prop where
  queued_eq : s.queued.toNat = charged s
  queued_le : s.queued.toNat ≤ 100000 + if s.gen = .overloaded then 1 else 0
  holders_eq : ∀ i, holders s i + s.freedIds.count i = if i < s.nextId then 1 else 0

/-! ## The invariant holds at every reachable state -/

theorem accounted_init (cfg : Config Q D) (c0 : U64) : Accounted (init (T := T) cfg c0) := by
  refine ⟨?_, ?_, ?_⟩ <;>
    simp [init, charged, holders, GenPc.charged, GenPc.held, WorkerPc.charged, WorkerPc.held]

/-- A worker moves between two places that charge the counter and hold requests alike, and
nothing else the counter counts changes. -/
theorem Accounted.setWorker {s s' : State Q T D} {w : Worker Q T} {pc : WorkerPc D}
    (hi : Accounted s) (hc : pc.charged = (s.workers w).charged)
    (hh : pc.held = (s.workers w).held) (hq : s'.queued = s.queued) (hg : s'.gen = s.gen)
    (hqs : s'.queues = s.queues) (hw : s'.workers = Function.update s.workers w pc)
    (hf : s'.freedIds = s.freedIds) (hn : s'.nextId = s.nextId) : Accounted s' := by
  obtain ⟨h1, h2, h3⟩ := hi
  have hcs := sum_update_add WorkerPc.charged s.workers w pc
  refine ⟨?_, by rw [hq, hg]; exact h2, fun i => ?_⟩
  · simp only [charged, hq, hg, hqs, hw] at h1 ⊢; omega
  · have hhs := sum_update_add (fun pc : WorkerPc D => pc.held.count i) s.workers w pc
    simp only [hh] at hhs
    have := h3 i
    simp only [holders, hg, hqs, hw, hf, hn] at this ⊢; omega

theorem accounted_worker {s s' : State Q T D} {w : Worker Q T} {ok : Bool}
    (hi : Accounted s) (h : workerStep s w ok = some s') : Accounted s' := by
  unfold workerStep at h
  split at h
  next hw =>
    cases h
    exact hi.setWorker (by rw [hw]; split <;> rfl) (by rw [hw]; split <;> rfl)
      rfl rfl rfl rfl rfl rfl
  next hw =>
    split at h
    next hq =>
      cases h
      exact hi.setWorker (by rw [hw]; rfl) (by rw [hw]; rfl) rfl rfl rfl rfl rfl rfl
    next r rest hq =>
      cases h
      obtain ⟨h1, h2, h3⟩ := hi
      have hl := sum_update_add List.length s.queues w.1 rest
      have hc := sum_update_add WorkerPc.charged s.workers w (.popped r)
      rw [hq] at hl
      rw [hw] at hc
      refine ⟨?_, h2, fun i => ?_⟩
      · simp only [charged, List.length_cons, WorkerPc.charged] at h1 hl hc ⊢
        omega
      · have hql := sum_update_add (fun l : List (ReadReq D) => (l.map ReadReq.id).count i)
          s.queues w.1 rest
        have hwl := sum_update_add (fun pc : WorkerPc D => pc.held.count i) s.workers w (.popped r)
        rw [hq] at hql
        rw [hw] at hwl
        have := h3 i
        simp only [holders, List.map_cons, List.count_cons, WorkerPc.held, List.count_nil]
          at this hql hwl ⊢
        omega
  next r hw =>
    cases h
    exact hi.setWorker (by rw [hw]; rfl) (by rw [hw]; rfl) rfl rfl rfl rfl rfl rfl
  next r t hw =>
    split at h <;> cases h <;>
      exact hi.setWorker (by rw [hw]; rfl) (by rw [hw]; rfl) rfl rfl rfl rfl rfl rfl
  next r t stop hw =>
    cases h
    exact hi.setWorker (by rw [hw]; rfl) (by rw [hw]; rfl) rfl rfl rfl rfl rfl rfl
  next r t stop hw =>
    cases h
    exact hi.setWorker (by rw [hw]; rfl) (by rw [hw]; rfl) rfl rfl rfl rfl rfl rfl
  next r t stop hw =>
    cases h
    exact hi.setWorker (by rw [hw]; rfl) (by rw [hw]; rfl) rfl rfl rfl rfl rfl rfl
  next r hw =>
    cases h
    obtain ⟨h1, h2, h3⟩ := hi
    have hc := sum_update_add WorkerPc.charged s.workers w .freed
    rw [hw] at hc
    refine ⟨?_, h2, fun i => ?_⟩
    · simp only [charged, WorkerPc.charged] at h1 hc ⊢
      omega
    · have hwl := sum_update_add (fun pc : WorkerPc D => pc.held.count i) s.workers w .freed
      rw [hw] at hwl
      have := h3 i
      simp only [holders, WorkerPc.held, List.count_cons, List.count_nil, List.count_append]
        at this hwl ⊢
      omega
  next hw =>
    cases h
    obtain ⟨h1, h2, h3⟩ := hi
    have hc := sum_update_add WorkerPc.charged s.workers w .loop
    rw [hw] at hc
    have hpos : 1 ≤ s.queued.toNat := by
      simp only [charged, WorkerPc.charged] at h1 hc; omega
    have hdec : (s.queued - 1).toNat = s.queued.toNat - 1 := by
      simp only [BitVec.toNat_sub, BitVec.ofNat_eq_ofNat, BitVec.toNat_ofNat]; omega
    refine ⟨?_, ?_, fun i => ?_⟩
    · simp only [charged, WorkerPc.charged, hdec] at h1 hc ⊢
      omega
    · simp only [hdec]; omega
    · have hwl := sum_update_add (fun pc : WorkerPc D => pc.held.count i) s.workers w .loop
      rw [hw] at hwl
      have := h3 i
      simp only [holders, WorkerPc.held, List.count_nil] at this hwl ⊢
      omega
  next => cases h

theorem accounted_gen {cfg : Config Q D} {s s' : State Q T D} {r31 : U32} {r48 : U64}
    (hi : Accounted s) (h : genStep cfg s r31 r48 = some s') : Accounted s' := by
  obtain ⟨h1, h2, h3⟩ := hi
  unfold genStep at h
  split at h
  next hg =>
    cases hr : s.running <;> simp only [hr] at h <;> cases h <;>
    · refine ⟨?_, ?_, fun i => ?_⟩
      · simp only [charged, hg, GenPc.charged] at h1 ⊢; exact h1
      · simp only [hg, reduceCtorEq, if_false] at h2 ⊢; exact h2
      · have := h3 i
        simp only [holders, hg, GenPc.held] at this ⊢; exact this
  next hg =>
    have hle : s.queued.toNat ≤ 100000 := by simpa [hg] using h2
    have hinc : (s.queued + 1).toNat = s.queued.toNat + 1 := by
      simp only [BitVec.toNat_add, BitVec.ofNat_eq_ofNat, BitVec.toNat_ofNat]; omega
    split at h <;> cases h
    next hmax =>
      refine ⟨?_, ?_, fun i => ?_⟩
      · simp only [charged, hinc, hg, GenPc.charged] at h1 ⊢; omega
      · simp only [hinc, if_pos]; omega
      · have := h3 i
        simp only [holders, hg, GenPc.held] at this ⊢; exact this
    next hmax =>
      have : (s.queued + 1).toNat ≤ 100000 := by
        rw [BitVec.lt_def, hinc, show MAX_READ_REQS_QUEUED.toNat = 100000 from rfl] at hmax
        omega
      refine ⟨?_, ?_, fun i => ?_⟩
      · simp only [charged, hinc, hg, GenPc.charged] at h1 ⊢; omega
      · simp only [reduceCtorEq, if_false]; exact this
      · have := h3 i
        simp only [holders, hg, GenPc.held] at this ⊢; exact this
  next hg =>
    dsimp only at h
    split at h
    · cases h
    · cases h
      refine ⟨?_, ?_, fun i => ?_⟩
      · simp only [charged, hg, GenPc.charged] at h1 ⊢; exact h1
      · simp only [hg, reduceCtorEq, if_false] at h2 ⊢; exact h2
      · have h0 := h3 s.nextId
        have := h3 i
        simp only [holders, hg, GenPc.held, List.count_nil, lt_irrefl, if_false] at h0 this ⊢
        by_cases hi : i = s.nextId
        · subst hi; simp; omega
        · have : i < s.nextId + 1 ↔ i < s.nextId := by omega
          simp only [List.count_singleton', Ne.symm hi, if_false, this]; omega
  next r hg =>
    cases h
    have hl := sum_update_add List.length s.queues
      ⟨s.count.toNat % Q, Nat.mod_lt _ cfg.queues_pos⟩
      (s.queues ⟨s.count.toNat % Q, Nat.mod_lt _ cfg.queues_pos⟩ ++ [r])
    refine ⟨?_, ?_, fun i => ?_⟩
    · simp only [charged, hg, GenPc.charged, List.length_append, List.length_singleton]
        at h1 hl ⊢
      omega
    · simp only [hg, reduceCtorEq, if_false] at h2 ⊢; exact h2
    · have hql := sum_update_add (fun l : List (ReadReq D) => (l.map ReadReq.id).count i) s.queues
        ⟨s.count.toNat % Q, Nat.mod_lt _ cfg.queues_pos⟩
        (s.queues ⟨s.count.toNat % Q, Nat.mod_lt _ cfg.queues_pos⟩ ++ [r])
      have := h3 i
      simp only [holders, hg, GenPc.held, List.map_append, List.count_append, List.map_cons,
        List.map_nil, List.count_cons, List.count_nil] at this hql ⊢
      omega
  next => cases h
  next => cases h

theorem accounted_step {cfg : Config Q D} {s s' : State Q T D} {a : Action Q T D}
    (hi : Accounted s) (h : step cfg s a = some s') : Accounted s' := by
  cases a with
  | gen devRand hiRand loRand => exact accounted_gen hi h
  | worker w ok => exact accounted_worker hi h
  | large dir d ok start lag =>
    obtain ⟨_, _, _, rfl⟩ := largeStep_eq h
    exact ⟨hi.1, hi.2, hi.3⟩
  | stop => cases h; exact ⟨hi.1, hi.2, hi.3⟩
  | tick t =>
    simp only [step] at h
    split at h <;> cases h
    exact ⟨hi.1, hi.2, hi.3⟩

theorem accounted_reachable {cfg : Config Q D} {s : State Q T D} (h : Reachable cfg s) :
    Accounted s :=
  h.inv (accounted_init cfg) accounted_step

/-- The generator builds and pushes one request; `main` clears `g_running`; the worker sees
it at its loop head and leaves, and so does the generator. -/
def leftInQueue : List (Action 1 1 1) :=
  [.gen 0 0 0, .gen 0 0 0, .gen 0 0 0, .gen 0 0 0, .stop, .worker (0, 0) true, .gen 0 0 0]

/-- At every state of every run, `g_read_reqs_queued` is the number of queued requests,
plus the workers between their pop and their decrement, plus one while the generator is
between its increment and its push or after its overload exit. Every request allocated so
far is held by the generator, one queue slot or one worker, or has been freed, and by
exactly one of these. The counter is never negative, never above
`MAX_READ_REQS_QUEUED + 1`, and the queued and in-service requests never exceed
`MAX_READ_REQS_QUEUED`. -/
theorem readReqsQueued_counts_requests {cfg : Config Q D} {s : State Q T D}
    (h : Reachable cfg s) :
    s.queued.toNat = ∑ q, (s.queues q).length + ∑ w, (s.workers w).charged + s.gen.charged ∧
      (∀ i, holders s i + s.freedIds.count i = if i < s.nextId then 1 else 0) ∧
      0 ≤ s.queued.toInt ∧ s.queued.toNat ≤ MAX_READ_REQS_QUEUED.toNat + 1 ∧
      ∑ q, (s.queues q).length + ∑ w, (s.workers w).charged ≤ MAX_READ_REQS_QUEUED.toNat := by
  obtain ⟨h1, h2, h3⟩ := accounted_reachable h
  have hM : MAX_READ_REQS_QUEUED.toNat = 100000 := rfl
  have hle : s.queued.toNat ≤ 100001 := by split at h2 <;> omega
  refine ⟨h1, h3, by rw [toInt_eq_toNat_of_lt _ (by omega)]; omega, by omega, ?_⟩
  unfold charged at h1
  split at h2
  · next ho => rw [ho] at h1; simp only [GenPc.charged] at h1; omega
  · omega

/-- The counter after `leftInQueue`: one request queued, none in service. -/
theorem readReqsQueued_counts_requests_leftInQueue :
    ∃ s : State 1 1 1, Reachable cfgOne s ∧ s.queued.toNat = 1 ∧ (s.queues 0).length = 1 ∧
      s.workers (0, 0) = .exited ∧ s.gen = .stopped ∧
      (s.queued.toNat =
        ∑ q, (s.queues q).length + ∑ w, (s.workers w).charged + s.gen.charged ∧
      (∀ i, holders s i + s.freedIds.count i = if i < s.nextId then 1 else 0) ∧
      0 ≤ s.queued.toInt ∧ s.queued.toNat ≤ MAX_READ_REQS_QUEUED.toNat + 1 ∧
      ∑ q, (s.queues q).length + ∑ w, (s.workers w).charged ≤
        MAX_READ_REQS_QUEUED.toNat) := by
  obtain ⟨s, hs, hp⟩ := exists_reachable_of_run cfgOne 0 leftInQueue
    (fun s => decide (s.queued.toNat = 1 ∧ (s.queues 0).length = 1 ∧
      s.workers (0, 0) = .exited ∧ s.gen = .stopped)) (by decide)
  obtain ⟨hq, hl, hw, hg⟩ := of_decide_eq_true hp
  exact ⟨s, hs, hq, hl, hw, hg, readReqsQueued_counts_requests hs⟩

/-! ## The overload exit -/

/-- The generator leaves through its overload exit exactly when `MAX_READ_REQS_QUEUED`
requests are queued or in a worker's hands: the counter check never fires early, and it
never lets more through. -/
theorem overload_iff_full {cfg : Config Q D} {s s' : State Q T D} {r31 : U32} {r48 : U64}
    (h : Reachable cfg s) (hg : s.gen = .incr) (hs : genStep cfg s r31 r48 = some s') :
    s'.gen = .overloaded ↔
      ∑ q, (s.queues q).length + ∑ w, (s.workers w).charged = MAX_READ_REQS_QUEUED.toNat := by
  obtain ⟨h1, h2, -⟩ := accounted_reachable h
  have hle : s.queued.toNat ≤ 100000 := by simpa [hg] using h2
  have hinc : (s.queued + 1).toNat = s.queued.toNat + 1 := by
    simp only [BitVec.toNat_add, BitVec.ofNat_eq_ofNat, BitVec.toNat_ofNat]; omega
  simp only [charged, hg, GenPc.charged, Nat.add_zero] at h1
  simp only [genStep, hg] at hs
  rw [show MAX_READ_REQS_QUEUED.toNat = 100000 from rfl, ← h1]
  have hM : MAX_READ_REQS_QUEUED.toNat = 100000 := rfl
  split at hs <;> cases hs
  next hmax =>
    rw [BitVec.lt_def, hinc, hM] at hmax
    exact iff_of_true rfl (by omega)
  next hmax =>
    rw [BitVec.lt_def, hinc, hM] at hmax
    exact iff_of_false (by simp) (by omega)

/-- The generator at its first increment, with nothing queued: it goes on to build. -/
theorem overload_iff_full_firstIncr :
    ∃ s s' : State 1 1 1, Reachable cfgOne s ∧ s.gen = .incr ∧
      genStep cfgOne s 0 0 = some s' ∧
      (s'.gen = .overloaded ↔
        ∑ q, (s.queues q).length + ∑ w, (s.workers w).charged =
          MAX_READ_REQS_QUEUED.toNat) := by
  obtain ⟨s, hs, hp⟩ := exists_reachable_of_run (T := 1) cfgOne 0 [.gen 0 0 0]
    (fun s => decide (s.gen = .incr)) (by decide)
  have hg : s.gen = .incr := of_decide_eq_true hp
  obtain ⟨s', hs'⟩ : ∃ s', genStep cfgOne s 0 0 = some s' := by
    simp only [genStep, hg]; split <;> exact ⟨_, rfl⟩
  exact ⟨s, s', hs, hg, hs', overload_iff_full hs hg hs'⟩

/-! ## At shutdown -/

/-- Once `main` has joined the generator and the workers, the counter is the number of
requests left in the queues, plus one after an overload exit; every request allocated is
either left in one queue slot or has been freed, exactly once, and not both. -/
theorem joined_queued_eq {cfg : Config Q D} {s : State Q T D} (h : Reachable cfg s)
    (hj : Joined s) :
    s.queued.toNat = ∑ q, (s.queues q).length + s.gen.charged ∧
      ∀ i, ∑ q, ((s.queues q).map ReadReq.id).count i + s.freedIds.count i =
        if i < s.nextId then 1 else 0 := by
  obtain ⟨h1, -, h3⟩ := accounted_reachable h
  have hw : ∀ w, s.workers w = .exited := hj.2
  have hg : s.gen.held = [] := by rcases hj.1 with hg | hg <;> rw [hg] <;> rfl
  refine ⟨by simpa [charged, hw, WorkerPc.charged] using h1, fun i => ?_⟩
  simpa [holders, hw, hg, WorkerPc.held] using h3 i

/-- The shutdown accounting after `leftInQueue`. -/
theorem joined_queued_eq_leftInQueue :
    ∃ s : State 1 1 1, Reachable cfgOne s ∧ Joined s ∧
      (s.queued.toNat = ∑ q, (s.queues q).length + s.gen.charged ∧
      ∀ i, ∑ q, ((s.queues q).map ReadReq.id).count i + s.freedIds.count i =
        if i < s.nextId then 1 else 0) := by
  obtain ⟨s, hs, hp⟩ := exists_reachable_of_run cfgOne 0 leftInQueue
    (fun s => decide (Joined s)) (by decide)
  exact ⟨s, hs, of_decide_eq_true hp, joined_queued_eq hs (of_decide_eq_true hp)⟩

/-- After that run every thread is joined, yet the counter is `1`, the queue holds the
request, and the request was never freed. -/
theorem joined_with_request_left :
    ∃ s : State 1 1 1, Reachable cfgOne s ∧ Joined s ∧ s.queued.toNat = 1 ∧
      s.queues 0 ≠ [] ∧ 0 ∉ s.freedIds := by
  obtain ⟨s, hs, hp⟩ := exists_reachable_of_run cfgOne 0 leftInQueue
    (fun s => decide (Joined s ∧ s.queued.toNat = 1 ∧ s.queues 0 ≠ [] ∧ 0 ∉ s.freedIds))
    (by decide)
  exact ⟨s, hs, of_decide_eq_true hp⟩

end Act.Pipeline
