import Act.Basic.Run
import Act.Device.Geometry
import Mathlib.Data.Fintype.Prod

set_option autoImplicit false

/-! # The transaction pipeline

The threads of a run that share the request queues, the request counter and the
histograms, as a state machine. One generator (`run_add_readreqs`) builds a `readreq` per
iteration and pushes it on queue `count % num_queues`; each of the `num_queues` queues has
`threads_per_queue` workers (`run_reads`) that pop a request, time one read of it
(`read_and_report`), free it and decrement `g_read_reqs_queued`. Per device a large-block
reader and writer (`run_large_block_reads` / `_writes`, started only when
`write_reqs_per_sec` is not `0`) allocate their buffer, or return at once when `cf_valloc`
fails, and feed their own histograms. `main` clears `g_running` when the run is over, and
so do the overload exits of the generator and of the large-block loops. Here the action
says whether a large-block pass finds its loop behind schedule, which covers every clock;
`Act.Timing.LargeBlocks` computes that check from the loop's own schedule and shows that
the step with its result is this one (`Pacing.largeStep_of_pass`).

A state holds every thread's program counter with its locals, and the shared data. A step
(`step`) is one thread executing its next statement, or time passing (`tick`), or `main`
clearing `g_running` (`stop`). A queue push or pop, a counter update and a histogram
insertion are each one step: the queue takes a lock, the counter is atomic, and an
insertion is counted as one atomic increment. `read_from_device` is one step, with its
outcome chosen by the action: its descriptor handling is the business of
`Device/Descriptor.lean`, and it touches nothing modelled here. `System/Io.lean` runs the
two together.

The clock is the value `cf_getns` would return now; `tick` moves it to any reading that is
not smaller (`Basic/Clock.lean`). The `rand()` results behind `rand_31` and `rand_48` are
chosen by the action. A remainder by zero in `random_read_offset` stops the generator
(`none`).

Some fields are ghost: the allocation number of each request, the requests freed, popped
and read so far. They only record the run, and nothing of the model reads them to decide a
step.
-/

namespace Act.Pipeline

open Finset

/-- `MAX_READ_REQS_QUEUED`. -/
def MAX_READ_REQS_QUEUED : U32 := 100000

/-- `safe_delta_ns`. -/
def safeDeltaNs (startNs stopNs : U64) : U64 := if startNs > stopNs then 0 else stopNs - startNs

/-- What the pipeline reads of `g_cfg` and of the device table: `num_queues = Q` and
`num_devices = D` are positive, and each device has the geometry `discover_num_blocks`
gave it. -/
structure Config (Q D : Nat) where
  devices : Fin D → Device
  largeBlocks : Bool
  queues_pos : 0 < Q
  devices_pos : 0 < D

/-- A `readreq`, with the allocation number `id` it was given (ghost). -/
structure ReadReq (D : Nat) where
  id : Nat
  device : Fin D
  offset : U64
  size : U32
  startTime : U64
deriving DecidableEq, Repr

/-- Where `run_add_readreqs` is. -/
inductive GenPc (D : Nat) where
  /-- At `while (g_running)`. -/
  | loop
  /-- About to `cf_atomic32_incr(&g_read_reqs_queued)`. -/
  | incr
  /-- Past the overload check, the request not yet allocated. -/
  | build
  /-- The request `r` filled in and time-stamped, about to `cf_queue_push`. -/
  | push (r : ReadReq D)
  /-- Left the loop because `g_running` was false. -/
  | stopped
  /-- Left the loop through the overload `break`. -/
  | overloaded
deriving DecidableEq, Repr

/-- Where a `run_reads` worker is; `rawStart` is `raw_start_time`, `stop` is `stop_time`. -/
inductive WorkerPc (D : Nat) where
  /-- At `while (g_running)`. -/
  | loop
  /-- In `cf_queue_pop`, waiting up to 100 ms. -/
  | pop
  /-- Holds the popped request; `read_and_report` not started. -/
  | popped (r : ReadReq D)
  /-- `raw_start_time` taken, `read_from_device` under way. -/
  | reading (r : ReadReq D) (rawStart : U64)
  /-- `stop_time != -1`, nothing inserted yet. -/
  | readOk (r : ReadReq D) (rawStart stop : U64)
  /-- Inserted into `g_p_raw_read_histogram`. -/
  | rawIn (r : ReadReq D) (rawStart stop : U64)
  /-- Inserted into `g_p_read_histogram` as well. -/
  | readIn (r : ReadReq D) (rawStart stop : U64)
  /-- `read_and_report` has returned. -/
  | reported (r : ReadReq D)
  /-- `free(p_readreq)` done, `cf_atomic32_decr` not yet. -/
  | freed
  /-- Left the loop. -/
  | exited
deriving DecidableEq, Repr

/-- The two large-block loops of a device. -/
inductive Dir where
  | read
  | write
deriving DecidableEq, Repr

/-- Where a large-block loop is. -/
inductive LargePc where
  /-- About to `cf_valloc` its buffer. -/
  | alloc
  | loop
  | busy
  | exited
deriving DecidableEq, Repr

/-- A worker is named by its queue and its index among the queue's threads. -/
abbrev Worker (Q T : Nat) := Fin Q × Fin T

/-- The shared state of the run and every pipeline thread's program counter. -/
structure State (Q T D : Nat) where
  /-- `g_running`. -/
  running : Bool
  /-- `g_read_reqs_queued`. -/
  queued : U32
  gen : GenPc D
  /-- The generator's `count`. -/
  count : U64
  /-- `g_readqs[q].p_req_queue`. -/
  queues : Fin Q → List (ReadReq D)
  workers : Worker Q T → WorkerPc D
  large : Dir → Fin D → LargePc
  /-- `g_p_raw_read_histogram`, each sample with the request it times (ghost). -/
  rawHist : List (Nat × U64)
  /-- `g_p_read_histogram`. -/
  readHist : List (Nat × U64)
  /-- `g_devices[d].p_raw_read_histogram`. -/
  devHist : Fin D → List (Nat × U64)
  /-- `g_p_large_block_read_histogram` and `g_p_large_block_write_histogram`. -/
  largeHist : Dir → List U64
  /-- The reading of `cf_getns` now. -/
  clock : U64
  /-- Ghost: the requests allocated so far. -/
  nextId : Nat
  /-- Ghost: the requests freed, in order. -/
  freedIds : List Nat
  /-- Ghost: the requests popped from each queue, in order. -/
  poppedIds : Fin Q → List Nat
  /-- Ghost: the requests whose read returned a stop time. -/
  succeeded : List (ReadReq D)

/-- One step of the run. -/
inductive Action (Q T D : Nat) where
  /-- The generator's next statement, with the `rand()` results it draws: one for the
  `rand_31()` that picks the device, two for the `rand_48()` of `random_read_offset`. -/
  | gen (devRand hiRand loRand : RandInt)
  /-- A worker's next statement; `ok` is whether its `read_from_device` succeeds. -/
  | worker (w : Worker Q T) (ok : Bool)
  /-- A large-block loop's next statement: `ok` for `cf_valloc` or the transfer, `start` the
  `cf_getns` reading before the transfer, `lag` whether the loop then finds itself over
  `MAX_SLEEP_LAG_USEC` behind its schedule. -/
  | large (dir : Dir) (d : Fin D) (ok : Bool) (start : U64) (lag : Bool)
  /-- `main` clears `g_running`. -/
  | stop
  /-- The clock moves on to the reading `t`. -/
  | tick (t : U64)

variable {Q T D : Nat}

/-- What `read_from_device` returns at clock `clock`: the `cf_getns` reading taken after the
transfer, or `-1` when the seek or the transfer failed (`ok = false`). `write_to_device`
is the same. -/
def readFromDevice (ok : Bool) (clock : U64) : U64 := if ok then clock else -1

/-- The state `main` starts the threads in, with the clock at `c0`. -/
def init (cfg : Config Q D) (c0 : U64) : State Q T D where
  running := true
  queued := 0
  gen := .loop
  count := 0
  queues := fun _ => []
  workers := fun _ => .loop
  large := fun _ _ => if cfg.largeBlocks then .alloc else .exited
  rawHist := []
  readHist := []
  devHist := fun _ => []
  largeHist := fun _ => []
  clock := c0
  nextId := 0
  freedIds := []
  poppedIds := fun _ => []
  succeeded := []

/-- The statement `run_add_readreqs` executes next. -/
def genStep (cfg : Config Q D) (s : State Q T D) (rand31 : U32) (rand48 : U64) :
    Option (State Q T D) :=
  match s.gen with
  | .loop => some { s with gen := if s.running then .incr else .stopped }
  | .incr =>
    if MAX_READ_REQS_QUEUED < s.queued + 1 then
      some { s with queued := s.queued + 1, running := false, gen := .overloaded }
    else some { s with queued := s.queued + 1, gen := .build }
  | .build =>
    let d : Fin D := ⟨rand31.toNat % D, Nat.mod_lt _ cfg.devices_pos⟩
    match randomReadOffset (cfg.devices d) rand48 with
    | none => none
    | some offset =>
      some { s with
        gen := .push ⟨s.nextId, d, offset, (cfg.devices d).readBytes, s.clock⟩
        nextId := s.nextId + 1 }
  | .push r =>
    let q : Fin Q := ⟨s.count.toNat % Q, Nat.mod_lt _ cfg.queues_pos⟩
    some { s with
      queues := Function.update s.queues q (s.queues q ++ [r])
      gen := .loop
      count := s.count + 1 }
  | .stopped => none
  | .overloaded => none

/-- The statement worker `w` executes next. -/
def workerStep (s : State Q T D) (w : Worker Q T) (ok : Bool) : Option (State Q T D) :=
  match s.workers w with
  | .loop =>
    some { s with workers := Function.update s.workers w (if s.running then .pop else .exited) }
  | .pop =>
    match s.queues w.1 with
    | [] => some { s with workers := Function.update s.workers w .loop }
    | r :: rest =>
      some { s with
        queues := Function.update s.queues w.1 rest
        workers := Function.update s.workers w (.popped r)
        poppedIds := Function.update s.poppedIds w.1 (s.poppedIds w.1 ++ [r.id]) }
  | .popped r => some { s with workers := Function.update s.workers w (.reading r s.clock) }
  | .reading r rawStart =>
    if readFromDevice ok s.clock ≠ -1 then
      some { s with
        workers := Function.update s.workers w (.readOk r rawStart (readFromDevice ok s.clock))
        succeeded := s.succeeded ++ [r] }
    else some { s with workers := Function.update s.workers w (.reported r) }
  | .readOk r rawStart stop =>
    some { s with
      rawHist := s.rawHist ++ [(r.id, safeDeltaNs rawStart stop)]
      workers := Function.update s.workers w (.rawIn r rawStart stop) }
  | .rawIn r rawStart stop =>
    some { s with
      readHist := s.readHist ++ [(r.id, safeDeltaNs r.startTime stop)]
      workers := Function.update s.workers w (.readIn r rawStart stop) }
  | .readIn r rawStart stop =>
    some { s with
      devHist := Function.update s.devHist r.device
        (s.devHist r.device ++ [(r.id, safeDeltaNs rawStart stop)])
      workers := Function.update s.workers w (.reported r) }
  | .reported r =>
    some { s with
      freedIds := s.freedIds ++ [r.id]
      workers := Function.update s.workers w .freed }
  | .freed => some { s with queued := s.queued - 1, workers := Function.update s.workers w .loop }
  | .exited => none

/-- The statement the large-block loop `dir` of device `d` executes next. -/
def largeStep (s : State Q T D) (dir : Dir) (d : Fin D) (ok : Bool) (start : U64) (lag : Bool) :
    Option (State Q T D) :=
  match s.large dir d with
  | .alloc =>
    let pc : LargePc := if ok then .loop else .exited
    some { s with large := Function.update s.large dir (Function.update (s.large dir) d pc) }
  | .loop =>
    let pc : LargePc := if s.running then .busy else .exited
    some { s with large := Function.update s.large dir (Function.update (s.large dir) d pc) }
  | .busy =>
    if start ≤ s.clock then
      some { s with
        largeHist := if readFromDevice ok s.clock ≠ -1 then Function.update s.largeHist dir
          (s.largeHist dir ++ [safeDeltaNs start (readFromDevice ok s.clock)]) else s.largeHist
        running := if lag then false else s.running
        large := Function.update s.large dir (Function.update (s.large dir) d .loop) }
    else none
  | .exited => none

/-- One step of the run. -/
def step (cfg : Config Q D) (s : State Q T D) : Action Q T D → Option (State Q T D)
  | .gen devRand hiRand loRand => genStep cfg s (rand31 devRand) (rand48 hiRand loRand)
  | .worker w ok => workerStep s w ok
  | .large dir d ok start lag => largeStep s dir d ok start lag
  | .stop => some { s with running := false }
  | .tick t => if s.clock ≤ t then some { s with clock := t } else none

/-! ## What a step leaves alone -/

/-- The generator changes only `g_running`, the counter, its own locals and the queues. -/
theorem genStep_eq {cfg : Config Q D} {s s' : State Q T D} {rand31 : U32} {rand48 : U64}
    (h : genStep cfg s rand31 rand48 = some s') :
    ∃ running queued gen count queues nextId, s' = { s with
      running := running, queued := queued, gen := gen, count := count, queues := queues,
      nextId := nextId } := by
  unfold genStep at h
  dsimp only at h
  repeat' split at h
  all_goals cases h
  all_goals exact ⟨_, _, _, _, _, _, rfl⟩

/-- A large-block loop changes only `g_running`, its own program counter and its
histogram. -/
theorem largeStep_eq {s s' : State Q T D} {dir : Dir} {d : Fin D} {ok : Bool} {start : U64}
    {lag : Bool} (h : largeStep s dir d ok start lag = some s') :
    ∃ running large largeHist, s' = { s with
      running := running, large := large, largeHist := largeHist } := by
  unfold largeStep at h
  repeat' split at h
  all_goals cases h
  all_goals exact ⟨_, _, _, rfl⟩

/-- A worker leaves the generator's data alone, and touches the queues only to pop the
head of its own. -/
theorem workerStep_queues {s s' : State Q T D} {w : Worker Q T} {ok : Bool}
    (h : workerStep s w ok = some s') :
    s'.gen = s.gen ∧ s'.count = s.count ∧ s'.nextId = s.nextId ∧
      ((s'.queues = s.queues ∧ s'.poppedIds = s.poppedIds) ∨
        ∃ r rest, s.queues w.1 = r :: rest ∧ s'.queues = Function.update s.queues w.1 rest ∧
          s'.poppedIds = Function.update s.poppedIds w.1 (s.poppedIds w.1 ++ [r.id])) := by
  unfold workerStep at h
  repeat' split at h
  all_goals cases h
  all_goals first
    | exact ⟨rfl, rfl, rfl, .inl ⟨rfl, rfl⟩⟩
    | exact ⟨rfl, rfl, rfl, .inr ⟨_, _, ‹_›, rfl, rfl⟩⟩

/-- A request in a queue after the generator's push was there before, or is the one pushed. -/
theorem mem_update_push {queues : Fin Q → List (ReadReq D)} {q q' : Fin Q} {r r' : ReadReq D}
    (h : r' ∈ Function.update queues q (queues q ++ [r]) q') : r' ∈ queues q' ∨ r' = r := by
  by_cases hq : q' = q
  · subst hq
    rw [Function.update_same] at h
    simpa using h
  · rw [Function.update_noteq hq] at h
    exact .inl h

/-- A request in a queue after a worker's pop was there before. -/
theorem mem_update_pop {queues : Fin Q → List (ReadReq D)} {q q' : Fin Q} {r r' : ReadReq D}
    {rest : List (ReadReq D)} (hq : queues q = r :: rest)
    (h : r' ∈ Function.update queues q rest q') : r' ∈ queues q' := by
  by_cases hq' : q' = q
  · subst hq'
    rw [Function.update_same] at h
    rw [hq]
    exact List.mem_cons_of_mem r h
  · rwa [Function.update_noteq hq'] at h

/-- The states a run reaches, under every interleaving and every monotone clock. -/
def Reachable (cfg : Config Q D) : State Q T D → Prop :=
  Reach (step cfg) fun s => ∃ c0, s = init cfg c0

theorem Reachable.init {cfg : Config Q D} (c0 : U64) :
    Reachable (T := T) cfg (Pipeline.init cfg c0) :=
  Reach.init ⟨c0, rfl⟩

/-- An invariant of the start states that every step keeps holds at every reachable
state. -/
theorem Reachable.inv {cfg : Config Q D} {P : State Q T D → Prop}
    (h0 : ∀ c0, P (Pipeline.init cfg c0))
    (hstep : ∀ {s s' a}, P s → step cfg s a = some s' → P s')
    {s : State Q T D} (h : Reachable cfg s) : P s :=
  Reach.inv (fun _ ⟨c0, hs⟩ => hs ▸ h0 c0) (fun _ _ _ => hstep) h

/-- The steps of a list, in order. -/
def run (cfg : Config Q D) : State Q T D → List (Action Q T D) → Option (State Q T D) :=
  runSteps (step cfg)

theorem Reachable.run {cfg : Config Q D} {s s' : State Q T D} {l : List (Action Q T D)}
    (hs : Reachable cfg s) (h : Pipeline.run cfg s l = some s') : Reachable cfg s' :=
  Reach.runSteps hs h

/-- A run of the steps `l` from the start that ends in a state where `p` holds. -/
theorem exists_reachable_of_run (cfg : Config Q D) (c0 : U64) (l : List (Action Q T D))
    (p : State Q T D → Bool) (h : (run cfg (init cfg c0) l).map p = some true) :
    ∃ s, Reachable cfg s ∧ p s = true :=
  exists_reach_of_runSteps _ ⟨c0, rfl⟩ l p h

/-- The generator and every worker have left their loops: `main` has joined them. -/
def Joined (s : State Q T D) : Prop :=
  (s.gen = .stopped ∨ s.gen = .overloaded) ∧ ∀ w, s.workers w = .exited

instance (s : State Q T D) : Decidable (Joined s) := inferInstanceAs (Decidable (_ ∧ _))

/-- One queue with one worker over one 1 GiB device (record size 1536, 4096-byte
blocks): the configuration of the concrete runs. -/
def cfgOne : Config 1 1 where
  devices := fun _ => ⟨8192, 262144, 4096, 4096⟩
  largeBlocks := false
  queues_pos := by decide
  devices_pos := by decide

/-- One request read successfully and reported; then `main` clears `g_running` and the
worker and the generator leave their loops. -/
def oneRead : List (Action 1 1 1) :=
  [.gen 0 0 0, .gen 0 0 0, .gen 0 0 0, .gen 0 0 0, .worker (0, 0) true, .worker (0, 0) true,
    .worker (0, 0) true, .worker (0, 0) true, .worker (0, 0) true, .worker (0, 0) true,
    .worker (0, 0) true, .worker (0, 0) true, .worker (0, 0) true, .worker (0, 0) true, .stop,
    .worker (0, 0) true, .gen 0 0 0]

end Act.Pipeline
