import Act.Device.Random
import Act.Pipeline.Model

set_option autoImplicit false

/-! # Where the transaction reads are

`run_add_readreqs` fills a request in with the `random_read_offset` of the device it picks
and that device's `read_bytes`; after that nothing changes a request: the queues and the
workers only move it. So at every reachable state every request in flight, in the
generator's hands, in a queue or in a worker's, reads `read_bytes` at `k * min_op_bytes`
with `k` below `num_read_offsets` and below `2^47` (`queuedReads_placed`), and each of these
offsets is queued on some run (`queuedRead_reachable`). On a device with more than `2^47`
read offsets the upper ones are never read.
-/

namespace Act.Pipeline

variable {Q T D : Nat}

/-! ## Requests in flight -/

/-- The request the generator holds, if any. -/
def GenPc.req : GenPc D → Option (ReadReq D)
  | .push r => some r
  | _ => none

/-- The request a worker holds, if any. -/
def WorkerPc.req : WorkerPc D → Option (ReadReq D)
  | .popped r | .reading r _ | .readOk r _ _ | .rawIn r _ _ | .readIn r _ _ | .reported r =>
    some r
  | _ => none

/-- Request `r` is in the generator's hands, in a queue or in a worker's hands. -/
def InFlight (s : State Q T D) (r : ReadReq D) : Prop :=
  s.gen.req = some r ∨ (∃ q, r ∈ s.queues q) ∨ ∃ w, (s.workers w).req = some r

/-- A step that changes the generator's request and the workers' at most by dropping them
and leaves the queues alone puts nothing new in flight. -/
theorem inFlight_of_drop {s s' : State Q T D} {r : ReadReq D} (hr : InFlight s' r)
    (hg : s'.gen.req = none ∨ s'.gen.req = s.gen.req) (hq : s'.queues = s.queues)
    (hw : ∀ w, (s'.workers w).req = none ∨ (s'.workers w).req = (s.workers w).req) :
    InFlight s r := by
  rcases hr with hr | ⟨q, hr⟩ | ⟨w, hr⟩
  · rcases hg with hg | hg <;> rw [hg] at hr
    · cases hr
    · exact .inl hr
  · exact .inr (.inl ⟨q, hq ▸ hr⟩)
  · rcases hw w with hw | hw <;> rw [hw] at hr
    · cases hr
    · exact .inr (.inr ⟨w, hr⟩)

/-- Worker `w` moving to `pc` keeps every other worker's request. -/
theorem req_update (s : State Q T D) (w : Worker Q T) {pc : WorkerPc D}
    (hpc : pc.req = none ∨ pc.req = (s.workers w).req) (w' : Worker Q T) :
    (Function.update s.workers w pc w').req = none ∨
      (Function.update s.workers w pc w').req = (s.workers w').req := by
  by_cases h : w' = w
  · subst h; rwa [Function.update_same]
  · rw [Function.update_noteq h]; exact .inr rfl

/-- A worker step puts nothing new in flight: a pop moves the head of the worker's queue
into its hands, and every other step keeps or drops what it holds. -/
theorem inFlight_worker {s s' : State Q T D} {w : Worker Q T} {ok : Bool} {r : ReadReq D}
    (h : workerStep s w ok = some s') (hr : InFlight s' r) : InFlight s r := by
  have keep : ∀ {pc : WorkerPc D}, (pc.req = none ∨ pc.req = (s.workers w).req) →
      InFlight { s with workers := Function.update s.workers w pc } r → InFlight s r :=
    fun hpc hr => inFlight_of_drop hr (.inr rfl) rfl (req_update s w hpc)
  unfold workerStep at h
  split at h
  next => cases h; refine keep ?_ hr; split <;> exact .inl rfl
  next hpc =>
    split at h
    next => cases h; exact keep (.inl (by rfl)) hr
    next r0 rest hqw =>
      -- the pop
      cases h
      rcases hr with hr | ⟨q, hr⟩ | ⟨w', hr⟩
      · exact .inl hr
      · exact .inr (.inl ⟨q, mem_update_pop hqw hr⟩)
      · dsimp only at hr
        by_cases hw : w' = w
        · subst hw
          rw [Function.update_same] at hr
          cases hr
          exact .inr (.inl ⟨w'.1, by rw [hqw]; exact List.mem_cons_self _ _⟩)
        · rw [Function.update_noteq hw] at hr
          exact .inr (.inr ⟨w', hr⟩)
  -- the other steps keep the worker's request or drop it
  next r0 hpc => cases h; exact keep (.inr (by rw [hpc]; rfl)) hr
  next r0 t hpc => split at h <;> cases h <;> exact keep (.inr (by rw [hpc]; rfl)) hr
  next r0 t stop hpc => cases h; exact keep (.inr (by rw [hpc]; rfl)) hr
  next r0 t stop hpc => cases h; exact keep (.inr (by rw [hpc]; rfl)) hr
  next r0 t stop hpc => cases h; exact keep (.inr (by rw [hpc]; rfl)) hr
  next r0 hpc => cases h; exact keep (.inl (by rfl)) hr
  next hpc => cases h; exact keep (.inl (by rfl)) hr
  next => cases h

/-- A generator step puts nothing new in flight but the request it builds, which reads its
device's `read_bytes` at a `random_read_offset` of two `rand()` results. -/
theorem inFlight_gen {cfg : Config Q D} {s s' : State Q T D} {rand31 : U32} {rand48 : U64}
    {r : ReadReq D} (h : genStep cfg s rand31 rand48 = some s') (hr : InFlight s' r) :
    InFlight s r ∨ (randomReadOffset (cfg.devices r.device) rand48 = some r.offset ∧
      r.size = (cfg.devices r.device).readBytes) := by
  unfold genStep at h
  split at h
  next => cases h; exact .inl (inFlight_of_drop hr (.inl (by split <;> rfl)) rfl fun _ => .inr rfl)
  next =>
    split at h <;> cases h <;> exact .inl (inFlight_of_drop hr (.inl rfl) rfl fun _ => .inr rfl)
  next =>
    dsimp only at h
    split at h
    next => cases h
    next offset hoff =>
      cases h
      rcases hr with hr | hr
      · cases hr
        exact .inr ⟨hoff, rfl⟩
      · exact .inl (.inr hr)
  next r0 hpc =>
    -- the push
    cases h
    rcases hr with hr | ⟨q, hr⟩ | hr
    · cases hr
    · rcases mem_update_push hr with hr | rfl
      · exact .inl (.inr (.inl ⟨q, hr⟩))
      · exact .inl (.inl (by rw [hpc]; rfl))
    · exact .inl (.inr (.inr hr))
  next => cases h
  next => cases h

theorem inFlight_step {cfg : Config Q D} {s s' : State Q T D} {a : Action Q T D}
    {r : ReadReq D} (h : step cfg s a = some s') (hr : InFlight s' r) :
    InFlight s r ∨ ((∃ hiRand loRand : RandInt,
        randomReadOffset (cfg.devices r.device) (rand48 hiRand loRand) = some r.offset) ∧
      r.size = (cfg.devices r.device).readBytes) := by
  cases a with
  | gen devRand hiRand loRand =>
    exact (inFlight_gen h hr).imp_right fun ⟨ho, hs⟩ => ⟨⟨hiRand, loRand, ho⟩, hs⟩
  | worker w ok => exact .inl (inFlight_worker h hr)
  | large dir d ok start lag => obtain ⟨_, _, _, rfl⟩ := largeStep_eq h; exact .inl hr
  | stop => cases h; exact .inl hr
  | tick t =>
    simp only [step] at h
    split at h <;> cases h
    exact .inl hr

/-! ## Every request in flight is placed -/

/-- Request `r` reads its device's `read_bytes` at `k * min_op_bytes`, with `k` below the
device's `num_read_offsets` and below `2^47`. -/
def ReadAt (cfg : Config Q D) (r : ReadReq D) : Prop :=
  (∃ k : U64, k.toNat < min (cfg.devices r.device).numReadOffsets.toNat (2 ^ 47) ∧
    r.offset = k * (cfg.devices r.device).minOpBytes.setWidth 64) ∧
  r.size = (cfg.devices r.device).readBytes

/-- The placement invariant. -/
def Placed (cfg : Config Q D) (s : State Q T D) : Prop := ∀ r, InFlight s r → ReadAt cfg r

theorem placed_init (cfg : Config Q D) (c0 : U64) : Placed cfg (init (T := T) cfg c0) := by
  intro r hr
  simp [InFlight, init, GenPc.req, WorkerPc.req] at hr

theorem placed_step {cfg : Config Q D} {s s' : State Q T D} {a : Action Q T D}
    (hi : Placed cfg s) (h : step cfg s a = some s') : Placed cfg s' := fun r hr =>
  (inFlight_step h hr).elim (hi r) fun ⟨ho, hs⟩ => ⟨(randomReadOffset_reaches _ _).1 ho, hs⟩

/-- At every reachable state every request in flight reads `read_bytes` at
`k * min_op_bytes` of its device, with `k` below `num_read_offsets` and below `2^47`. -/
theorem queuedReads_placed {cfg : Config Q D} {s : State Q T D} (h : Reachable cfg s)
    {r : ReadReq D} (hr : InFlight s r) : ReadAt cfg r :=
  h.inv (placed_init cfg) placed_step r hr

/-- The generator's first pass over `cfgOne`, with every `rand()` result `0`, queues a read
at offset `0`, and it is placed. -/
theorem queuedReads_placed_firstPass :
    ∃ (s : State 1 1 1) (r : ReadReq 1),
      Reachable cfgOne s ∧ InFlight s r ∧ ReadAt cfgOne r := by
  obtain ⟨s, hs, hq⟩ :=
    exists_reachable_of_run (T := 1) cfgOne 0 (List.replicate 4 (.gen 0 0 0))
    (fun s => decide (⟨0, 0, 0, 4096, 0⟩ ∈ s.queues 0)) (by decide)
  have hr : InFlight s ⟨0, 0, 0, 4096, 0⟩ := .inr (.inl ⟨0, of_decide_eq_true hq⟩)
  exact ⟨s, _, hs, hr, queuedReads_placed hs hr⟩

/-! ## Every such offset is read on some run -/

/-- For every device `d` that `rand_31() % num_devices` can pick and every `k` below its
`num_read_offsets` and below `2^47`, the generator's first pass queues a read of `d` at
`k * min_op_bytes` when its `rand()` results are right. -/
theorem queuedRead_reachable (cfg : Config Q D) (d : Fin D) (hd : d.val ≤ RAND_MAX) (k : U64)
    (hk : k.toNat < min (cfg.devices d).numReadOffsets.toNat (2 ^ 47)) :
    ∃ s, Reachable (T := T) cfg s ∧ ∃ r ∈ s.queues ⟨0, cfg.queues_pos⟩,
      r.device = d ∧ r.offset = k * (cfg.devices d).minOpBytes.setWidth 64 := by
  obtain ⟨hiRand, loRand, ho⟩ :=
    (randomReadOffset_reaches (cfg.devices d) _).2 ⟨k, hk, rfl⟩
  have hdev :
      (⟨(rand31 ⟨d, Nat.lt_succ_of_le hd⟩).toNat % D, Nat.mod_lt _ cfg.devices_pos⟩ : Fin D) =
        d := by
    apply Fin.ext
    have : (d : Nat) < 2 ^ 32 := Nat.lt_of_lt_of_le (Nat.lt_succ_of_le hd) (by decide)
    simp only [rand31, BitVec.toNat_ofNat]
    rw [Nat.mod_eq_of_lt this]
    exact Nat.mod_eq_of_lt d.isLt
  obtain ⟨s, hrun, hq⟩ : ∃ s, Pipeline.run cfg (init cfg 0)
      (List.replicate 4 (.gen ⟨d, Nat.lt_succ_of_le hd⟩ hiRand loRand)) = some s ∧
      ∃ r ∈ s.queues ⟨0, cfg.queues_pos⟩,
        r.device = d ∧ r.offset = k * (cfg.devices d).minOpBytes.setWidth 64 :=
    ⟨_, by simp [Pipeline.run, runSteps, step, genStep, init, hdev, ho, MAX_READ_REQS_QUEUED]
           rfl,
      ⟨0, d, _, (cfg.devices d).readBytes, 0⟩, by simp, rfl, rfl⟩
  exact ⟨s, (Reachable.init 0).run hrun, hq⟩

/-- On `cfgOne` the read at offset `5 * 4096` is queued on some run. -/
theorem queuedRead_reachable_five :
    (0 : Fin 1).val ≤ RAND_MAX ∧
      (5 : U64).toNat < min (cfgOne.devices 0).numReadOffsets.toNat (2 ^ 47) ∧
      ∃ s, Reachable (T := 1) cfgOne s ∧ ∃ r ∈ s.queues 0,
        r.device = 0 ∧ r.offset = 5 * (cfgOne.devices 0).minOpBytes.setWidth 64 :=
  ⟨by decide, by decide, queuedRead_reachable cfgOne 0 (by decide) 5 (by decide)⟩

end Act.Pipeline
