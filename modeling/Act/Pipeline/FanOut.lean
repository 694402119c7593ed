import Act.Pipeline.Model
import Mathlib.Data.Int.CardIntervalMod

set_option autoImplicit false

/-! # How the generator spreads requests over the queues

Iteration `count` of `run_add_readreqs` pushes its request on queue
`count % g_cfg.num_queues`, `count` being a `uint64_t` that counts the pushes. Requests are
numbered in the order they are allocated, one per iteration, so request `i` is iteration
`i`'s. At every state of every run, the requests popped from queue `q` so far followed by
those still in it are the iterations `i` with `(i mod 2^64) mod Q = q`, in increasing order
(`Spread.routed`); the pops take them from the front, so each queue is served in
generator order.

Up to `2^64` iterations, more than any run makes (a run lasts less than `2^62` ns, and an
iteration more than a nanosecond), this is the even split `i mod Q = q`: each queue gets
`⌊N/Q⌋` or `⌈N/Q⌉` requests, and its workers pop them in generator order
(`requests_spread`).
-/

namespace Act.Pipeline

variable {Q T D : Nat}

/-! ## The iterations pushed so far -/

/-- `1` while the generator holds a request it has not pushed yet. -/
def GenPc.allocated : GenPc D → Nat
  | .push _ => 1
  | _ => 0

/-- The iterations of the generator that have pushed their request. -/
def pushed (s : State Q T D) : Nat := s.nextId - s.gen.allocated

/-- The queue iteration `i` pushes on: `count % num_queues`, with `count` the number of
earlier iterations as a `uint64_t`. -/
def queueOf (Q i : Nat) : Nat := i % 2 ^ 64 % Q

/-- The fan-out invariant: `count` is the number of pushes modulo `2^64`, the request the
generator holds is the last one allocated, and each queue's history is the iterations
routed to it. -/
structure Spread (s : State Q T D) : Prop where
  count_eq : s.count.toNat = pushed s % 2 ^ 64
  gen_id : ∀ r, s.gen = .push r → r.id + 1 = s.nextId
  routed : ∀ q : Fin Q, s.poppedIds q ++ (s.queues q).map ReadReq.id =
    (List.range (pushed s)).filter (fun i => queueOf Q i = q)

/-- One more push onto queue `k`: the history of `k` grows by the new iteration, and the
others are unchanged. -/
theorem filter_range_succ_routed (n : Nat) (q : Nat) :
    (List.range (n + 1)).filter (fun i => queueOf Q i = q) =
      (List.range n).filter (fun i => queueOf Q i = q) ++
        if queueOf Q n = q then [n] else [] := by
  rw [List.range_succ, List.filter_append]
  by_cases h : queueOf Q n = q <;> simp [h]

/-! ## The invariant holds at every reachable state -/

theorem spread_init (cfg : Config Q D) (c0 : U64) : Spread (init (T := T) cfg c0) where
  count_eq := rfl
  gen_id := by simp [init]
  routed := by simp [init, pushed, GenPc.allocated]

theorem spread_gen {cfg : Config Q D} {s s' : State Q T D} {r31 : U32} {r48 : U64}
    (hi : Spread s) (h : genStep cfg s r31 r48 = some s') : Spread s' := by
  obtain ⟨hc, hg, hr⟩ := hi
  unfold pushed at hc hr
  unfold genStep at h
  split at h
  next hpc =>
    rw [hpc] at hc hr
    cases hrun : s.running <;> simp only [hrun] at h <;> cases h <;>
      exact ⟨hc, (fun r h => by cases h), hr⟩
  next hpc =>
    rw [hpc] at hc hr
    split at h <;> cases h <;> exact ⟨hc, (fun r h => by cases h), hr⟩
  next hpc =>
    rw [hpc] at hc hr
    dsimp only at h
    split at h <;> cases h
    exact ⟨hc, (fun r h => by cases h; rfl), hr⟩
  next r hpc =>
    cases h
    rw [hpc] at hc hr
    have hid : r.id + 1 = s.nextId := hg r hpc
    have hp : s.nextId - (GenPc.push r).allocated = r.id := by
      simp only [GenPc.allocated]; omega
    have hq : s.count.toNat % Q = queueOf Q r.id := by rw [hc, hp]; rfl
    refine ⟨?_, (fun r h => by cases h), fun q => ?_⟩
    · show (s.count + 1).toNat = (s.nextId - 0) % 2 ^ 64
      simp only [BitVec.toNat_add, hc, hp, ← hid, Nat.sub_zero, BitVec.ofNat_eq_ofNat,
        BitVec.toNat_ofNat]
      omega
    · show _ = (List.range (s.nextId - 0)).filter _
      dsimp only
      rw [Nat.sub_zero, ← hid, filter_range_succ_routed, ← hp, ← hr q, hp]
      by_cases hqq : q = ⟨s.count.toNat % Q, Nat.mod_lt _ cfg.queues_pos⟩
      · subst hqq
        simp [hq]
      · rw [Function.update_noteq hqq, if_neg fun h => hqq (Fin.ext (h.symm.trans hq.symm)),
          List.append_nil]
  next => cases h
  next => cases h

theorem spread_worker {s s' : State Q T D} {w : Worker Q T} {ok : Bool}
    (hi : Spread s) (h : workerStep s w ok = some s') : Spread s' := by
  obtain ⟨hg, hc, hn, hq | ⟨r, rest, hqw, hq, hpop⟩⟩ := workerStep_queues h
  all_goals have hp : pushed s' = pushed s := by simp only [pushed, hg, hn]
  · exact ⟨by rw [hc, hp]; exact hi.1, by rw [hg, hn]; exact hi.2,
      fun q => by rw [hq.1, hq.2, hp]; exact hi.3 q⟩
  refine ⟨by rw [hc, hp]; exact hi.1, by rw [hg, hn]; exact hi.2, fun q => ?_⟩
  rw [hq, hpop, hp, ← hi.3 q]
  by_cases hqq : q = w.1
  · subst hqq
    simp [hqw]
  · simp only [Function.update_noteq hqq]

theorem spread_step {cfg : Config Q D} {s s' : State Q T D} {a : Action Q T D}
    (hi : Spread s) (h : step cfg s a = some s') : Spread s' := by
  cases a with
  | gen devRand hiRand loRand => exact spread_gen hi h
  | worker w ok => exact spread_worker hi h
  | large dir d ok start lag =>
    obtain ⟨_, _, _, rfl⟩ := largeStep_eq h
    exact ⟨hi.1, hi.2, hi.3⟩
  | stop => cases h; exact ⟨hi.1, hi.2, hi.3⟩
  | tick t =>
    simp only [step] at h
    split at h <;> cases h
    exact ⟨hi.1, hi.2, hi.3⟩

theorem spread_reachable {cfg : Config Q D} {s : State Q T D} (h : Reachable cfg s) :
    Spread s :=
  h.inv (spread_init cfg) spread_step

/-! ## The even split -/

/-- Of the first `n` iterations, `⌊n/Q⌋` or `⌈n/Q⌉` have residue `q`. -/
theorem length_filter_range_mod (n : Nat) {q : Nat} (hq : q < Q) :
    ((List.range n).filter (fun i => i % Q = q)).length = n / Q + if q < n % Q then 1 else 0 := by
  have := Nat.count_modEq_card n (Nat.zero_lt_of_lt hq) q
  rw [Nat.mod_eq_of_lt hq, Nat.count, List.countP_eq_length_filter] at this
  rw [← this]
  congr 2
  funext i
  simp [Nat.ModEq, Nat.mod_eq_of_lt hq]

/-- At every state of every run with at most `2^64` pushes, the requests pushed on queue
`q` are, in push order, the iterations `i` with `i mod Q = q`, in increasing order; there
are `⌊N/Q⌋` of them, or one more; and the workers of `q` have popped a prefix of them. -/
theorem requests_spread {cfg : Config Q D} {s : State Q T D} (h : Reachable cfg s)
    (hN : pushed s ≤ 2 ^ 64) (q : Fin Q) :
    s.poppedIds q ++ (s.queues q).map ReadReq.id =
        (List.range (pushed s)).filter (fun i => i % Q = q.val) ∧
      s.poppedIds q <+: (List.range (pushed s)).filter (fun i => i % Q = q.val) ∧
      ((List.range (pushed s)).filter (fun i => i % Q = q.val)).length =
        pushed s / Q + if q.val < pushed s % Q then 1 else 0 := by
  have hr := (spread_reachable h).routed q
  have hlist : (List.range (pushed s)).filter (fun i => queueOf Q i = q) =
      (List.range (pushed s)).filter (fun i => i % Q = q.val) :=
    List.filter_congr fun i hi => by
      rw [queueOf, Nat.mod_eq_of_lt (lt_of_lt_of_le (List.mem_range.1 hi) hN)]
  rw [hlist] at hr
  exact ⟨hr, hr ▸ List.prefix_append _ _, length_filter_range_mod _ q.isLt⟩

/-- The split after the run `oneRead`: its one request went to the one queue. -/
theorem requests_spread_oneRead :
    ∃ s : State 1 1 1, Reachable cfgOne s ∧ pushed s = 1 ∧ pushed s ≤ 2 ^ 64 ∧
      ∀ q : Fin 1, s.poppedIds q ++ (s.queues q).map ReadReq.id =
          (List.range (pushed s)).filter (fun i => i % 1 = q.val) ∧
        s.poppedIds q <+: (List.range (pushed s)).filter (fun i => i % 1 = q.val) ∧
        ((List.range (pushed s)).filter (fun i => i % 1 = q.val)).length =
          pushed s / 1 + if q.val < pushed s % 1 then 1 else 0 := by
  obtain ⟨s, hs, hp⟩ := exists_reachable_of_run cfgOne 0 oneRead
    (fun s => decide (pushed s = 1)) (by decide)
  have hp := of_decide_eq_true hp
  exact ⟨s, hs, hp, by omega, fun q => requests_spread hs (by omega) q⟩

end Act.Pipeline
